/-
  Descriptors, cut at places in a text.

  * `Letters.cut` cuts a text at a byte, which has to lie on a boundary between
    letters (`Letters.cut_append`);
  * `Checked.parse` reads a type as `FieldType.parse` does, but cuts the text at
    places; `Checked.parse_eq`: all of them are boundaries inside the text.
-/
import JvmClass.Proofs.Checked.Basic
import JvmClass.Proofs.Descriptor
import Mathlib.Data.String.Basic

namespace JvmClass

/-! ## Places in a text -/

namespace Letters

open String (utf8Len utf8Len_nil utf8Len_cons)

/-- The letters before and after the byte `place`, which has to lie on a
    boundary between letters. -/
def cut : (place : Nat) → List Char → Option (List Char × List Char)
  | 0, letters => some ([], letters)
  | _ + 1, [] => none
  | place + 1, c :: letters =>
    if c.utf8Size ≤ place + 1 then
      (cut (place + 1 - c.utf8Size) letters).map fun (front, back) => (c :: front, back)
    else none

theorem cut_append (front back : List Char) :
    cut (utf8Len front) (front ++ back) = some (front, back) := by
  induction front with
  | nil => simp only [utf8Len_nil, List.nil_append, cut]
  | cons c front ih =>
    have hlength := utf8Len_cons c front
    obtain ⟨place, hplace⟩ : ∃ place, utf8Len (c :: front) = place + 1 := by
      have := c.utf8Size_pos
      exact Nat.exists_eq_add_one.mpr (by omega)
    have hle : c.utf8Size ≤ place + 1 := by omega
    have hrest : place + 1 - c.utf8Size = utf8Len front := by omega
    rw [hplace, List.cons_append, cut, if_pos hle, hrest, ih]
    rfl

theorem utf8Len_of_all {c : Char} (hc : c.utf8Size = 1) {letters : List Char}
    (h : ∀ a ∈ letters, a = c) : utf8Len letters = letters.length := by
  induction letters with
  | nil => rfl
  | cons a letters ih =>
    obtain ⟨rfl, hrest⟩ := List.forall_mem_cons.mp h
    rw [utf8Len_cons, ih hrest, hc, List.length_cons]

end Letters

/-! ## Parsing -/

namespace Checked

open Letters
open String (utf8Len utf8Len_append utf8Len_eq_zero)

/-- Read the class name and the `;` of an object type; `all` are the letters
    from its `L` on. -/
def parseObject (all rest : List Char) : Checked Malformed (FieldType × List Char) :=
  if ';' ∈ rest then
    let stop := utf8Len (rest.takeWhile (· != ';'))
    if stop = 0 then throw (.emptyClassName (String.ofList all))
    else do
      let (name, _) ← found (cut stop rest)
      let (_, after) ← found (cut (stop + 1) rest)
      return (.object (String.ofList name), after)
  else throw (.unterminatedObject (String.ofList all))

/-- Read a type that is no array. -/
def parseElement (letters : List Char) : Checked Malformed (FieldType × List Char) :=
  match letters.head? with
  | none => throw .endOfDescriptor
  | some c => do
    let (_, rest) ← found (cut c.utf8Size letters)
    match BaseType.ofLetter? c with
    | some type => return (.base type, rest)
    | none => if c = 'L' then parseObject letters rest else throw (.unknownType (String.ofList letters))

/-- Read one type; the letters after it are returned with it. -/
def parse (letters : List Char) : Checked Malformed (FieldType × List Char) :=
  let dimensions := (letters.takeWhile (· == '[')).length
  if dimensions > FieldType.maxDimensions then throw .arrayDimensions
  else do
    let (_, element) ← found (cut dimensions letters)
    let (type, rest) ← parseElement element
    return (type.nest dimensions, rest)

theorem parseObject_eq (all rest : List Char) :
    parseObject all rest = ofExcept (FieldType.parseObject all rest) := by
  have hsplit := List.takeWhile_append_dropWhile (p := (· != ';')) (l := rest)
  unfold parseObject FieldType.parseObject
  cases hdrop : rest.dropWhile (· != ';') with
  | nil =>
    have hnone : ';' ∉ rest := fun hmem => by simpa using List.dropWhile_eq_nil_iff.mp hdrop _ hmem
    rw [if_neg hnone]
    rfl
  | cons c after =>
    obtain rfl := FieldType.dropWhile_eq_cons hdrop
    rw [hdrop] at hsplit
    generalize rest.takeWhile (· != ';') = name at hsplit ⊢
    subst hsplit
    have hafter : cut (utf8Len name + 1) (name ++ ';' :: after) = some (name ++ [';'], after) := by
      rw [← show utf8Len (name ++ [';']) = utf8Len name + 1 from utf8Len_append ..]
      simpa using cut_append (name ++ [';']) after
    simp only [List.mem_append, List.mem_cons, true_or, or_true, if_true, utf8Len_eq_zero,
      List.isEmpty_iff, cut_append name (';' :: after), hafter]
    split
    next => rfl
    next => rfl

theorem parseElement_eq (letters : List Char) :
    parseElement letters = ofExcept (FieldType.parseElement letters) := by
  cases letters with
  | nil => rfl
  | cons c rest =>
    have hcut : cut c.utf8Size (c :: rest) = some ([c], rest) := by
      simpa using cut_append [c] rest
    unfold parseElement FieldType.parseElement
    simp only [List.head?_cons, hcut]
    cases BaseType.ofLetter? c with
    | some type => rfl
    | none =>
      by_cases hobject : c = 'L'
      · simp only [hobject, if_true]
        exact parseObject_eq _ _
      · simp only [hobject, if_false]
        rfl

/-- **A descriptor is cut on boundaries inside it.** -/
theorem parse_eq (letters : List Char) : parse letters = ofExcept (FieldType.parse letters) := by
  have hbrackets : utf8Len (letters.takeWhile (· == '[')) =
      (letters.takeWhile (· == '[')).length :=
    utf8Len_of_all (c := '[') rfl fun a ha => by simpa using List.mem_takeWhile_imp ha
  have hcut := cut_append (letters.takeWhile (· == '[')) (letters.dropWhile (· == '['))
  rw [List.takeWhile_append_dropWhile, hbrackets] at hcut
  unfold parse FieldType.parse
  dsimp only
  rw [FieldType.drop_brackets, hcut]
  split
  next => rfl
  next =>
    change (parseElement _ >>= _) = _
    rw [parseElement_eq]
    cases FieldType.parseElement (letters.dropWhile (· == '[')) <;> rfl

end Checked

end JvmClass

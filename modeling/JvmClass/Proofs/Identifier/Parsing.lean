/-
  The texts that name a class.

  * `Identifier.IsCore` is what is left of a text without the brackets, the `L`
    and `;` and the extension around a name; there is one such core
    (`isCore_iff`);
  * `Identifier.segments` are the pieces of a core between slashes and dots,
    `ofSegments` is the class that has them as package and name;
  * `Identifier.parse_eq_ok`: a text names a class if the segments of its core are
    in order, and then the one that has these segments;
  * `Identifier.parse_iff_segments` says so without the functions that take
    texts apart.
-/
import JvmClass.Identifier
import JvmClass.Proofs.Text.Split
import Mathlib.Data.List.TakeWhile

namespace JvmClass.Identifier

/-! ## What is around a name -/

/-- Without the brackets in front. -/
def Unbracketed (cs rest : List Char) : Prop :=
  ∃ n, cs = List.replicate n '[' ++ rest ∧ rest.head? ≠ some '['

/-- Without the `L` in front and the `;` behind, if both are there. -/
def Unwrapped (cs rest : List Char) : Prop :=
  cs = 'L' :: rest ++ [';'] ∨ rest = cs ∧ ∀ inner, cs ≠ 'L' :: inner ++ [';']

/-- Without the extension of a class file, if it is there. -/
def Unextended (cs rest : List Char) : Prop :=
  cs = rest ++ extension ∨ rest = cs ∧ ∀ front, cs ≠ front ++ extension

/-- What is left of a text without anything around the name. -/
def IsCore (text : String) (core : List Char) : Prop :=
  ∃ element named, Unbracketed text.toList element ∧ Unwrapped element named ∧
    Unextended named core

theorem unbracketed_iff {cs rest : List Char} : Unbracketed cs rest ↔ rest = stripArrays cs := by
  constructor
  · rintro ⟨n, rfl, hrest⟩
    have hbrackets : ∀ c ∈ List.replicate n '[', (c == '[') = true := by
      intro c hc
      rw [List.eq_of_mem_replicate hc]
      rfl
    rw [stripArrays, List.dropWhile_append_of_pos hbrackets]
    cases rest with
    | nil => rfl
    | cons c rest =>
      have hc : ¬ (c == '[') = true := by simpa using hrest
      exact (List.dropWhile_cons_of_neg (p := (· == '[')) hc).symm
  · rintro rfl
    refine ⟨(cs.takeWhile (· == '[')).length, ?_, fun hhead => ?_⟩
    · have hbrackets : cs.takeWhile (· == '[') =
          List.replicate (cs.takeWhile (· == '[')).length '[' := by
        refine List.eq_replicate_of_mem fun c hc => ?_
        simpa using List.mem_takeWhile_imp hc
      rw [← hbrackets]
      exact List.takeWhile_append_dropWhile.symm
    · have hnot := List.head?_dropWhile_not (· == '[') cs
      rw [stripArrays] at hhead
      rw [hhead] at hnot
      exact absurd hnot (by decide)

theorem unwrapped_iff {cs rest : List Char} : Unwrapped cs rest ↔ rest = stripReference cs := by
  -- Either both are there, or the letters stay as they are.
  have hwrapped (inner : List Char) : stripReference ('L' :: inner ++ [';']) = inner := by
    simp [stripReference]
  have hplain (h : ∀ inner, cs ≠ 'L' :: inner ++ [';']) : stripReference cs = cs := by
    unfold stripReference
    split
    next inner =>
      split
      next hlast =>
        obtain ⟨front, rfl⟩ := List.getLast?_eq_some_iff.mp hlast
        exact absurd rfl (h front)
      next => rfl
    next => rfl
  constructor
  · rintro (rfl | ⟨rfl, h⟩)
    · exact (hwrapped rest).symm
    · exact (hplain h).symm
  · rintro rfl
    by_cases h : ∃ inner, cs = 'L' :: inner ++ [';']
    · obtain ⟨inner, rfl⟩ := h
      exact .inl (by rw [hwrapped])
    · have h : ∀ inner, cs ≠ 'L' :: inner ++ [';'] := not_exists.mp h
      exact .inr ⟨hplain h, h⟩

theorem unextended_iff {cs rest : List Char} : Unextended cs rest ↔ rest = stripExtension cs := by
  have hextended (front : List Char) : stripExtension (front ++ extension) = front := by
    simp [stripExtension]
  have hplain (h : ∀ front, cs ≠ front ++ extension) : stripExtension cs = cs := by
    rw [stripExtension, if_neg]
    rw [List.isSuffixOf_iff_suffix]
    rintro ⟨front, rfl⟩
    exact h front rfl
  constructor
  · rintro (rfl | ⟨rfl, h⟩)
    · exact (hextended rest).symm
    · exact (hplain h).symm
  · rintro rfl
    by_cases h : ∃ front, cs = front ++ extension
    · obtain ⟨front, rfl⟩ := h
      exact .inl (by rw [hextended])
    · have h : ∀ front, cs ≠ front ++ extension := not_exists.mp h
      exact .inr ⟨hplain h, h⟩

/-- **There is one core**, the one that reading takes. -/
theorem isCore_iff {text : String} {cs : List Char} : IsCore text cs ↔ cs = core text := by
  simp only [IsCore, unbracketed_iff, unwrapped_iff, unextended_iff]
  constructor
  · rintro ⟨_, _, rfl, rfl, rfl⟩
    rfl
  · rintro rfl
    exact ⟨_, _, rfl, rfl, rfl⟩

/-! ## Segments -/

/-- What parts the segments of a name. -/
def isSeparator (c : Char) : Bool := c == '/' || c == '.'

/-- The segments of a name. -/
def segments (cs : List Char) : List (List Char) := cs.splitOnP isSeparator

/-- The class with these segments: the last one is the name, those before it
    are the package. -/
def ofSegments (segments : List (List Char)) : Identifier :=
  ⟨String.ofList (['.'].intercalate segments.dropLast), String.ofList (segments.getLastD [])⟩

theorem ofSegments_concat (front : List (List Char)) (last : List Char) :
    ofSegments (front ++ [last]) =
      ⟨String.ofList (['.'].intercalate front), String.ofList last⟩ := by
  rw [ofSegments, List.dropLast_concat, List.getLastD_concat]

theorem split_dotted (cs : List Char) : Text.split '.' (dotted cs) = segments cs := by
  rw [Text.split_eq_splitOn, segments]
  induction cs with
  | nil => rfl
  | cons c cs ih =>
    have hhead : dotted (c :: cs) = (if c = '/' then '.' else c) :: dotted cs := rfl
    rw [hhead, List.splitOn_cons_eq_if_modifyHead, List.splitOnP_cons_eq_if_modifyHead, ih]
    by_cases hslash : c = '/'
    · simp [hslash, isSeparator]
    · by_cases hdot : c = '.'
      · simp [hdot, isSeparator]
      · simp [hslash, hdot, isSeparator]

/-- Segments are in order if none is empty, other than the first of two. -/
theorem isPackage_dropLast_iff {segments : List (List Char)} (hne : segments ≠ []) :
    segments.getLastD [] ≠ [] ∧ isPackage segments.dropLast = true ↔
      (∀ segment ∈ segments, segment ≠ []) ∨ ∃ name, name ≠ [] ∧ segments = [[], name] := by
  obtain ⟨front, last, rfl⟩ : ∃ front last, segments = front ++ [last] :=
    ⟨_, _, (List.dropLast_concat_getLast hne).symm⟩
  rw [List.getLastD_concat, List.dropLast_concat]
  have hpackage : isPackage front = true ↔ front = [[]] ∨ ∀ segment ∈ front, segment ≠ [] := by
    simp [isPackage]
  have hall : (∀ segment ∈ front ++ [last], segment ≠ []) ↔
      (∀ segment ∈ front, segment ≠ []) ∧ last ≠ [] := by
    rw [List.forall_mem_append, List.forall_mem_singleton]
  rw [hpackage, hall]
  constructor
  · rintro ⟨hlast, rfl | hfront⟩
    · exact .inr ⟨last, hlast, rfl⟩
    · exact .inl ⟨hfront, hlast⟩
  · rintro (⟨hfront, hlast⟩ | ⟨name, hname, heq⟩)
    · exact ⟨hlast, .inr hfront⟩
    · have heq : front ++ [last] = [[]] ++ [name] := heq
      obtain ⟨rfl, hlast⟩ := List.append_inj' heq rfl
      obtain rfl : last = name := by simpa using hlast
      exact ⟨hname, .inl rfl⟩

theorem parse_eq (text : String) :
    parse text =
      if (core text).isEmpty || (core text).contains ';' then .error ⟨String.ofList (core text)⟩
      else if ((segments (core text)).getLastD []).isEmpty ||
          !isPackage (segments (core text)).dropLast then
        .error ⟨String.ofList (dotted (core text))⟩
      else .ok (ofSegments (segments (core text))) := by
  rw [← split_dotted]
  rfl

/-- **The texts that name a class.** -/
theorem parse_eq_ok {text : String} {id : Identifier} :
    parse text = .ok id ↔ core text ≠ [] ∧ ';' ∉ core text ∧
      ((∀ segment ∈ segments (core text), segment ≠ []) ∨
        ∃ name, name ≠ [] ∧ segments (core text) = [[], name]) ∧
      id = ofSegments (segments (core text)) := by
  have hne : segments (core text) ≠ [] := List.splitOnP_ne_nil _ _
  rw [parse_eq, ← isPackage_dropLast_iff hne]
  split
  next hcore =>
    have hcore : core text = [] ∨ ';' ∈ core text := by simpa using hcore
    refine ⟨nofun, fun h => ?_⟩
    exact hcore.elim (absurd · h.1) (absurd · h.2.1)
  next hcore =>
    have hcore : core text ≠ [] ∧ ';' ∉ core text := by simpa using hcore
    split
    next hsegments =>
      rw [Bool.or_eq_true, Bool.not_eq_true', List.isEmpty_iff] at hsegments
      refine ⟨nofun, fun h => ?_⟩
      rcases hsegments with hname | hpackage
      · exact absurd hname h.2.2.1.1
      · exact nomatch hpackage.symm.trans h.2.2.1.2
    next hsegments =>
      rw [Bool.or_eq_true, Bool.not_eq_true', List.isEmpty_iff, not_or, Bool.not_eq_false]
        at hsegments
      rw [Except.ok.injEq, eq_comm]
      exact ⟨fun h => ⟨hcore.1, hcore.2, hsegments, h⟩, fun h => h.2.2.2⟩

/-- **A text names a class** exactly if what is left of it, without anything around
    the name, is there, has no `;`, and has no empty segment other than one in
    front of a name that has no package.  The segments before the last are the
    package, with dots between them, and the last one is the name. -/
theorem parse_iff_segments (text : String) :
    ∃ core, (∀ cs, IsCore text cs ↔ cs = core) ∧ ∀ id, parse text = .ok id ↔
      core ≠ [] ∧ ';' ∉ core ∧
        ((∀ segment ∈ segments core, segment ≠ []) ∨
          ∃ name, name ≠ [] ∧ segments core = [[], name]) ∧
        id = ⟨String.ofList (['.'].intercalate (segments core).dropLast),
          String.ofList ((segments core).getLastD [])⟩ :=
  ⟨core text, fun _ => isCore_iff, fun _ => parse_eq_ok⟩

/-- A separator in front of a name without a package is passed over, although
    the segment before it is empty. -/
theorem parse_iff_segments_leading :
    IsCore ".A" ['.', 'A'] ∧ segments ['.', 'A'] = [[], ['A']] ∧ parse ".A" = .ok ⟨"", "A"⟩ := by
  have hcore : IsCore ".A" ['.', 'A'] := isCore_iff.mpr (by decide +kernel)
  have hsegments : segments ['.', 'A'] = [[], ['A']] := by decide
  obtain ⟨core, hunique, hparse⟩ := parse_iff_segments ".A"
  obtain rfl := (hunique _).mp hcore
  have hleading : ∃ name, name ≠ [] ∧ segments ['.', 'A'] = [[], name] :=
    ⟨['A'], by decide, hsegments⟩
  refine ⟨hcore, hsegments, (hparse _).mpr ⟨by decide, by decide, .inr hleading, ?_⟩⟩
  rw [hsegments]
  decide +kernel

end JvmClass.Identifier

/-
  The grammar of descriptors.

  * `FieldType.Readable` and `MethodType.Readable` are the types that have a
    descriptor which can be read back: not too many array dimensions, and class
    names that are there and do not end early;
  * `FieldType.parse_eq_ok`: what is read off the front of a list of letters are
    the letters of such a type, whatever follows;
  * `MethodType.parseParameters_eq_ok`: the same for a list of parameters;
  * `MethodType.ofDescriptor_iff_descriptor`: exactly the descriptors of these
    types are read, and nothing is the descriptor of two of them.
-/
import JvmClass.Descriptor
import JvmClass.Proofs.Result
import Mathlib.Algebra.Ring.Nat
import Mathlib.Data.List.TakeWhile

namespace JvmClass

theorem BaseType.letter_of_ofLetter? {c : Char} {b : BaseType} (h : ofLetter? c = some b) :
    b.letter = c := by
  unfold ofLetter? at h
  split at h <;> cases h <;> rfl

namespace FieldType

/-! ## Types below array dimensions -/

theorem nest_array (n : Nat) (type : FieldType) : nest n type.array = (nest n type).array := by
  induction n generalizing type with
  | zero => rfl
  | succ n ih => exact ih type.array

/-- A type is what is below its dimensions, with as many dimensions. -/
theorem nest_element (type : FieldType) : nest type.dimensions type.element = type := by
  induction type with
  | base | object => rfl
  | array component ih => exact (nest_array ..).trans (congrArg array ih)

@[simp] theorem dimensions_nest (n : Nat) (type : FieldType) :
    (nest n type).dimensions = n + type.dimensions := by
  induction n generalizing type with
  | zero => exact (Nat.zero_add _).symm
  | succ n ih =>
    rw [nest, ih, dimensions]
    omega

@[simp] theorem element_nest (n : Nat) (type : FieldType) :
    (nest n type).element = type.element := by
  induction n generalizing type with
  | zero => rfl
  | succ n ih => exact ih type.array

@[simp] theorem letters_nest (n : Nat) (type : FieldType) :
    (nest n type).letters = List.replicate n '[' ++ type.letters := by
  induction n with
  | zero => rfl
  | succ n ih =>
    rw [nest, nest_array, letters, ih, List.replicate_succ, List.cons_append]

@[simp] theorem dimensions_element (type : FieldType) : type.element.dimensions = 0 := by
  induction type with
  | base | object => rfl
  | array component ih => exact ih

@[simp] theorem element_element (type : FieldType) : type.element.element = type.element := by
  induction type with
  | base | object => rfl
  | array component ih => exact ih

/-- A type whose descriptor can be read back. -/
structure Readable (type : FieldType) : Prop where
  dimensions : type.dimensions ≤ maxDimensions
  /-- A class name is there, and the first `;` is the one behind it. -/
  named : ∀ className, type.element = object className → className ≠ "" ∧ ';' ∉ className.toList

/-! ## Reading a type -/

/-- What follows the letters before the first `;` begins with it. -/
theorem dropWhile_eq_cons {rest after : List Char} {c : Char}
    (h : rest.dropWhile (· != ';') = c :: after) : c = ';' := by
  have hhead := List.head_dropWhile_not (p := (· != ';')) (l := rest) (by simp [h])
  simpa [h] using hhead

theorem drop_brackets (letters : List Char) :
    letters.drop (letters.takeWhile (· == '[')).length = letters.dropWhile (· == '[') := by
  conv => lhs; arg 2; rw [← List.takeWhile_append_dropWhile (p := (· == '[')) (l := letters)]
  exact List.drop_left

theorem parseObject_eq_ok {all rest after : List Char} {type : FieldType} :
    parseObject all rest = .ok (type, after) ↔ ∃ className, type = object className ∧
      (className ≠ "" ∧ ';' ∉ className.toList) ∧ rest = className.toList ++ ';' :: after := by
  constructor
  · intro h
    have hsplit := List.takeWhile_append_dropWhile (p := (· != ';')) (l := rest)
    unfold parseObject at h
    split at h
    next => exact nomatch h
    next c behind hdrop =>
      obtain rfl := dropWhile_eq_cons hdrop
      split at h
      next => exact nomatch h
      next hname =>
        cases h
        refine ⟨_, rfl, ⟨fun hempty => hname ?_, fun hmem => ?_⟩, ?_⟩
        · simpa using congrArg String.toList hempty
        · rw [String.toList_ofList] at hmem
          simpa using List.mem_takeWhile_imp hmem
        · rw [String.toList_ofList, ← hdrop, hsplit]
  · rintro ⟨className, rfl, ⟨hname, hend⟩, rfl⟩
    have hletters : ∀ c ∈ className.toList, (c != ';') = true := by
      intro c hc
      simpa using fun heq : c = ';' => hend (heq ▸ hc)
    have hne : className.toList ≠ [] := by simpa using hname
    unfold parseObject
    rw [List.dropWhile_append_of_pos hletters, List.takeWhile_append_of_pos hletters]
    simp [hne]

theorem readable_base (b : BaseType) : (base b).Readable := ⟨Nat.zero_le _, nofun⟩

theorem readable_object {className : String} :
    (object className).Readable ↔ className ≠ "" ∧ ';' ∉ className.toList := by
  refine ⟨fun h => h.named className rfl, fun h => ⟨Nat.zero_le _, ?_⟩⟩
  rintro _ ⟨⟩
  exact h

/-- What is read as no array has the letters of a type that is none. -/
theorem parseElement_eq_ok {letters rest : List Char} {type : FieldType} :
    parseElement letters = .ok (type, rest) ↔
      type.dimensions = 0 ∧ type.Readable ∧ letters = type.letters ++ rest := by
  constructor
  · intro h
    unfold parseElement at h
    split at h
    next => exact nomatch h
    next c behind =>
      split at h
      next b hb =>
        cases h
        rw [← BaseType.letter_of_ofLetter? hb]
        exact ⟨rfl, readable_base b, rfl⟩
      next =>
        split at h
        next hobject =>
          obtain ⟨className, rfl, hname, rfl⟩ := parseObject_eq_ok.mp h
          refine ⟨rfl, readable_object.mpr hname, ?_⟩
          simp [hobject, FieldType.letters]
        next => exact nomatch h
  · rintro ⟨helement, hreadable, rfl⟩
    cases type with
    | base b => simp [FieldType.letters, parseElement]
    | object className =>
      simp only [FieldType.letters, parseElement, BaseType.ofLetter?, List.cons_append, if_true,
        List.append_assoc, List.nil_append]
      exact parseObject_eq_ok.mpr ⟨className, rfl, readable_object.mp hreadable, rfl⟩
    | array => exact nomatch helement

/-- The letters of a type that is no array do not begin with a bracket. -/
theorem takeWhile_letters {type : FieldType} (h : type.dimensions = 0) (rest : List Char) :
    (type.letters ++ rest).takeWhile (· == '[') = [] := by
  cases type with
  | base b => cases b <;> rfl
  | object => rfl
  | array => exact nomatch h

/-- **What is read off the front are the letters of a type**, whatever follows
    them. -/
theorem parse_eq_ok {letters rest : List Char} {type : FieldType} :
    parse letters = .ok (type, rest) ↔ type.Readable ∧ letters = type.letters ++ rest := by
  constructor
  · intro h
    have hbrackets : letters.takeWhile (· == '[') =
        List.replicate (letters.takeWhile (· == '[')).length '[' :=
      List.eq_replicate_iff.mpr ⟨rfl, fun c hc => by simpa using List.mem_takeWhile_imp hc⟩
    have hsplit := List.takeWhile_append_dropWhile (p := (· == '[')) (l := letters)
    unfold parse at h
    dsimp only at h
    rw [drop_brackets] at h
    split at h
    next => exact nomatch h
    next hdimensions =>
      obtain ⟨⟨element, behind⟩, helement, hdone⟩ := Result.map_eq_ok.mp h
      cases hdone
      obtain ⟨hzero, hreadable, hletters⟩ := parseElement_eq_ok.mp helement
      refine ⟨⟨?_, ?_⟩, ?_⟩
      · rw [dimensions_nest, hzero]
        exact Nat.not_lt.mp hdimensions
      · rw [element_nest]
        exact hreadable.named
      · rw [letters_nest, List.append_assoc, ← hletters, ← hbrackets, hsplit]
  · rintro ⟨hreadable, rfl⟩
    have hletters : type.letters = List.replicate type.dimensions '[' ++ type.element.letters := by
      rw [← letters_nest, nest_element]
    have hbrackets : (type.letters ++ rest).takeWhile (· == '[') =
        List.replicate type.dimensions '[' := by
      rw [hletters, List.append_assoc, List.takeWhile_append_of_pos (by simp),
        takeWhile_letters (dimensions_element type), List.append_nil]
    have hdrop : (type.letters ++ rest).drop type.dimensions = type.element.letters ++ rest := by
      rw [hletters, List.append_assoc, List.drop_left' List.length_replicate]
    have helement : parseElement (type.element.letters ++ rest) = .ok (type.element, rest) := by
      refine parseElement_eq_ok.mpr ⟨dimensions_element type, ⟨?_, ?_⟩, rfl⟩
      · rw [dimensions_element]
        exact Nat.zero_le _
      · rw [element_element]
        exact hreadable.named
    unfold parse
    dsimp only
    rw [hbrackets, List.length_replicate, if_neg (Nat.not_lt.mpr hreadable.dimensions), hdrop,
      helement]
    exact congrArg (fun type => Except.ok (type, rest)) (nest_element type)

/-- **A field descriptor is read exactly if it is the descriptor of a type.** -/
theorem ofDescriptor_eq_ok {raw : String} {type : FieldType} :
    ofDescriptor raw = .ok type ↔ type.Readable ∧ raw = type.descriptor := by
  have hraw : raw = type.descriptor ↔ raw.toList = type.letters ++ [] := by
    rw [List.append_nil, descriptor, ← String.toList_inj, String.toList_ofList]
  rw [hraw, ← parse_eq_ok]
  unfold ofDescriptor
  constructor
  · intro h
    obtain ⟨⟨read, rest⟩, hparse, hrest⟩ := Result.bind_eq_ok.mp h
    dsimp only at hrest
    split at hrest
    next hempty =>
      cases hrest
      rwa [List.isEmpty_iff.mp hempty] at hparse
    next => exact nomatch hrest
  · intro h
    rw [h]
    rfl

end FieldType

namespace MethodType

/-- The letters of a result type; `void` has one of its own. -/
def resultLetters : Option FieldType → List Char
  | none => ['V']
  | some type => type.letters

/-- The descriptor of a method type. -/
def descriptor (type : MethodType) : String :=
  String.ofList ('(' :: type.parameters.flatMap FieldType.letters ++
    ')' :: resultLetters type.result)

/-- A method type whose descriptor can be read back. -/
structure Readable (type : MethodType) : Prop where
  parameters : ∀ parameter ∈ type.parameters, parameter.Readable
  result : ∀ result, type.result = some result → result.Readable

theorem head?_letters (type : FieldType) (rest : List Char) :
    (type.letters ++ rest).head? ≠ some ')' := by
  cases type with
  | base b => cases b <;> simp [FieldType.letters, BaseType.letter]
  | object => simp [FieldType.letters]
  | array => simp [FieldType.letters]

theorem letters_ne_void (type : FieldType) : type.letters ≠ ['V'] := by
  cases type with
  | base b => cases b <;> simp [FieldType.letters, BaseType.letter]
  | object => simp [FieldType.letters]
  | array => simp [FieldType.letters]

theorem parseParameters_of_parse {done : List FieldType} {letters rest : List Char}
    {type : FieldType} (h : FieldType.parse letters = .ok (type, rest)) :
    parseParameters done letters = parseParameters (type :: done) rest := by
  have hopen : ¬ letters.head? = some ')' := by
    rw [(FieldType.parse_eq_ok.mp h).2]
    exact head?_letters type rest
  rw [parseParameters, if_neg hopen]
  split
  next hfail => cases hfail.symm.trans h
  next type' rest' hparse =>
    cases hparse.symm.trans h
    rfl

/-- **Parameters are read up to the parenthesis** that is not part of one. -/
theorem parseParameters_eq_ok {done types : List FieldType} {letters rest : List Char} :
    parseParameters done letters = .ok (types, rest) ↔ ∃ more, types = done.reverse ++ more ∧
      (∀ type ∈ more, type.Readable) ∧
        letters = more.flatMap FieldType.letters ++ ')' :: rest := by
  constructor
  · intro h
    induction done, letters using parseParameters.induct with
    | case1 done letters hclose =>
      rw [parseParameters, if_pos hclose] at h
      cases h
      exact ⟨[], (List.append_nil _).symm, nofun, (List.cons_head?_tail hclose).symm⟩
    | case2 done letters hopen cause hparse =>
      rw [parseParameters, if_neg hopen] at h
      split at h
      next => exact nomatch h
      next hread => exact nomatch hread.symm.trans hparse
    | case3 done letters hopen type behind hparse ih =>
      rw [parseParameters_of_parse hparse] at h
      obtain ⟨more, rfl, hmore, rfl⟩ := ih h
      obtain ⟨htype, rfl⟩ := FieldType.parse_eq_ok.mp hparse
      refine ⟨type :: more, ?_, List.forall_mem_cons.mpr ⟨htype, hmore⟩, ?_⟩
      · simp
      · simp
  · rintro ⟨more, rfl, hreadable, rfl⟩
    induction more generalizing done with
    | nil => simp [parseParameters]
    | cons type more ih =>
      obtain ⟨htype, hmore⟩ := List.forall_mem_cons.mp hreadable
      rw [List.flatMap_cons, List.append_assoc,
        parseParameters_of_parse (FieldType.parse_eq_ok.mpr ⟨htype, rfl⟩), ih hmore]
      simp

theorem parseResult_eq_ok {raw : String} {letters : List Char} {result : Option FieldType} :
    parseResult raw letters = .ok result ↔
      (∀ type, result = some type → type.Readable) ∧ letters = resultLetters result := by
  unfold parseResult
  constructor
  · intro h
    split at h
    next hvoid =>
      cases h
      exact ⟨nofun, hvoid⟩
    next =>
      obtain ⟨⟨type, rest⟩, hparse, hrest⟩ := Result.bind_eq_ok.mp h
      dsimp only at hrest
      split at hrest
      next hempty =>
        cases hrest
        obtain ⟨htype, rfl⟩ := FieldType.parse_eq_ok.mp hparse
        rw [List.isEmpty_iff.mp hempty, List.append_nil]
        refine ⟨?_, rfl⟩
        rintro _ ⟨⟩
        exact htype
      next => exact nomatch hrest
  · rintro ⟨hreadable, rfl⟩
    cases result with
    | none => rfl
    | some type =>
      have hparse : FieldType.parse type.letters = .ok (type, []) :=
        FieldType.parse_eq_ok.mpr ⟨hreadable type rfl, (List.append_nil _).symm⟩
      rw [resultLetters, if_neg (letters_ne_void type), hparse]
      rfl

/-- **A method descriptor is read exactly if it is the descriptor of a method
    type.** -/
theorem ofDescriptor_eq_ok {raw : String} {type : MethodType} :
    ofDescriptor raw = .ok type ↔ type.Readable ∧ raw = type.descriptor := by
  have hraw : raw = type.descriptor ↔ raw.toList =
      '(' :: type.parameters.flatMap FieldType.letters ++ ')' :: resultLetters type.result := by
    rw [descriptor, ← String.toList_inj, String.toList_ofList]
  rw [hraw]
  unfold ofDescriptor
  constructor
  · intro h
    split at h
    next letters hletters =>
      obtain ⟨⟨parameters, rest⟩, hparameters, h⟩ := Result.bind_eq_ok.mp h
      obtain ⟨result, hparse, hdone⟩ := Result.bind_eq_ok.mp h
      cases hdone
      obtain ⟨_, rfl, hreadable, rfl⟩ := parseParameters_eq_ok.mp hparameters
      obtain ⟨hresult, rfl⟩ := parseResult_eq_ok.mp hparse
      exact ⟨⟨hreadable, hresult⟩, hletters⟩
    next => exact nomatch h
  · rintro ⟨⟨hparameters, hresult⟩, hletters⟩
    have hread : parseParameters []
        (type.parameters.flatMap FieldType.letters ++ ')' :: resultLetters type.result) =
          .ok (type.parameters, resultLetters type.result) :=
      parseParameters_eq_ok.mpr ⟨type.parameters, rfl, hparameters, rfl⟩
    have hparse : parseResult raw (resultLetters type.result) = .ok type.result :=
      parseResult_eq_ok.mpr ⟨hresult, rfl⟩
    rw [hletters]
    refine Result.bind_eq_ok.mpr ⟨_, hread, ?_⟩
    exact Result.bind_eq_ok.mpr ⟨_, hparse, rfl⟩

/-- **Exactly the descriptors of types are read**: reading and writing undo
    each other, no two types have the same descriptor, and the slots of a method
    type are those of its parameters. -/
theorem ofDescriptor_iff_descriptor :
    (∀ raw type, FieldType.ofDescriptor raw = .ok type ↔
      type.Readable ∧ raw = type.descriptor) ∧
    (∀ raw type, MethodType.ofDescriptor raw = .ok type ↔
      type.Readable ∧ raw = type.descriptor) ∧
    (∀ type other : FieldType, type.Readable → other.Readable →
      type.descriptor = other.descriptor → type = other) ∧
    (∀ type other : MethodType, type.Readable → other.Readable →
      type.descriptor = other.descriptor → type = other) ∧
    ∀ raw type, MethodType.ofDescriptor raw = .ok type →
      type.parameterSlots = (type.parameters.map FieldType.size).sum := by
  refine ⟨fun _ _ => FieldType.ofDescriptor_eq_ok, fun _ _ => ofDescriptor_eq_ok, ?_, ?_,
    fun _ _ _ => rfl⟩
  · intro type other htype hother heq
    have hread := FieldType.ofDescriptor_eq_ok.mpr ⟨htype, heq.symm⟩
    cases hread.symm.trans (FieldType.ofDescriptor_eq_ok.mpr ⟨hother, rfl⟩)
    rfl
  · intro type other htype hother heq
    have hread := ofDescriptor_eq_ok.mpr ⟨htype, heq.symm⟩
    cases hread.symm.trans (ofDescriptor_eq_ok.mpr ⟨hother, rfl⟩)
    rfl

/-- A method of three parameters, one of them of a class whose name has brackets
    and parentheses in it. -/
def bracketed : MethodType where
  parameters := [.array (.array (.base .long)), .object "a[(b)", .base .double]
  result := none

theorem readable_bracketed : bracketed.Readable where
  parameters parameter hmem := by
    simp only [bracketed, List.mem_cons, List.not_mem_nil, or_false] at hmem
    rcases hmem with rfl | rfl | rfl
    · exact ⟨by decide, nofun⟩
    · exact FieldType.readable_object.mpr ⟨by decide, by decide⟩
    · exact FieldType.readable_base .double
  result := nofun

/-- Its descriptor is read back, and its parameters take four slots. -/
theorem ofDescriptor_iff_descriptor_bracketed :
    bracketed.Readable ∧ bracketed.descriptor = "([[JLa[(b);D)V" ∧
      ofDescriptor "([[JLa[(b);D)V" = .ok bracketed ∧ bracketed.parameterSlots = 4 := by
  have hdescriptor : bracketed.descriptor = "([[JLa[(b);D)V" := by decide
  have hread := (ofDescriptor_iff_descriptor.2.1 _ bracketed).mpr
    ⟨readable_bracketed, hdescriptor.symm⟩
  exact ⟨readable_bracketed, hdescriptor, hread, ofDescriptor_iff_descriptor.2.2.2.2 _ _ hread⟩

end MethodType

end JvmClass

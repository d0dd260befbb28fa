/-
  Field and method descriptors.

  * `FieldType` is the type of a field, a parameter or a result;
    `FieldType.letters` is its descriptor, letter by letter;
  * `FieldType.parse` reads one type off the front of a list of letters and
    returns the letters that follow, which are fewer (`length_parse_lt`);
  * `FieldType.ofDescriptor` and `MethodType.ofDescriptor` read a whole
    descriptor.
-/
import JvmClass.Malformed

namespace JvmClass

/-- The primitive types. -/
inductive BaseType where
  | byte | char | double | float | int | long | short | boolean
  deriving DecidableEq, Repr

namespace BaseType

/-- The letter of a primitive type. -/
def letter : BaseType → Char
  | byte => 'B'
  | char => 'C'
  | double => 'D'
  | float => 'F'
  | int => 'I'
  | long => 'J'
  | short => 'S'
  | boolean => 'Z'

/-- The primitive type of a letter. -/
def ofLetter? : Char → Option BaseType
  | 'B' => some byte
  | 'C' => some char
  | 'D' => some double
  | 'F' => some float
  | 'I' => some int
  | 'J' => some long
  | 'S' => some short
  | 'Z' => some boolean
  | _ => none

@[simp] theorem ofLetter?_letter (b : BaseType) : ofLetter? b.letter = some b := by
  cases b <;> rfl

end BaseType

/-- The type of a field, a parameter or a result. -/
inductive FieldType where
  | base (type : BaseType)
  | object (className : String)
  | array (component : FieldType)
  deriving DecidableEq, Repr

namespace FieldType

/-- The array type with `dimensions` more dimensions. -/
def nest : (dimensions : Nat) → FieldType → FieldType
  | 0, type => type
  | dimensions + 1, type => nest dimensions type.array

/-- The number of array dimensions. -/
def dimensions : FieldType → Nat
  | array component => component.dimensions + 1
  | _ => 0

/-- The type below all array dimensions. -/
def element : FieldType → FieldType
  | array component => component.element
  | type => type

/-- How many local variable or operand stack slots a value takes. -/
def size : FieldType → Nat
  | base .long | base .double => 2
  | _ => 1

/-- The letters of the descriptor of a type. -/
def letters : FieldType → List Char
  | base type => [type.letter]
  | object className => 'L' :: className.toList ++ [';']
  | array component => '[' :: component.letters

/-- The descriptor of a type. -/
def descriptor (type : FieldType) : String := String.ofList type.letters

/-! ## Parsing -/

/-- Read the class name and the `;` of an object type; `all` are the letters
    from its `L` on. -/
def parseObject (all rest : List Char) : Except Malformed (FieldType × List Char) :=
  match rest.dropWhile (· != ';') with
  | [] => .error (.unterminatedObject (String.ofList all))
  | _ :: after =>
    if (rest.takeWhile (· != ';')).isEmpty then .error (.emptyClassName (String.ofList all))
    else .ok (object (String.ofList (rest.takeWhile (· != ';'))), after)

/-- Read a type that is no array. -/
def parseElement : List Char → Except Malformed (FieldType × List Char)
  | [] => .error .endOfDescriptor
  | c :: rest =>
    match BaseType.ofLetter? c with
    | some type => .ok (base type, rest)
    | none =>
      if c = 'L' then parseObject (c :: rest) rest
      else .error (.unknownType (String.ofList (c :: rest)))

/-- The most array dimensions a type may have. -/
def maxDimensions : Nat := 255

/-- Read one type; the letters after it are returned with it. -/
def parse (letters : List Char) : Except Malformed (FieldType × List Char) :=
  let dimensions := (letters.takeWhile (· == '[')).length
  if dimensions > maxDimensions then .error .arrayDimensions
  else
    (parseElement (letters.drop dimensions)).map fun (type, rest) => (nest dimensions type, rest)

/-- The type that `descriptor` is the descriptor of. -/
def ofDescriptor (descriptor : String) : Except Malformed FieldType := do
  let (type, rest) ← parse descriptor.toList
  unless rest.isEmpty do throw (.trailingInField descriptor)
  return type

theorem length_parseObject_lt {all rest after : List Char} {type : FieldType}
    (h : parseObject all rest = .ok (type, after)) : after.length < rest.length := by
  unfold parseObject at h
  split at h
  · simp at h
  next hdrop =>
    split at h
    · simp at h
    · simp only [Except.ok.injEq, Prod.mk.injEq] at h
      obtain ⟨-, rfl⟩ := h
      have := (List.dropWhile_sublist (· != ';') (l := rest)).length_le
      rw [hdrop, List.length_cons] at this
      omega

theorem length_parseElement_lt {letters after : List Char} {type : FieldType}
    (h : parseElement letters = .ok (type, after)) : after.length < letters.length := by
  unfold parseElement at h
  split at h
  · simp at h
  · split at h
    · simp only [Except.ok.injEq, Prod.mk.injEq] at h
      simp [h.2]
    · split at h
      · have := length_parseObject_lt h
        simp only [List.length_cons]
        omega
      · simp at h

theorem length_parse_lt {letters after : List Char} {type : FieldType}
    (h : parse letters = .ok (type, after)) : after.length < letters.length := by
  simp only [parse] at h
  split at h
  · simp at h
  · cases hp : parseElement (letters.drop (letters.takeWhile (· == '[')).length) with
    | error cause => simp [hp, Except.map] at h
    | ok r =>
      obtain ⟨element, rest⟩ := r
      simp only [hp, Except.map, Except.ok.injEq, Prod.mk.injEq] at h
      have := length_parseElement_lt hp
      simp only [List.length_drop] at this
      rw [← h.2]
      omega

end FieldType

/-- The parameter types and the result type of a method; no result type is
    `void`. -/
structure MethodType where
  parameters : List FieldType
  result : Option FieldType
  deriving DecidableEq, Repr

namespace MethodType

/-- How many slots the parameters take, `this` excluded. -/
def parameterSlots (type : MethodType) : Nat :=
  (type.parameters.map FieldType.size).foldr (· + ·) 0

/-- Read parameter types up to the closing parenthesis, after the types `done`
    in reverse. -/
def parseParameters (done : List FieldType) (letters : List Char) :
    Except Malformed (List FieldType × List Char) :=
  if letters.head? = some ')' then .ok (done.reverse, letters.tail)
  else
    match _h : FieldType.parse letters with
    | .error cause => .error cause
    | .ok (type, rest) => parseParameters (type :: done) rest
termination_by letters.length
decreasing_by exact FieldType.length_parse_lt (by assumption)

/-- Read the result type at the end of `descriptor`. -/
def parseResult (descriptor : String) (letters : List Char) :
    Except Malformed (Option FieldType) := do
  if letters = ['V'] then return none
  let (type, rest) ← FieldType.parse letters
  unless rest.isEmpty do throw (.trailingInMethod descriptor)
  return some type

/-- The method type that `descriptor` is the descriptor of. -/
def ofDescriptor (descriptor : String) : Except Malformed MethodType :=
  match descriptor.toList with
  | '(' :: letters => do
    let (parameters, rest) ← parseParameters [] letters
    let result ← parseResult descriptor rest
    return ⟨parameters, result⟩
  | _ => throw (.noParameterList descriptor)

end MethodType

end JvmClass

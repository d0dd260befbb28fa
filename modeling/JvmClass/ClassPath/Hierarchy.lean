/-
  Super classes, from a class path.

  * `ClassPath.supertype` says what the class file of a class says about its
    super class; a class that cannot be loaded counts as one directly below
    `java/lang/Object`;
  * `commonSuperClass` follows the super classes of two classes until they
    meet, whatever way super classes are asked for;
  * `ClassPath.hierarchy` asks the class path each time, `Known.supertype`
    only once for each class;
  * `Known.hierarchy` are the super classes when some are known from before, and
    `Known.learn` what is known after questions were asked.
-/
import JvmClass.ClassPath.Lookup
import JvmClass.Flow.Questions

namespace JvmClass

/-- What is known of a class above it. -/
structure Supertype where
  superName : Option String
  isInterface : Bool
  deriving DecidableEq, Repr

/-- What is assumed of a class that cannot be loaded. -/
def Supertype.unknown (name : String) : Supertype where
  superName := if name = objectClass then none else some objectClass
  isInterface := false

namespace Supertype

variable {m : Type → Type} [Monad m] (supertype : String → m Supertype)

/-- Add to `seen` the super classes of the last class in it, `current`: at
    most `limit` of them, and none twice. -/
def climb : (limit : Nat) → (seen : List String) → (current : String) → m (List String)
  | 0, seen, _ => pure seen
  | limit + 1, seen, current => do
    match (← supertype current).superName with
    | none => return seen
    | some name =>
      if seen.contains name then return seen else climb limit (seen ++ [name]) name

/-- A class, its super classes and `java/lang/Object`. -/
def ancestors (limit : Nat) (name : String) : m (List String) := do
  let names ← climb supertype limit [name] name
  return if names.getLast? = some objectClass then names else names ++ [objectClass]

/-- The first class, from `left` upwards, that `right` is or descends from.
    Interfaces have only `java/lang/Object` in common with anything. -/
def commonSuperClass (limit : Nat) (left right : String) : m String := do
  if (← supertype left).isInterface then return objectClass
  if (← supertype right).isInterface then return objectClass
  let above ← ancestors supertype limit right
  return ((← ancestors supertype limit left).find? above.contains).getD objectClass

end Supertype

namespace ClassPath

/-- What the class path says of a class. -/
def supertype (path : ClassPath) (name : String) : Supertype :=
  match Identifier.parse name with
  | .error _ => .unknown name
  | .ok id =>
    match path.load id with
    | .ok (some record) => ⟨record.superName, record.access.isInterface⟩
    | _ => .unknown name

/-- How many super classes a class can have: each is in some source, or it is
    the first one that is not, or `java/lang/Object`. -/
def maxHeight (path : ClassPath) : Nat := path.capacity + 2

/-- The super classes that the class path knows. -/
def hierarchy (path : ClassPath) : Hierarchy where
  commonSuperClass left right :=
    Id.run (Supertype.commonSuperClass (fun name => pure (path.supertype name)) path.maxHeight
      left right)

end ClassPath

/-- What has been found out of classes so far. -/
abbrev Known := List (String × Supertype)

namespace Known

/-- What the class path says of a class, looked up only the first time. -/
def supertype (path : ClassPath) (name : String) : StateM Known Supertype := do
  match (← get).lookup name with
  | some supertype => return supertype
  | none =>
    let supertype := path.supertype name
    modify ((name, supertype) :: ·)
    return supertype

/-- The closest class that two classes have in common. -/
def commonSuperClass (path : ClassPath) (left right : String) : StateM Known String :=
  Supertype.commonSuperClass (supertype path) path.maxHeight left right

/-- What is known of a class, or else what the class path says. -/
def retrieve (known : Known) (path : ClassPath) (name : String) : Supertype :=
  (known.lookup name).getD (path.supertype name)

/-- How many super classes a class can have, when some classes are known. -/
def maxHeight (known : Known) (path : ClassPath) : Nat := known.length + path.maxHeight

/-- The super classes, where classes that are known are not looked up again. -/
def hierarchy (known : Known) (path : ClassPath) : Hierarchy where
  commonSuperClass left right :=
    Id.run (Supertype.commonSuperClass (fun name => pure (known.retrieve path name))
      (known.maxHeight path) left right)

/-- What is known after questions were asked as well. -/
def learn (known : Known) (path : ClassPath) (questions : List Question) : Known :=
  let ask : Known → Question → Known := fun later (left, right) =>
    ((Supertype.commonSuperClass (supertype path) (known.maxHeight path) left right).run later).2
  questions.foldl ask known

end Known

end JvmClass

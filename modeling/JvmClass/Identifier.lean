/-
  Names of classes.

  * an `Identifier` is the name of a class, split into package and name;
  * `Identifier.parse` reads one from any of its spellings: `java.lang.String`,
    `java/lang/String`, `Ljava/lang/String;`, an array of it, or the name of
    its class file;
  * `internalName`, `binaryName` and `path` are its written forms.
-/
import JvmClass.Text.Quoted
import JvmClass.Text.Split

namespace JvmClass

/-- The name of a class. -/
structure Identifier where
  /-- The segments of the package with dots between them; empty for a class
      outside of packages. -/
  package : String
  /-- The name within the package: `Outer$Inner` for a nested class. -/
  name : String
  deriving DecidableEq, Repr, Inhabited

/-- A text that does not name a class, as it was when that was noticed. -/
structure InvalidName where
  text : String
  deriving DecidableEq, Repr

def InvalidName.message (e : InvalidName) : String :=
  "invalid class identifier " ++ Text.quote e.text

namespace Identifier

/-- What names of class files end in. -/
def extension : List Char := ".class".toList

/-- A spelling without the marks of array types in front. -/
def stripArrays (cs : List Char) : List Char := cs.dropWhile (· == '[')

/-- A spelling without the `L` and `;` of a reference type. -/
def stripReference : List Char → List Char
  | 'L' :: inner => if inner.getLast? = some ';' then inner.dropLast else 'L' :: inner
  | cs => cs

/-- A spelling without the extension of a class file. -/
def stripExtension (cs : List Char) : List Char :=
  if extension.isSuffixOf cs then cs.take (cs.length - extension.length) else cs

/-- A spelling without anything around the name. -/
def core (text : String) : List Char :=
  stripExtension (stripReference (stripArrays text.toList))

/-- A name with dots between its segments. -/
def dotted (cs : List Char) : List Char := cs.map fun c => if c = '/' then '.' else c

/-- Whether the segments of a package are in order; there may be no package,
    or an empty one. -/
def isPackage (segments : List (List Char)) : Bool :=
  segments == [[]] || segments.all fun segment => !segment.isEmpty

/-- The class that a text names. -/
def parse (text : String) : Except InvalidName Identifier :=
  let core := core text
  if core.isEmpty || core.contains ';' then .error ⟨String.ofList core⟩
  else
    let dotted := dotted core
    let segments := Text.split '.' dotted
    let package := segments.dropLast
    let name := segments.getLastD []
    if name.isEmpty || !isPackage package then .error ⟨String.ofList dotted⟩
    else .ok ⟨String.ofList (['.'].intercalate package), String.ofList name⟩

/-- The name inside class files: `java/lang/String`. -/
def internalName (id : Identifier) : String :=
  if id.package.isEmpty then id.name
  else
    String.ofList (id.package.toList.map fun c => if c = '.' then '/' else c) ++ "/" ++ id.name

/-- The name in programs: `java.lang.String`. -/
def binaryName (id : Identifier) : String :=
  if id.package.isEmpty then id.name else id.package ++ "." ++ id.name

/-- Where the class file is, below the root of a place that holds classes. -/
def path (id : Identifier) : String := id.internalName ++ ".class"

/-- Package and name with a dot between them, also where the package is
    empty. -/
def describe (id : Identifier) : String := id.package ++ "." ++ id.name

end Identifier

end JvmClass

/-
  Trees of files.

  * a `Node` is a file or a directory, whose entries are kept in the order of
    their names;
  * `Node.find` follows names down a tree, `Node.modify` changes what they lead
    to;
  * `Node.files` lists the files of a tree with their paths.
-/
import JvmClass.Bytes.BigEndian
import JvmClass.Text.Split

namespace JvmClass

/-- Why a path does not lead to what was asked for. -/
inductive PathError where
  | notFound
  | notADirectory
  | isADirectory
  | notAName
  deriving DecidableEq, Repr

/-- A file or a directory. -/
inductive Node where
  | file (content : Bytes)
  | directory (entries : List (String × Node))
  deriving Inhabited

namespace Node

/-- A directory with nothing in it. -/
def empty : Node := .directory []

/-- The entries with an entry added, in its place; it replaces one of the same
    name. -/
def put (name : String) (node : Node) : List (String × Node) → List (String × Node)
  | [] => [(name, node)]
  | (other, old) :: rest =>
    if name < other then (name, node) :: (other, old) :: rest
    else if name = other then (name, node) :: rest
    else (other, old) :: put name node rest

/-- The most bytes that a name of a directory entry can have. -/
def maxNameLength : Nat := 255

/-- What a directory has under a name. -/
def child (node : Node) (name : String) : Except PathError Node :=
  match node with
  | .file _ => .error .notADirectory
  | .directory entries =>
    if maxNameLength < name.utf8ByteSize then .error .notAName
    else
      match entries.lookup name with
      | some child => .ok child
      | none => .error .notFound

/-- What names lead to, one after another. -/
def find (node : Node) : List String → Except PathError Node
  | [] => .ok node
  | name :: names => do (← node.child name).find names

/-- Change what names lead to. -/
def modify (change : Node → Node) : List String → Node → Node
  | [], node => change node
  | _ :: _, .file content => .file content
  | name :: names, .directory entries =>
    .directory (entries.map fun (other, child) =>
      (other, if other = name then modify change names child else child))

/-- The content of a file. -/
def content : Node → Except PathError Bytes
  | .file content => .ok content
  | .directory _ => .error .isADirectory

/-- Whether a node is a directory. -/
def isDirectory : Node → Bool
  | .file _ => false
  | .directory _ => true

mutual

/-- The files of a tree, each with the names that lead to it. -/
def files : Node → List (List String × Bytes)
  | .file content => [([], content)]
  | .directory entries => filesOf entries

/-- The files of the entries of a directory. -/
def filesOf : List (String × Node) → List (List String × Bytes)
  | [] => []
  | (name, node) :: rest =>
    (node.files.map fun (names, content) => (name :: names, content)) ++ filesOf rest

end

end Node

end JvmClass

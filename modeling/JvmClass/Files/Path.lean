/-
  Paths as texts.

  * a path is cut at slashes into its steps; empty steps and dots go nowhere;
  * `Path.fileName?` and `Path.extension?` look at the last step;
  * `Path.join` goes on from a directory, and starts anew at an absolute path;
  * `Path.names` are the names that a path leads along, step after step;
  * `Path.parent` is the path without its last step;
  * `Path.canLead` says whether a path leads anywhere at all.
-/
import JvmClass.Text.Split

namespace JvmClass.Path

/-- The steps of a path, those that go nowhere included. -/
def steps (path : String) : List String := Text.splitText '/' path

/-- Whether a step stays where it is. -/
def isIdle (step : String) : Bool := step == "" || step == "."

/-- Whether a path starts at the root. -/
def isAbsolute (path : String) : Bool := path.toList.head? == some '/'

/-- What a path calls the file that it leads to; a path that ends by going up
    gives no name. -/
def fileName? (path : String) : Option String :=
  match ((steps path).filter (!isIdle ·)).getLast? with
  | some ".." => none
  | name => name

/-- What follows the last dot of a file name; a dot in front counts as part of
    the name. -/
def extension? (path : String) : Option String := do
  let pieces := Text.split '.' (← fileName? path).toList
  if (['.'].intercalate pieces.dropLast).isEmpty then none
  else pieces.getLast?.map String.ofList

/-- The path that leads on from a directory. -/
def join (directory path : String) : String :=
  if isAbsolute path then path
  else if directory.isEmpty || directory.toList.getLast? = some '/' then directory ++ path
  else directory ++ "/" ++ path

/-- The names to which a step leads on. -/
def follow (names : List String) (step : String) : List String :=
  if isIdle step then names
  else if step = ".." then names.dropLast
  else names ++ [step]

/-- The names that a path leads along, from the root. -/
def names (here : List String) (path : String) : List String :=
  (steps path).foldl follow (if isAbsolute path then [] else here)

/-- Steps without those at the end that go nowhere; the first one stays. -/
def trim : List String → List String
  | [] => []
  | first :: rest => first :: (rest.reverse.dropWhile isIdle).reverse

/-- The path of the directory that a path leads into last. -/
def parent (path : String) : String :=
  let parent := "/".intercalate (trim (trim (steps path)).dropLast)
  if isAbsolute path && parent.isEmpty then "/" else parent

/-- The most bytes that a path can have. -/
def maxLength : Nat := 4095

/-- Whether a path is one that can be followed: it is not too long and has no
    `NUL` in it. -/
def canLead (path : String) : Bool :=
  path.utf8ByteSize ≤ maxLength && !path.toList.contains '\x00'

end JvmClass.Path

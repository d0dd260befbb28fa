/-
  What commands do.

  * a command comes down to `Action`s: lines to print and files to write, up to a
    failure if there is one;
  * it gets to them in `Stage`s, one for each class file that it works on: what a
    stage does depends on the `Session`, that is on the files that there are by
    then, and on what was found out about classes;
  * `script` gives the stages of a command.
-/
import JvmClass.ClassFile.Inspection
import JvmClass.ClassFile.Writing
import JvmClass.ClassPath.Entries
import JvmClass.ClassPath.Hierarchy
import JvmClass.Tool.Arguments
import JvmClass.Tool.Inputs
import JvmClass.Tool.Listing

namespace JvmClass.Tool

/-- A step of what a command does. -/
inductive Action where
  | print (line : String)
  /-- Write a file below a directory. -/
  | write (directory name : String) (content : Bytes)
  | fail (failure : Failure)

/-- What there is while a command is under way. -/
structure Session where
  workspace : Workspace
  /-- What was found out about classes. -/
  known : Known

/-- The super classes, as far as the class path that consists of `places` tells
    of them by now. -/
def Session.hierarchy (session : Session) (places : List Place) : Hierarchy :=
  session.known.hierarchy (.ofPlaces session.workspace places)

/-- What is known after questions were asked about classes. -/
def Session.learn (session : Session) (places : List Place) (questions : List Question) : Known :=
  session.known.learn (.ofPlaces session.workspace places) questions

/-- A part of what a command does, and what is known about classes after it. -/
abbrev Stage := Session → List Action × Known

/-- A stage that does the same in every session. -/
def Stage.always (actions : List Action) : Stage := fun session => (actions, session.known)

/-- A stage for each class file, or the failure to find them. -/
def forEach (inputs : Except Failure (List Input)) (stage : Input → Stage) : List Stage :=
  match inputs with
  | .ok inputs => inputs.map stage
  | .error failure => [.always [.fail failure]]

/-- Print the listing of a class. -/
def printListing (record : ClassRecord) : List Action := (listing record).map .print

/-- Print what is in a class file. -/
def info (input : Input) : List Action :=
  match ClassFile.decode input.bytes {} with
  | .ok record => printListing record
  | .error _ => [.fail (.undecodable input.name)]

/-- Print whether class files are in order; in the end all have to be. -/
def validate (inputs : List Input) : List Action :=
  let verdict (input : Input) : String := if ClassFile.isValid input.bytes then "ok" else "invalid"
  let invalid := inputs.countP fun input => !ClassFile.isValid input.bytes
  (inputs.map fun input => .print s!"{input.name}: {verdict input}") ++
    if invalid = 0 then [] else [.fail (.invalidFiles invalid)]

/-- Write a class file without debug information. -/
def strip (output : String) (input : Input) : List Action :=
  match ClassFile.stripDebug input.bytes with
  | .ok bytes => [.write output input.name bytes]
  | .error _ => [.fail (.unstrippable input.name)]

/-- A class file as it is after decoding and encoding; it has to decode
    again. -/
def reencode (decode : DecodeOptions) (encode : EncodeOptions) (hierarchy : Hierarchy)
    (input : Input) : Except Failure Bytes :=
  match ClassFile.decode input.bytes decode with
  | .error _ => .error (.undecodable input.name)
  | .ok record =>
    match ClassFile.encode record encode hierarchy with
    | .error _ => .error (.unencodable input.name)
    | .ok bytes =>
      if (ClassFile.decode bytes {}).isOk then .ok bytes else .error (.unstable input.name)

/-- What encoding a class file anew asks about classes. -/
def reencodeQuestions (decode : DecodeOptions) (encode : EncodeOptions) (hierarchy : Hierarchy)
    (input : Input) : List Question :=
  match ClassFile.decode input.bytes decode with
  | .error _ => []
  | .ok record => ClassFile.questions record encode hierarchy

/-- Decode and encode a class file, and write it where that is wanted. -/
def roundtrip (decode : DecodeOptions) (encode : EncodeOptions) (places : List Place)
    (output : Option String) (input : Input) : Stage := fun session =>
  let hierarchy := session.hierarchy places
  let known := session.learn places (reencodeQuestions decode encode hierarchy input)
  match reencode decode encode hierarchy input with
  | .error failure => ([.fail failure], known)
  | .ok bytes =>
    (.print s!"{input.name}: {input.bytes.length} -> {bytes.length} bytes" ::
      output.toList.map fun directory => .write directory input.name bytes, known)

section
variable (unzip : Unzip) (workspace : Workspace) (environment : Environment)

/-- Where classes are looked up: in inputs other than class files, then in the
    class path given, or in that of the environment. -/
def places (given inputs : List String) : Except OpenError (List Place) := do
  let first ← ClassPath.ofEntries unzip workspace (inputs.filter (!Input.isClassFile ·))
  let second ←
    if given.isEmpty then ClassPath.ofEnvironment unzip workspace environment
    else ClassPath.ofEntries unzip workspace given
  return first ++ second

/-- Print the listing of a class on the class path. -/
def load (given : List String) (name : String) : List Action :=
  match Identifier.parse name with
  | .error cause => [.fail (.className cause)]
  | .ok id =>
    match places unzip workspace environment given [] with
    | .error cause => [.fail (.classPath cause)]
    | .ok places =>
      match (ClassPath.ofPlaces workspace places).load id with
      | .error cause => [.fail (.load cause)]
      | .ok none => [.fail (.missing id)]
      | .ok (some record) => printListing record

/-- What a command does.  The class files that it works on are read and its
    class path is opened before anything else. -/
def script (arguments : Arguments) : List Stage :=
  let forEach (inputs : List String) (stage : Input → Stage) : List Stage :=
    Tool.forEach (Input.collect unzip workspace inputs) stage
  match arguments.command with
  | .info inputs => forEach inputs fun input => .always (info input)
  | .validate inputs =>
    match Input.collect unzip workspace inputs with
    | .ok inputs => [.always (validate inputs)]
    | .error failure => [.always [.fail failure]]
  | .version inputs =>
    forEach inputs fun input =>
      .always [.print s!"{input.name}: {ClassFile.version input.bytes}"]
  | .access inputs =>
    forEach inputs fun input =>
      .always [.print (s!"{input.name}: 0x" ++
        Text.hexPadded 4 (ClassFile.access input.bytes).toNat)]
  | .strip inputs output => forEach inputs fun input => .always (strip output input)
  | .roundtrip inputs decode encode output =>
    match places unzip workspace environment arguments.classPath inputs with
    | .error cause => [.always [.fail (.classPath cause)]]
    | .ok places => forEach inputs (roundtrip decode encode places output)
  | .load name => [.always (load unzip workspace environment arguments.classPath name)]

end

end JvmClass.Tool

/-
  The command line of the tool.

  * `Arguments` say what to do, `Arguments.parse` reads them off the command
    line;
  * there are two ways to ask for something else than a command: help and the
    version.  A line that makes no sense is a `Stop` as well.
-/
import JvmClass.Options
import JvmClass.Tool.Token

namespace JvmClass.Tool

/-- The commands. -/
inductive Verb where
  | info | validate | version | access | strip | roundtrip | load
  deriving DecidableEq, Repr

/-- What to do. -/
inductive Command where
  | info (inputs : List String)
  | validate (inputs : List String)
  | version (inputs : List String)
  | access (inputs : List String)
  | strip (inputs : List String) (output : String)
  | roundtrip (inputs : List String) (decode : DecodeOptions) (encode : EncodeOptions)
    (output : Option String)
  | load (name : String)
  deriving Repr

/-- The paths of the classes that a command works on. -/
def Command.inputs : Command → List String
  | .info inputs | .validate inputs | .version inputs | .access inputs | .strip inputs _
  | .roundtrip inputs _ _ _ => inputs
  | .load _ => []

/-- A command and where its classes come from. -/
structure Arguments where
  classPath : List String
  command : Command
  deriving Repr

/-- Why a command line gives no command to carry out. -/
inductive Stop where
  | usage | help | version
  deriving DecidableEq, Repr

namespace Verb

/-- The commands by name. -/
def table : List (String × Verb) :=
  [("info", info), ("validate", validate), ("version", version), ("access", access),
    ("strip", strip), ("roundtrip", roundtrip), ("load", load)]

def classPathForm : OptionForm := { setting := .classPath, long := "classpath", takesValue := true }

def helpForm : OptionForm := { setting := .help, long := "help", short := some 'h' }

def versionForm : OptionForm := { setting := .version, long := "version", short := some 'V' }

def outputForm : OptionForm :=
  { setting := .output, long := "output", short := some 'o', takesValue := true }

/-- The options in front of the command. -/
def leadingForms : List OptionForm := [classPathForm, helpForm, versionForm]

/-- The options of a command. -/
def forms : Verb → List OptionForm
  | strip => [classPathForm, helpForm, outputForm]
  | roundtrip =>
    [classPathForm, helpForm, outputForm,
      { setting := .skipDebug, long := "skip-debug" },
      { setting := .computeFrames, long := "compute-frames" },
      { setting := .computeMaxs, long := "compute-maxs" }]
  | _ => [classPathForm, helpForm]

/-- Whether the words of a command are paths; otherwise there is one word, the
    name of a class. -/
def takesPaths : Verb → Bool
  | load => false
  | _ => true

end Verb

/-- What the tokens of a command line say. -/
structure Settings where
  classPath : List String := []
  output : Option String := none
  flags : List Setting := []
  words : List String := []
  deriving Repr

namespace Settings

/-- Add a word; `takesPaths` says whether it is a path. -/
def addWord (settings : Settings) (takesPaths : Bool) (text : String) : Except Stop Settings :=
  if if takesPaths then text.isEmpty else !settings.words.isEmpty then .error .usage
  else .ok { settings with words := settings.words ++ [text] }

/-- Add what a token says.  Paths are not empty, and only class paths are given
    more than once. -/
def add (takesPaths : Bool) (settings : Settings) : Token → Except Stop Settings
  | .flag .help => .error .help
  | .flag .version => .error .version
  | .flag setting =>
    if settings.flags.contains setting then .error .usage
    else .ok { settings with flags := setting :: settings.flags }
  | .value .classPath text =>
    let paths := Text.splitText ':' text
    if paths.contains "" then .error .usage
    else .ok { settings with classPath := settings.classPath ++ paths }
  | .value _ text =>
    if text.isEmpty || settings.output.isSome then .error .usage
    else .ok { settings with output := some text }
  | .word text => settings.addWord takesPaths text
  | .unexpected => .error .usage

/-- What tokens say together. -/
def ofTokens (takesPaths : Bool) (tokens : List Token) : Except Stop Settings :=
  tokens.foldlM (add takesPaths) {}

end Settings

/-- The command that its verb and settings make up. -/
def Verb.command (verb : Verb) (settings : Settings) : Except Stop Command :=
  let has (setting : Setting) : Bool := settings.flags.contains setting
  match verb, settings.words, settings.output with
  | _, [], _ => .error .usage
  | .info, inputs, _ => .ok (.info inputs)
  | .validate, inputs, _ => .ok (.validate inputs)
  | .version, inputs, _ => .ok (.version inputs)
  | .access, inputs, _ => .ok (.access inputs)
  | .strip, _, none => .error .usage
  | .strip, inputs, some output => .ok (.strip inputs output)
  | .roundtrip, inputs, output =>
    .ok (.roundtrip inputs { skipDebug := has .skipDebug }
      { computeFrames := has .computeFrames
        computeMaxs := has .computeMaxs || has .computeFrames } output)
  | .load, name :: _, _ => .ok (.load name)

namespace Arguments

/-- Read what follows the name of a command. -/
def parseCommand (classPath : List String) (name : String) (rest : List String) :
    Except Stop Arguments := do
  match Verb.table.lookup name with
  | none => throw .usage
  | some verb =>
    let settings ← Settings.ofTokens verb.takesPaths (scan verb.forms false rest).1
    let command ← verb.command settings
    return ⟨if settings.classPath.isEmpty then classPath else settings.classPath, command⟩

/-- Whether help can be had with these words after `help`. -/
def isHelpTopic : List String → Bool
  | [] => true
  | [topic] => topic == "help" || (Verb.table.lookup topic).isSome
  | _ => false

/-- Read a command line. -/
def parse (arguments : List String) : Except Stop Arguments := do
  let (tokens, rest) := scan Verb.leadingForms true arguments
  match tokens.getLast? with
  | some (.word name) =>
    let settings ← Settings.ofTokens true tokens.dropLast
    if name = "help" then throw (if isHelpTopic rest then .help else .usage)
    parseCommand settings.classPath name rest
  | _ => do
    let _ ← Settings.ofTokens true tokens
    throw .usage

end Arguments

end JvmClass.Tool

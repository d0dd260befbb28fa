/-
  The words of a command line.

  * an `OptionForm` is an option with its spellings;
  * `scan` tells options, their values and other words apart.  An argument
    that is none of these stands as `Token.unexpected`, and ends the scan.
-/
import JvmClass.Text.Split

namespace JvmClass.Tool

/-- The options that commands take. -/
inductive Setting where
  | classPath | output | skipDebug | computeFrames | computeMaxs | help | version
  deriving DecidableEq, Repr

/-- How an option is written. -/
structure OptionForm where
  setting : Setting
  long : String
  short : Option Char := none
  takesValue : Bool := false
  deriving Repr

/-- A part of a command line. -/
inductive Token where
  | flag (setting : Setting)
  | value (setting : Setting) (text : String)
  | word (text : String)
  | unexpected
  deriving DecidableEq, Repr

/-- Whether an argument is an option, or looks like one. -/
def looksLikeOption (argument : String) : Bool :=
  argument.toList.head? == some '-' && argument != "-"

/-- The value that is attached to an option: `=` may stand in front of it. -/
def attached (cs : List Char) : String :=
  match cs with
  | '=' :: value => String.ofList value
  | value => String.ofList value

/-- An option, given the value attached to it and the argument after it; says
    whether it takes that argument. -/
def OptionForm.token (form : OptionForm) (value following : Option String) : Token × Bool :=
  match form.takesValue, value, following with
  | false, none, _ => (.flag form.setting, false)
  | false, some _, _ => (.unexpected, false)
  | true, some text, _ => (.value form.setting text, false)
  | true, none, some text =>
    if looksLikeOption text then (.unexpected, false) else (.value form.setting text, true)
  | true, none, none => (.unexpected, false)

/-- What an argument means, given the one after it; says whether it takes that
    one as well. -/
def token (forms : List OptionForm) (argument : String) (following : Option String) :
    Token × Bool :=
  match argument.toList with
  | '-' :: '-' :: long =>
    let name := String.ofList (long.takeWhile (· ≠ '='))
    let value := long.dropWhile (· ≠ '=')
    match forms.find? (·.long == name) with
    | none => (.unexpected, false)
    | some form => form.token (if value.isEmpty then none else some (attached value)) following
  | '-' :: short :: rest =>
    match forms.find? (·.short == some short) with
    | none => (.unexpected, false)
    | some form =>
      let value := if form.takesValue && !rest.isEmpty then some (attached rest) else none
      form.token value following
  | _ => (.word argument, false)

/-- The tokens of a command line, and what follows the first word if the scan
    is to end there. -/
def scan (forms : List OptionForm) (untilWord : Bool) : List String → List Token × List String
  | [] => ([], [])
  | [argument] =>
    if argument = "--" then ([], []) else ([(token forms argument none).1], [])
  | argument :: following :: rest =>
    if argument = "--" then
      if untilWord then ([.unexpected], []) else ((following :: rest).map .word, [])
    else
      match token forms argument (some following) with
      | (.unexpected, _) => ([.unexpected], [])
      | (.word text, _) =>
        if untilWord then ([.word text], following :: rest)
        else
          let (tokens, left) := scan forms untilWord (following :: rest)
          (.word text :: tokens, left)
      | (token, true) =>
        let (tokens, left) := scan forms untilWord rest
        (token :: tokens, left)
      | (token, false) =>
        let (tokens, left) := scan forms untilWord (following :: rest)
        (token :: tokens, left)

end JvmClass.Tool

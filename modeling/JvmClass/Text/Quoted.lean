/-
  Texts in quotation marks.

  * `quote text` puts a text between quotation marks and escapes what would
    not be seen: quotation marks, backslashes, the usual control characters
    (`escapeChar`), and by code point (`\u` and braces) whatever has no
    printed form or would extend the character before it.
-/
import JvmClass.Text.GraphemeExtend
import JvmClass.Text.Hex
import JvmClass.Text.Unprintable

namespace JvmClass.Text

/-- A character as it is written between quotation marks. -/
def escapeChar (c : Char) : String :=
  match c with
  | '\x00' => "\\0"
  | '\t' => "\\t"
  | '\r' => "\\r"
  | '\n' => "\\n"
  | '"' => "\\\""
  | '\\' => "\\\\"
  | c =>
    if isUnprintable c || isExtender c then "\\u\x7b" ++ hex c.toNat ++ "\x7d"
    else c.toString

/-- A text between quotation marks. -/
def quote (text : String) : String :=
  "\"" ++ String.join (text.toList.map escapeChar) ++ "\""

end JvmClass.Text

import Highlighting.Text.Integer
import Highlighting.Text.Visible

/-!
Quoted texts: a text between double quotes, with quotes, backslashes and everything that would not
show replaced by escapes.
-/

namespace Highlighting.Text

def escape (c : Char) : String :=
  if c == '\x00' then "\\0"
  else if c == '\t' then "\\t"
  else if c == '\r' then "\\r"
  else if c == '\n' then "\\n"
  else if c == '\\' then "\\\\"
  else if c == '"' then "\\\""
  else if isVisible c then c.toString
  else "\\u\x7b" ++ hex c.toNat ++ "\x7d"

def quote (text : String) : String :=
  "\"" ++ text.foldl (fun out c => out ++ escape c) "" ++ "\""

def quoteList (texts : List String) : String :=
  "[" ++ ", ".intercalate (texts.map quote) ++ "]"

end Highlighting.Text

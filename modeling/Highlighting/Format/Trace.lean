import Highlighting.Format.Basic
import Highlighting.Text.Utf8

/-!
Formats that write the calls themselves: as words with quoted texts, or a line for each call with the
text in hexadecimal digits.
-/

namespace Highlighting

def Trace.word : Call → String
  | .startDocument => "document"
  | .endDocument => "/document"
  | .startToken kind => "start(" ++ kind.canonicalName ++ ")"
  | .endToken kind => "end(" ++ kind.canonicalName ++ ")"
  | .write text => "write(" ++ Text.quote (Utf8.decode text) ++ ")"
  | .startLexing lexer => "lexing(" ++ lexer ++ ")"
  | .endLexing lexer => "/lexing(" ++ lexer ++ ")"

def Trace.format : Format where
  name := "Trace"
  description := "Record formatter calls as text, for tests"
  render _ call := Bytes.ofText (Trace.word call ++ " ")

def Record.line : Call → String
  | .startDocument => "document"
  | .endDocument => "/document"
  | .startToken kind => "start " ++ kind.canonicalName
  | .endToken kind => "end " ++ kind.canonicalName
  | .write text => "write " ++ text.foldl (fun out b => out ++ Text.hexByte b) ""
  | .startLexing lexer => "lexing " ++ lexer
  | .endLexing lexer => "/lexing " ++ lexer

def Record.formatNamed (name description : String) (options : List OptionDeclaration) : Format where
  name := name
  description := description
  options := options
  render _ call := Bytes.ofText (Record.line call ++ "\n")

def Record.format : Format :=
  formatNamed "Record" "" []

end Highlighting

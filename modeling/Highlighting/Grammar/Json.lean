import Highlighting.Grammar.Json.Keys
import Highlighting.Grammar.Json.Lexeme
import Highlighting.Language.Grammar

/-!
JSON documents. What is no lexeme of JSON passes through as text.
-/

namespace Highlighting.Json

variable {w : Window}

def scan (next? : Scanner) (cx : ScanContext w) : ScanEvent × ScanContext w :=
  match next? w cx with
  | none => (.done, cx)
  | some found => (.token found.kind, cx.advance (max 1 found.length))

/-- The bytes that may stand before a document when it is looked at for a guess. -/
def isLeadingBlank (b : UInt8) : Bool :=
  isSpace b || b == 0x0C

def analyse (input : Bytes) : Int :=
  match input[input.skipWhile isLeadingBlank input.size 0]? with
  | some 0x7B => 200
  | some 0x5B => 100
  | _ => 0

def language (next? : Scanner) : Language where
  name := "Json"
  description := "Lexer for JSON documents"
  patterns := ["*.json"]
  mimetypes := ["application/json"]
  options :=
    [{ name := "keys", default := .bool true, doc := "highlight object keys as tag names" }]
  grammar :=
    { scan := fun _ _ cx => scan next? cx
      analyse := analyse
      parser? := fun settings => if settings.flag "keys" then some keyParser else none }

end Highlighting.Json

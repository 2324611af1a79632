import Highlighting.Language.Grammar

/-!
The language without tokens: everything is text.
-/

namespace Highlighting.PlainText

variable {w : Window}

def scan (cx : ScanContext w) : ScanEvent × ScanContext w :=
  if cx.atEnd then (.done, cx) else (.token .text, cx.advanceToLimit)

def language : Language where
  name := "Text"
  description := "A lexer that doesn't highlight anything"
  aliases := ["txt"]
  patterns := ["*.txt"]
  mimetypes := ["text/plain"]
  grammar := { scan := fun _ _ cx => scan cx }

end Highlighting.PlainText

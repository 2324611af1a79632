import Highlighting.Bytes
import Highlighting.Token

/-!
Rendering calls. A run of the highlighter is a sequence of calls; a format turns each of them into
bytes.
-/

namespace Highlighting

inductive Call where
  | startDocument
  | endDocument
  | startToken (kind : TokenKind)
  | endToken (kind : TokenKind)
  | write (text : Bytes)
  | startLexing (lexer : String)
  | endLexing (lexer : String)
  deriving DecidableEq, Repr

end Highlighting

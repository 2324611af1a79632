import Highlighting.Format.Call
import Highlighting.Language.PushParser

/-!
From spans to calls. Neighbouring spans of one kind form one run; a run ends where the kind changes,
where a delegate begins or ends, and at the end of the document.
-/

namespace Highlighting

structure Emitter where
  openRun : Option TokenKind := none
  calls : Array Call := #[]
  deriving DecidableEq, Repr

namespace Emitter

def call (emitter : Emitter) (call : Call) : Emitter :=
  { emitter with calls := emitter.calls.push call }

def closeRun (emitter : Emitter) : Emitter :=
  match emitter.openRun with
  | none => emitter
  | some kind => ⟨none, emitter.calls.push (.endToken kind)⟩

def openRunOf (emitter : Emitter) (kind : TokenKind) : Emitter :=
  if emitter.openRun = some kind then emitter
  else ⟨some kind, emitter.closeRun.calls.push (.startToken kind)⟩

def emit (emitter : Emitter) (kind : TokenKind) (text : Bytes) : Emitter :=
  if text.isEmpty then emitter else (emitter.openRunOf kind).call (.write text)

def emitSpan (input : Bytes) (emitter : Emitter) (span : Span) : Emitter :=
  emitter.emit span.kind (input.extract span.start span.stop)

def startLexing (emitter : Emitter) (lexer : String) : Emitter :=
  emitter.closeRun.call (.startLexing lexer)

def endLexing (emitter : Emitter) (lexer : String) : Emitter :=
  emitter.closeRun.call (.endLexing lexer)

def endDocument (emitter : Emitter) : Emitter :=
  emitter.closeRun.call .endDocument

end Emitter

end Highlighting

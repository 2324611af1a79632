import Highlighting.Language.PushParser

/-!
A push parser at work on its own: tokens are fed one after the other, also after an error.
-/

namespace Highlighting

/-- A token to feed. A detached token is shown to the parser with no span queued. -/
structure FeedToken where
  kind : TokenKind
  text : Bytes
  detached : Bool := false

structure Feeding where
  parser : RunningParser
  offset : Nat := 0
  spans : Array Span := #[]
  verdicts : Array Verdict := #[]

namespace Feeding

def feed (feeding : Feeding) (token : FeedToken) : Feeding :=
  let stop := feeding.offset + token.text.size
  if token.detached then
    let (parser, _, verdict) := feeding.parser.feed token.kind token.text #[]
    { feeding with
      parser := parser, offset := stop, verdicts := feeding.verdicts.push verdict }
  else
    let queued := feeding.spans.push (Span.ofLexer feeding.offset stop token.kind)
    let (parser, spans, verdict) := feeding.parser.feed token.kind token.text queued
    { parser := parser, offset := stop, spans := spans, verdicts := feeding.verdicts.push verdict }

def ofTokens (parser : PushParser) (tokens : List FeedToken) : Feeding :=
  tokens.foldl feed { parser := parser.running }

end Feeding

end Highlighting

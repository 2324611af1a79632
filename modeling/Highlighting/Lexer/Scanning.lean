import Highlighting.Lexer.Instance

/-!
A grammar at work on its own: the events of a lexer on a text, without the engine that carries them
out.
-/

namespace Highlighting

structure ScannedEvent where
  event : ScanEvent
  start : Nat
  stop : Nat
  deriving DecidableEq, Repr

namespace Lexer

def scanOnce (catalog : Catalog) (host : Host) (lexer : Lexer) (input : Bytes)
    (start limit : Nat) : ScannedEvent × Lexer :=
  let w := Window.clamp input start limit
  let (event, after) :=
    (catalog.language lexer.language).grammar.scan ⟨lexer.options, host⟩ w
      (ScanContext.opening w lexer.state)
  (⟨event, w.start, after.cursor⟩, { lexer with state := after.state })

/-- Scan calls, each from where the last one stopped, until the lexer is done. There is no answer if
that takes more than `fuel` calls. -/
def scanAll (catalog : Catalog) (host : Host) (input : Bytes) (limit : Nat) :
    (fuel : Nat) → Lexer → (start : Nat) → (found : Array ScannedEvent) →
      Option (Array ScannedEvent × Lexer)
  | 0, _, _, _ => none
  | fuel + 1, lexer, start, found =>
    let (scanned, after) := lexer.scanOnce catalog host input start limit
    if scanned.event = .done then some (found, after)
    else scanAll catalog host input limit fuel after scanned.stop (found.push scanned)

end Lexer

end Highlighting

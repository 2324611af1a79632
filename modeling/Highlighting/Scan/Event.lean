import Highlighting.Language.Id
import Highlighting.Token

/-!
What a scan call can come to.
-/

namespace Highlighting

inductive DelegationMode where
  /-- The delegate decides where to stop, at most at the limit of the delegating lexer. -/
  | full
  | within
  deriving DecidableEq, Repr

structure Delegation where
  mode : DelegationMode
  target : LanguageId
  fallback : TokenKind
  /-- The condition in which the delegating lexer goes on once the delegate is done. -/
  resume : Option Int := none
  deriving DecidableEq, Repr

inductive ScanEvent where
  | token (kind : TokenKind)
  | extend
  | done
  | delegate (delegation : Delegation)
  deriving DecidableEq, Repr

end Highlighting

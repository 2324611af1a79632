/-!
The identity of a language. Languages are told apart by identity and never by name: two languages may
share a name.
-/

namespace Highlighting

inductive LanguageId where
  | diff
  | json
  | text
  | custom (number : Nat)
  deriving DecidableEq, Repr

end Highlighting

import Highlighting.Options.Query
import Highlighting.Options.Reading

/-!
Lexers made from queries.
-/

namespace Highlighting

/-- What became of a query for a lexer, and the lexers that were made on the way. If the query fails
they are dropped. -/
structure LexerOutcome where
  result : Except OptionError Lexer
  lifetimes : Lifetimes

namespace Lexer

def configure (catalog : Catalog) (lexer : Lexer) (lifetimes : Lifetimes) :
    List (String × String) → LexerOutcome
  | [] => ⟨.ok lexer, lifetimes⟩
  | (name, text) :: rest =>
    match lexer.setOptionText catalog none name text with
    | .error error => ⟨.error error, lifetimes⟩
    | .ok (_, configured) =>
      let made := ((configured.options.get? name).map OptionValue.madeLexers).getD []
      configure catalog configured (made.foldl Lifetimes.create lifetimes) rest

end Lexer

namespace LexerRegistry

def createFromQuery (catalog : Catalog) (registry : LexerRegistry) (text : String) : LexerOutcome :=
  let query := Query.parse text
  match registry.byName? catalog query.name with
  | none => ⟨.error (.unknownLexer query.name), {}⟩
  | some id =>
    (Lexer.create catalog id).configure catalog (Lifetimes.create {} id) query.pairs

end LexerRegistry

end Highlighting

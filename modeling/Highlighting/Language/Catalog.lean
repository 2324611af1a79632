import Highlighting.Grammar.Diff
import Highlighting.Grammar.Json
import Highlighting.Grammar.PlainText

/-!
All languages there are: those of the library and those that were added.
-/

namespace Highlighting

/-- The languages behind the identities. Those of the library are fixed but for the scanner of JSON;
every number stands for a further one. -/
structure Catalog where
  custom : Nat → Language
  jsonScanner : Json.Scanner := Json.scanner

def Catalog.language (catalog : Catalog) : LanguageId → Language
  | .diff => Diff.language
  | .json => Json.language catalog.jsonScanner
  | .text => PlainText.language
  | .custom number => catalog.custom number

def Catalog.name (catalog : Catalog) (id : LanguageId) : String :=
  (catalog.language id).name

end Highlighting

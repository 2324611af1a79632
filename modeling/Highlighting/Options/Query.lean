import Highlighting.Text.Ascii

/-!
Queries such as `name?key=value&flag`: a name and, behind a question mark, pairs divided by `;` or
`&`. A pair without an equals sign has an empty value, and empty pairs are passed over.
-/

namespace Highlighting

structure Query where
  name : String
  pairs : List (String × String)
  deriving DecidableEq, Repr

namespace Query

def isSeparator (c : Char) : Bool :=
  c == ';' || c == '&'

def pair (cs : List Char) : String × String :=
  let (key, value?) := Text.splitFirst (· == '=') cs
  (String.ofList key, String.ofList (value?.getD []))

def parse (text : String) : Query :=
  let (name, rest?) := Text.splitFirst (· == '?') text.toList
  let pieces := Text.splitAll isSeparator (rest?.getD [])
  ⟨String.ofList name, (pieces.filter (fun piece => !piece.isEmpty)).map pair⟩

end Query

end Highlighting

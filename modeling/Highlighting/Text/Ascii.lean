/-!
Comparison of texts up to ASCII case, and the splitting of texts at chosen characters. Letters
outside ASCII have no other case here.
-/

namespace Highlighting.Text

def lower (text : String) : String :=
  String.ofList (text.toList.map Char.toLower)

def sameIgnoringCase (a b : String) : Bool :=
  a.toList.map Char.toLower == b.toList.map Char.toLower

def splitFirst (p : Char → Bool) (cs : List Char) : List Char × Option (List Char) :=
  (cs.takeWhile (fun c => !p c), (cs.dropWhile (fun c => !p c)).tail?)

def splitAll (p : Char → Bool) (cs : List Char) : List (List Char) :=
  cs.foldr
    (fun c pieces =>
      if p c then [] :: pieces
      else
        match pieces with
        | [] => [[c]]
        | piece :: rest => (c :: piece) :: rest)
    [[]]

def isBlank (c : Char) : Bool :=
  c == ' ' || c == '\t' || c == '\n' || c == '\x0c' || c == '\r'

def words (cs : List Char) : List (List Char) :=
  (splitAll isBlank cs).filter (fun piece => !piece.isEmpty)

end Highlighting.Text

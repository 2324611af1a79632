import Highlighting.Config.Value
import Highlighting.Text.Integer

/-!
Paths into configuration values: an identifier, then any number of `.identifier` and `[integer]`. A
negative integer counts from the end of a list.
-/

namespace Highlighting

inductive PathStep where
  | child (key : String)
  | index (place : Int)
  deriving DecidableEq, Repr

structure ConfigPath where
  root : String
  steps : List PathStep
  deriving DecidableEq, Repr

namespace ConfigPath

def isIdentifierChar (c : Char) : Bool :=
  c.isAlphanum || c == '_' || c == '-' || c == ' '

def readIndex? (cs : List Char) : Option Int :=
  let isBlank := fun c => c == ' ' || c == '\t'
  let trimmed := ((cs.dropWhile isBlank).reverse.dropWhile isBlank).reverse
  let value? :=
    match trimmed with
    | '-' :: digits => (Text.digits? digits).map (fun n => -Int.ofNat n)
    | digits => (Text.digits? digits).map Int.ofNat
  value?.filter Text.fitsInt64

/-- Reads steps. Each takes at least two characters, so `fuel` may be the length of the text. -/
def readSteps? : (fuel : Nat) → List Char → Option (List PathStep)
  | _, [] => some []
  | 0, _ :: _ => none
  | fuel + 1, '.' :: rest =>
    match rest.takeWhile isIdentifierChar with
    | [] => none
    | key =>
      (readSteps? fuel (rest.dropWhile isIdentifierChar)).map
        (PathStep.child (String.ofList key) :: ·)
  | fuel + 1, '[' :: rest =>
    match rest.dropWhile (· != ']'), readIndex? (rest.takeWhile (· != ']')) with
    | _ :: after, some place => (readSteps? fuel after).map (PathStep.index place :: ·)
    | _, _ => none
  | _ + 1, _ :: _ => none

def parse? (text : String) : Option ConfigPath :=
  let cs := text.toList
  match cs.takeWhile isIdentifierChar with
  | [] => none
  | key =>
    (readSteps? cs.length (cs.dropWhile isIdentifierChar)).map
      (fun steps => ⟨String.ofList key, steps⟩)

end ConfigPath

namespace ConfigValue

def listPlace (place : Int) (size : Nat) : Nat :=
  if 0 ≤ place then place.toNat else size - place.natAbs

def updateItem (items : List ConfigValue) (place : Nat) (change : ConfigValue → ConfigValue) :
    List ConfigValue :=
  (items ++ List.replicate (place + 1 - items.length) ConfigValue.nothing).modify place change

/-- Puts a value where steps lead. What stands in the way becomes a table or a list. -/
def setSteps (value : ConfigValue) : List PathStep → ConfigValue → ConfigValue
  | [], _ => value
  | [.child key], root => (ConfigValue.table root.entries).assign key value
  | .child key :: rest, root =>
    let name := Text.lower key
    .table (setEntry name (value.setSteps rest ((root.get? name).getD .nothing)) root.entries)
  | .index place :: rest, root =>
    .list (updateItem root.items (listPlace place root.items.length) (value.setSteps rest))

def setPath (root : ConfigValue) (path : ConfigPath) (value : ConfigValue) : ConfigValue :=
  value.setSteps (.child path.root :: path.steps) root

end ConfigValue

end Highlighting

import Highlighting.Config.Toml.Node

/-!
TOML documents. A document is a sequence of statements: headers that name a table, and values under
keys of the table named last.
-/

namespace Highlighting.Toml

open Reader

def readKeyPart (fuel : Nat) : Reader String := do
  match ← peek? with
  | some '"' => readString fuel false '"'
  | some '\x27' => readString fuel false '\x27'
  | _ =>
    match ← takeWhile (fun c => c.isAlphanum || c == '_' || c == '-') with
    | [] => fail
    | key => return String.ofList key

def readKeyOf (fuel : Nat) : (count : Nat) → Reader Key
  | 0 => fail
  | count + 1 => do
    skipBlanks
    let part ← readKeyPart fuel
    skipBlanks
    if ← accept ['.'] then
      let key ← readKeyOf fuel count
      return { key with path := part :: key.path }
    else return ⟨[], part⟩

/-- How many parts a key may have, and how deep lists and tables between braces may stand in one
another. -/
def depthLimit : Nat :=
  79

def readKey (fuel : Nat) : Reader Key :=
  readKeyOf fuel depthLimit

mutual

def readValue : (fuel depth : Nat) → Reader Node
  | 0, _ => fail
  | fuel + 1, depth => do
    match ← peek?, depth with
    | some '"', _ => return .scalar (.text (← readString (fuel + 1) true '"'))
    | some '\x27', _ => return .scalar (.text (← readString (fuel + 1) true '\x27'))
    | some '[', 0 => fail
    | some '[', depth + 1 =>
      expect ['[']
      readItems fuel depth []
    | some '\x7b', 0 => fail
    | some '\x7b', depth + 1 =>
      expect ['\x7b']
      skipBlanks
      if ← accept ['\x7d'] then return .table .inline []
      else readPairs fuel depth (.table .inline [])
    | _, _ => return .scalar (← readPlain)

/-- Takes the rest of a list; `before` holds the items so far, the last one first. -/
def readItems : (fuel depth : Nat) → (before : List Node) → Reader Node
  | 0, _, _ => fail
  | fuel + 1, depth, before => do
    skipLines (fuel + 1)
    if ← accept [']'] then return .list before.reverse
    else
      let item ← readValue fuel depth
      skipLines (fuel + 1)
      if ← accept [','] then readItems fuel depth (item :: before)
      else
        expect [']']
        return .list (item :: before).reverse

def readPairs : (fuel depth : Nat) → Node → Reader Node
  | 0, _, _ => fail
  | fuel + 1, depth, table => do
    let key ← readKey (fuel + 1)
    expect ['=']
    skipBlanks
    let value ← readValue fuel depth
    skipBlanks
    match table.insert key value with
    | none => fail
    | some extended =>
      if ← accept [','] then readPairs fuel depth extended
      else
        expect ['\x7d']
        return extended

end

def readHeader (fuel : Nat) (document : Node) : Reader (List String × Node) := do
  let double ← accept ['[', '[']
  unless double do expect ['[']
  let key ← readKey fuel
  expect (if double then [']', ']'] else [']'])
  endLine
  match document.openTable double key with
  | some extended => return (key.parts, extended)
  | none => fail

def readPair (fuel : Nat) (path : List String) (document : Node) : Reader Node := do
  let key ← readKey fuel
  expect ['=']
  skipBlanks
  let value ← readValue fuel depthLimit
  endLine
  match document.descend .byHeader (·.insert key value) path with
  | some extended => return extended
  | none => fail

/-- Takes statements to the end, at most `fuel` of them; `path` names the table that keys belong
to. -/
def readStatements : (fuel : Nat) → (path : List String) → Node → Reader Node
  | 0, _, _ => fail
  | fuel + 1, path, document => do
    skipLines (fuel + 1)
    match ← peek? with
    | none => return document
    | some '[' =>
      let (path, document) ← readHeader (fuel + 1) document
      readStatements fuel path document
    | some _ =>
      let document ← readPair (fuel + 1) path document
      readStatements fuel path document

/-- The entries of a TOML document, if the text is one. A byte order mark in front is passed over. No
reader takes more than two steps for a character, so the fuel suffices. -/
def parse? (text : String) : Option (List (String × ConfigValue)) :=
  let cs :=
    match text.toList with
    | '\ufeff' :: rest => rest
    | cs => cs
  match (readStatements (2 * cs.length + 1) [] Node.empty).run cs with
  | none => none
  | some (document, _) =>
    match document.toValue? with
    | some (.table entries) => some entries
    | _ => none

end Highlighting.Toml

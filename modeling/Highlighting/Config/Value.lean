import Highlighting.Text.Ascii

/-!
Configuration values: trees of tables, lists and plain values. The keys of tables are kept in lower
case. Putting a table where a table stands merges the two key by key; anything else replaces what was
there.
-/

namespace Highlighting

inductive ConfigValue where
  | nothing
  | bool (value : Bool)
  | int (value : Int)
  | float (value : Float)
  | text (value : String)
  | list (items : List ConfigValue)
  | table (entries : List (String × ConfigValue))

namespace ConfigValue

def setEntry (key : String) (value : ConfigValue) :
    List (String × ConfigValue) → List (String × ConfigValue)
  | [] => [(key, value)]
  | (name, old) :: rest =>
    if name == key then (key, value) :: rest else (name, old) :: setEntry key value rest

def entries : ConfigValue → List (String × ConfigValue)
  | .table entries => entries
  | _ => []

def items : ConfigValue → List ConfigValue
  | .list items => items
  | _ => []

def get? (value : ConfigValue) (key : String) : Option ConfigValue :=
  value.entries.lookup key

mutual

def assign (root : ConfigValue) (key : String) : ConfigValue → ConfigValue
  | .table incoming =>
    let name := Text.lower key
    let target := (root.get? name).getD (.table [])
    .table (setEntry name (assignAll target incoming) root.entries)
  | value => .table (setEntry (Text.lower key) value root.entries)

def assignAll (root : ConfigValue) : List (String × ConfigValue) → ConfigValue
  | [] => root
  | (key, value) :: rest => assignAll (assign root key value) rest

end

end ConfigValue

end Highlighting

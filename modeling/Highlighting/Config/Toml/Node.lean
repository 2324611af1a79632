import Highlighting.Config.Toml.Scalar

/-!
The tree of a TOML document that is being built. Nothing may be defined twice: how a table came to be
decides which headers and which keys may still add to it.
-/

namespace Highlighting.Toml

inductive Origin where
  | header
  | implied
  | dotted
  | inline
  deriving DecidableEq, Repr

inductive Node where
  | scalar (value : Scalar)
  | list (items : List Node)
  | table (origin : Origin) (entries : List (String × Node))
  /-- Tables that headers in double brackets named, the last one first. -/
  | tables (items : List Node)

structure Key where
  path : List String
  name : String
  deriving DecidableEq, Repr

def Key.parts (key : Key) : List String :=
  key.path ++ [key.name]

inductive Descent where
  | byHeader
  | byKey
  deriving DecidableEq, Repr

namespace Descent

def origin : Descent → Origin
  | .byHeader => .implied
  | .byKey => .dotted

/-- Whether a table may be entered. Tables between braces are closed, and a dotted key leads through
no table that a header named. -/
def enters : Descent → Origin → Bool
  | .byHeader, origin => origin != .inline
  | .byKey, origin => origin == .implied || origin == .dotted

end Descent

def updateEntry (name : String) (change : Option Node → Option Node) :
    List (String × Node) → Option (List (String × Node))
  | [] => (change none).map (fun node => [(name, node)])
  | (key, node) :: rest =>
    if key == name then (change (some node)).map (fun node => (key, node) :: rest)
    else (updateEntry name change rest).map ((key, node) :: ·)

namespace Node

def empty : Node :=
  .table .header []

/-- Goes down from a table, and changes the table at the end of a path. Of several tables under one
name the last is meant. -/
def descend (way : Descent) (change : Node → Option Node) : (path : List String) → Node → Option Node
  | [], node => change node
  | name :: rest, .table own entries =>
    (updateEntry name
      (fun found =>
        match found with
        | none => descend way change rest (.table way.origin [])
        | some (.table inner inside) =>
          if way.enters inner then descend way change rest (.table inner inside) else none
        | some (.tables (last :: before)) =>
          (descend way change rest last).map (fun node => .tables (node :: before))
        | some _ => none)
      entries).map (.table own)
  | _ :: _, _ => none

def insertNew (node : Node) (name : String) (value : Node) : Option Node :=
  match node with
  | .table own entries =>
    if (entries.lookup name).isSome then none else some (.table own (entries ++ [(name, value)]))
  | _ => none

def isDotted : Node → Bool
  | .table .dotted _ => true
  | _ => false

/-- Puts a value under a key that starts at a table. A dotted key adds to tables of dotted keys
only. -/
def insert (node : Node) (key : Key) (value : Node) : Option Node :=
  node.descend .byKey
    (fun inner =>
      if key.path.isEmpty || inner.isDotted then inner.insertNew key.name value else none)
    key.path

/-- A header in single brackets, seen from the table around it. What is named must be new, or known
from headers inside it only; then it goes to the end. -/
def defineTable (name : String) : Node → Option Node
  | .table own entries =>
    match entries.lookup name with
    | none => some (.table own (entries ++ [(name, .table .header [])]))
    | some (.table .implied inside) =>
      some (.table own (entries.filter (fun entry => entry.1 != name)
        ++ [(name, .table .header inside)]))
    | some _ => none
  | _ => none

def appendTable (name : String) : Node → Option Node
  | .table own entries =>
    (updateEntry name
      (fun found =>
        match found with
        | none => some (.tables [.table .header []])
        | some (.tables items) => some (.tables (.table .header [] :: items))
        | some _ => none)
      entries).map (.table own)
  | _ => none

def openTable (double : Bool) (key : Key) (document : Node) : Option Node :=
  document.descend .byHeader (if double then appendTable key.name else defineTable key.name) key.path

/-- The reserved name of a date: a table that starts with it stands for the date in that entry. -/
def dateName : String :=
  "$__toml_private_datetime"

def quotedDate? : Node → Option ConfigValue
  | .scalar (.text text) =>
    if isDateTime text.toList then some (.text text) else none
  | _ => none

mutual

def toValue? : Node → Option ConfigValue
  | .scalar value => some value.toValue
  | .list items => (itemValues? [] items).map (fun values => .list values.reverse)
  | .table _ entries => tableValue? entries
  | .tables items => (itemValues? [] items).map .list

def itemValues? (before : List ConfigValue) : List Node → Option (List ConfigValue)
  | [] => some before
  | node :: rest => do
    let value ← node.toValue?
    itemValues? (value :: before) rest

def tableValue? : List (String × Node) → Option ConfigValue
  | [] => some (.table [])
  | (name, node) :: rest =>
    if name == dateName then node.quotedDate?
    else do
      let value ← node.toValue?
      return .table ((name, value) :: (← entryValues? rest))

def entryValues? : List (String × Node) → Option (List (String × ConfigValue))
  | [] => some []
  | (name, node) :: rest => do
    let value ← node.toValue?
    return (name, value) :: (← entryValues? rest)

end

end Node

end Highlighting.Toml

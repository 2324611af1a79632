import Highlighting.Config.Path
import Highlighting.Config.Toml.Document
import Highlighting.Engine.Config
import Highlighting.Text.Utf8

/-!
The settings of a run from layers: the defaults, then files in order, then single values, which win
over all files.
-/

namespace Highlighting

inductive ConfigError where
  | type
  | message
  | path
  | file
  | syntaxError
  deriving DecidableEq, Repr

inductive ConfigLayer where
  | file (content? : Option Bytes) (required : Bool)
  | override (path : String) (value : ConfigValue)

namespace ConfigValue

def defaults : ConfigValue :=
  let config : EngineConfig := {}
  .table
    [("engine", .table
      [("strip_bom", .bool config.stripByteOrderMark),
       ("shebang", .text config.shebang.word),
       ("buffer_capacity", .int config.bufferCapacity),
       ("parser_bridge", .bool config.parserBridge)])]

def readBool : ConfigValue → Except ConfigError Bool
  | .bool value => .ok value
  | .int value => .ok (value != 0)
  | .float value => .ok (value != 0.0)
  | .text value =>
    let word := Text.lower value
    if ["1", "true", "on", "yes"].contains word then .ok true
    else if ["0", "false", "off", "no"].contains word then .ok false
    else .error .type
  | _ => .error .type

/-- Reads a size of 64 bits. A fraction is rounded, a half away from zero, into the range. -/
def readSize : ConfigValue → Except ConfigError Nat
  | .bool value => .ok (if value then 1 else 0)
  | .int value => if 0 ≤ value && value.toNat < UInt64.size then .ok value.toNat else .error .type
  | .float value => .ok value.round.toUInt64.toNat
  | .text value =>
    let word := Text.lower value
    if ["true", "on", "yes"].contains word then .ok 1
    else if ["false", "off", "no"].contains word then .ok 0
    else
      match Text.nat64? value with
      | some n => .ok n
      | none => .error .type
  | _ => .error .type

def readShebangWord (word : String) : Except ConfigError ShebangMode :=
  if Text.sameIgnoringCase word ShebangMode.passThrough.word then .ok .passThrough
  else if Text.sameIgnoringCase word ShebangMode.lex.word then .ok .lex
  else .error .message

def readShebang : ConfigValue → Except ConfigError ShebangMode
  | .text word => readShebangWord word
  | .table [(word, _)] => readShebangWord word
  | _ => .error .message

def readEntry? {α : Type} (entries : List (String × ConfigValue)) (key : String)
    (read : ConfigValue → Except ConfigError α) : Except ConfigError (Option α) :=
  match entries.lookup key with
  | none => .ok none
  | some value => (read value).map some

/-- Reads settings by their keys. Values that are there are looked at before any is missed. -/
def readByKey (entries : List (String × ConfigValue)) : Except ConfigError EngineConfig := do
  let strip? ← readEntry? entries "strip_bom" readBool
  let shebang? ← readEntry? entries "shebang" readShebang
  let capacity? ← readEntry? entries "buffer_capacity" readSize
  let bridge? ← readEntry? entries "parser_bridge" readBool
  match strip?, shebang?, capacity?, bridge? with
  | some strip, some shebang, some capacity, some bridge => return ⟨strip, shebang, capacity, bridge⟩
  | _, _, _, _ => throw .message

def readItem {α : Type} (items : List ConfigValue) (place : Nat)
    (read : ConfigValue → Except ConfigError α) : Except ConfigError α :=
  match items[place]? with
  | none => .error .message
  | some value => read value

def readByOrder (items : List ConfigValue) : Except ConfigError EngineConfig := do
  let strip ← readItem items 0 readBool
  let shebang ← readItem items 1 readShebang
  let capacity ← readItem items 2 readSize
  let bridge ← readItem items 3 readBool
  return ⟨strip, shebang, capacity, bridge⟩

def readEngine (root : ConfigValue) : Except ConfigError EngineConfig :=
  match root.get? "engine" with
  | some (.table entries) => readByKey entries
  | some (.list items) => readByOrder items
  | _ => .error .message

/-- Puts the entry of a file in place. Its key is a path if it can be read as one. -/
def mergeEntry (root : ConfigValue) (entry : String × ConfigValue) : ConfigValue :=
  match ConfigPath.parse? entry.1 with
  | some path => root.setPath path entry.2
  | none => root.assign entry.1 entry.2

def mergeFile (root : ConfigValue) (content? : Option Bytes) (required : Bool) :
    Except ConfigError ConfigValue :=
  match content?.bind Utf8.decode? with
  | none => if required then .error .file else .ok root
  | some content =>
    match Toml.parse? content with
    | none => .error .syntaxError
    | some entries => .ok (entries.foldl mergeEntry root)

end ConfigValue

namespace ConfigLayer

def override? : ConfigLayer → Except ConfigError (Option (ConfigPath × ConfigValue))
  | .file _ _ => .ok none
  | .override path value =>
    match ConfigPath.parse? path with
    | some path => .ok (some (path, value))
    | none => .error .path

def mergeFile (root : ConfigValue) : ConfigLayer → Except ConfigError ConfigValue
  | .file content? required => root.mergeFile content? required
  | .override _ _ => .ok root

end ConfigLayer

/-- The settings that layers lead to. Paths are looked at before any file is. -/
def EngineConfig.load (layers : List ConfigLayer) : Except ConfigError EngineConfig := do
  let overrides ← layers.mapM ConfigLayer.override?
  let merged ← layers.foldlM ConfigLayer.mergeFile ConfigValue.defaults
  let root := (overrides.filterMap id).foldl (fun root (path, value) => root.setPath path value) merged
  root.readEngine

end Highlighting

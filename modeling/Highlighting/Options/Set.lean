import Highlighting.Options.Error
import Highlighting.Options.Value

/-!
The options of one lexer or formatter: a slot for each declared option, in the order of
declaration. Where two declarations share a name, the first one is meant.
-/

namespace Highlighting

structure OptionSlot (L : Type) where
  declaration : OptionDeclaration
  value : OptionValue L

structure OptionSet (L : Type) where
  slots : List (OptionSlot L)

namespace OptionSet

variable {L : Type}

def ofDeclarations (declarations : List OptionDeclaration) : OptionSet L :=
  ⟨declarations.map (fun declaration => ⟨declaration, .ofDefault declaration.default⟩)⟩

def declarations (options : OptionSet L) : List OptionDeclaration :=
  options.slots.map OptionSlot.declaration

def size (options : OptionSet L) : Nat :=
  options.slots.length

def position? (options : OptionSet L) (name : String) : Option Nat :=
  options.slots.findIdx? (fun slot => slot.declaration.name == name)

def slot? (options : OptionSet L) (name : String) : Option (OptionSlot L) :=
  options.slots.find? (fun slot => slot.declaration.name == name)

def declaration? (options : OptionSet L) (name : String) : Option OptionDeclaration :=
  (options.slot? name).map OptionSlot.declaration

def get? (options : OptionSet L) (name : String) : Option (OptionValue L) :=
  (options.slot? name).map OptionSlot.value

def flag (options : OptionSet L) (name : String) : Bool :=
  ((options.get? name).bind OptionValue.bool?).getD false

def int? (options : OptionSet L) (name : String) : Option Int :=
  (options.get? name).bind OptionValue.int?

def text? (options : OptionSet L) (name : String) : Option String :=
  (options.get? name).bind OptionValue.text?

def theme? (options : OptionSet L) (name : String) : Option Theme :=
  (options.get? name).bind OptionValue.theme?

def subLexer? (options : OptionSet L) (name : String) : Option (SubLexer L) :=
  (options.get? name).bind OptionValue.subLexer?

def store (name : String) (value : OptionValue L) : List (OptionSlot L) → List (OptionSlot L)
  | [] => []
  | slot :: rest =>
    if slot.declaration.name == name then { slot with value := value } :: rest
    else slot :: store name value rest

/-- Sets an option and hands back the value it had. An option that is not declared is refused first,
then a value of another type. -/
def replace (options : OptionSet L) (name : String) (value : OptionValue L) :
    Except OptionError (OptionValue L × OptionSet L) :=
  match options.slot? name with
  | none => .error (.invalidOption name)
  | some slot =>
    if value.kind = slot.declaration.kind then
      .ok (slot.value, ⟨store name value options.slots⟩)
    else .error (.typeMismatch name slot.declaration.kind value.kind)

def ownedTexts (options : OptionSet L) : Nat :=
  options.slots.countP (fun slot => slot.value.isOwnedText)

end OptionSet

end Highlighting

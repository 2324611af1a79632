import Highlighting.Options.Declaration
import Highlighting.Theme.Builtin

/-!
Option values. A text is either the declared default or a copy that belongs to the instance that
holds it. A lexer value either owns a lexer, which then lives and dies with its holder, or refers by
handle to a lexer that somebody else keeps.

The type of lexers is a parameter `L` here, because lexers themselves hold option values.
-/

namespace Highlighting

/-- Names a lexer that its keeper lends out. No two lexers that were ever kept share a handle. -/
structure LexerHandle where
  serial : Nat
  deriving DecidableEq, Repr

inductive TextValue where
  | declared (text : String)
  | owned (text : String)
  deriving DecidableEq, Repr

namespace TextValue

def content : TextValue → String
  | .declared text => text
  | .owned text => text

/-- Whether the text was set, even if to one equal to the default. -/
def isOwned : TextValue → Bool
  | .declared _ => false
  | .owned _ => true

end TextValue

inductive SubLexer (L : Type) where
  | owned (lexer : L)
  | borrowed (handle : LexerHandle)

def SubLexer.isOwned {L : Type} : SubLexer L → Bool
  | .owned _ => true
  | .borrowed _ => false

inductive OptionValue (L : Type) where
  | bool (value : Bool)
  | int (value : Int)
  | text (value : TextValue)
  | lexer (value : Option (SubLexer L))
  | theme (value : Option Theme)

namespace OptionValue

variable {L : Type}

def kind : OptionValue L → OptionKind
  | .bool _ => .bool
  | .int _ => .int
  | .text _ => .text
  | .lexer _ => .lexer
  | .theme _ => .theme

/-- The value that a declared default stands for. A theme name that is not known stands for no
theme. -/
def ofDefault : OptionDefault → OptionValue L
  | .bool value => .bool value
  | .int value => .int value
  | .text value => .text (.declared value)
  | .lexer => .lexer none
  | .theme name? => .theme (name?.bind Theme.builtin?)

@[simp]
theorem kind_ofDefault (default : OptionDefault) :
    (ofDefault default : OptionValue L).kind = default.kind := by
  cases default <;> rfl

def bool? : OptionValue L → Option Bool
  | .bool value => some value
  | _ => none

def int? : OptionValue L → Option Int
  | .int value => some value
  | _ => none

def text? : OptionValue L → Option String
  | .text value => some value.content
  | _ => none

def theme? : OptionValue L → Option Theme
  | .theme value => value
  | _ => none

def subLexer? : OptionValue L → Option (SubLexer L)
  | .lexer value => value
  | _ => none

def isOwnedText : OptionValue L → Bool
  | .text value => value.isOwned
  | _ => false

end OptionValue

end Highlighting

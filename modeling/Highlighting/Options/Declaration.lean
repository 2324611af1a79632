import Highlighting.Text.Quoted

/-!
Declared options. A language or a format declares its options; the default also fixes the type of
the values that an option takes.
-/

namespace Highlighting

inductive OptionKind where
  | bool
  | int
  | text
  | lexer
  | theme
  deriving DecidableEq, Repr

def OptionKind.word : OptionKind → String
  | .bool => "bool"
  | .int => "int"
  | .text => "string"
  | .lexer => "lexer"
  | .theme => "theme"

/-- The value an option has until it is set. An option that takes a lexer has none at first, and a
theme is given by its name, which need not be that of any theme. -/
inductive OptionDefault where
  | bool (value : Bool)
  | int (value : Int)
  | text (value : String)
  | lexer
  | theme (name? : Option String)
  deriving DecidableEq, Repr

def OptionDefault.kind : OptionDefault → OptionKind
  | .bool _ => .bool
  | .int _ => .int
  | .text _ => .text
  | .lexer => .lexer
  | .theme _ => .theme

def OptionDefault.inspect : OptionDefault → String
  | .bool value => "Bool(" ++ (if value then "true" else "false") ++ ")"
  | .int value => "Int(" ++ toString value ++ ")"
  | .text value => "Str(" ++ Text.quote value ++ ")"
  | .lexer => "Lexer"
  | .theme (some name) => "Theme(Some(" ++ Text.quote name ++ "))"
  | .theme none => "Theme(None)"

structure OptionDeclaration where
  name : String
  default : OptionDefault
  doc : String := ""
  deriving DecidableEq, Repr

namespace OptionDeclaration

def kind (declaration : OptionDeclaration) : OptionKind :=
  declaration.default.kind

def inspect (declaration : OptionDeclaration) : String :=
  "OptionDeclaration \x7b name: " ++ Text.quote declaration.name ++ ", default: "
    ++ declaration.default.inspect ++ ", doc: " ++ Text.quote declaration.doc ++ " \x7d"

end OptionDeclaration

end Highlighting

import Highlighting.Lexer.Instance
import Highlighting.Registry.Lexers
import Highlighting.Text.Integer

/-!
Option values written as text. The declared type says how a text is read; names of themes and lexers
are those of the library.
-/

namespace Highlighting

/-- Reads a truth value: nothing, `on` or `true`, `off` or `false`, up to ASCII case, or an integer,
which is true unless it is zero. -/
def readBool? (text : String) : Option Bool :=
  if text == "" || Text.sameIgnoringCase text "on" || Text.sameIgnoringCase text "true" then
    some true
  else if Text.sameIgnoringCase text "off" || Text.sameIgnoringCase text "false" then some false
  else (Text.int64? text).map (fun n => n != 0)

inductive LexerValues where
  | allowed
  | forbidden
  deriving DecidableEq, Repr

def OptionDeclaration.read (catalog : Catalog) (declaration : OptionDeclaration) (text : String)
    (lexers : LexerValues) : Except OptionError (OptionValue Lexer) :=
  let invalid : OptionError := .invalidValue declaration.name text
  match declaration.kind with
  | .bool =>
    match readBool? text with
    | some value => .ok (.bool value)
    | none => .error invalid
  | .int =>
    match Text.int64? text with
    | some value => .ok (.int value)
    | none => .error invalid
  | .text => .ok (.text (.owned text))
  | .theme =>
    match Theme.builtin? text with
    | some theme => .ok (.theme (some theme))
    | none => .error (.unknownTheme text)
  | .lexer =>
    match lexers with
    | .forbidden => .error invalid
    | .allowed =>
      match LexerRegistry.builtin.byName? catalog text with
      | some id => .ok (.lexer (some (.owned (Lexer.create catalog id))))
      | none => .error (.unknownLexer text)

def OptionValue.madeLexers : OptionValue Lexer → List LanguageId
  | .lexer (some (.owned made)) => [made.language]
  | _ => []

def Lexer.setOptionText (catalog : Catalog) (self? : Option LexerHandle) (lexer : Lexer)
    (name text : String) : Except OptionError (OptionValue Lexer × Lexer) :=
  match lexer.options.declaration? name with
  | none => .error (.invalidOption name)
  | some declaration =>
    match declaration.read catalog text .allowed with
    | .error error => .error error
    | .ok value => lexer.setOption self? name value

end Highlighting

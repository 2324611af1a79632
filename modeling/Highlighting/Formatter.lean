import Highlighting.Format.BBCode
import Highlighting.Format.Html
import Highlighting.Format.Plain
import Highlighting.Format.Terminal
import Highlighting.Format.Trace
import Highlighting.Options.Query
import Highlighting.Options.Reading

/-!
Formatters. A formatter is a format with values for its options. It never holds a lexer. Formats are
looked up by name in a list; the first one with the name, up to ASCII case, is meant.
-/

namespace Highlighting

namespace OptionValue

def inspectLexer (catalog : Catalog) (host : Host) : OptionValue Lexer → String
  | .lexer (some sub) => "Lexer(Some(" ++ sub.inspect catalog host ++ "))"
  | _ => "Lexer(None)"

end OptionValue

structure Formatter where
  format : Format
  options : OptionSet Lexer

namespace Formatter

def create (format : Format) : Formatter :=
  ⟨format, .ofDeclarations format.options⟩

def document (formatter : Formatter) (calls : Array Call) : Bytes :=
  formatter.format.document formatter.options calls

/-- Sets an option and hands back the value it had. A lexer is refused, whatever the option. -/
def setOption (catalog : Catalog) (host : Host) (formatter : Formatter) (name : String)
    (value : OptionValue Lexer) : Except OptionError (OptionValue Lexer × Formatter) :=
  if value.kind = .lexer then .error (.invalidValue name (value.inspectLexer catalog host))
  else
    match formatter.options.replace name value with
    | .error error => .error error
    | .ok (previous, options) => .ok (previous, { formatter with options := options })

def setOptionText (catalog : Catalog) (formatter : Formatter) (name text : String) :
    Except OptionError (OptionValue Lexer × Formatter) :=
  match formatter.options.declaration? name with
  | none => .error (.invalidOption name)
  | some declaration =>
    match declaration.read catalog text .forbidden with
    | .error error => .error error
    | .ok value =>
      match formatter.options.replace name value with
      | .error error => .error error
      | .ok (previous, options) => .ok (previous, { formatter with options := options })

def configure (catalog : Catalog) (formatter : Formatter) :
    List (String × String) → Except OptionError Formatter
  | [] => .ok formatter
  | (name, text) :: rest =>
    match formatter.setOptionText catalog name text with
    | .error error => .error error
    | .ok (_, configured) => configure catalog configured rest

end Formatter

structure FormatRegistry where
  formats : List Format

namespace FormatRegistry

def builtin : FormatRegistry :=
  ⟨[Plain.format, Html.format, Terminal.format, BBCode.format]⟩

def position? (registry : FormatRegistry) (name : String) : Option Nat :=
  registry.formats.findIdx? (fun format => Text.sameIgnoringCase format.name name)

def byName? (registry : FormatRegistry) (name : String) : Option Format :=
  registry.formats.find? (fun format => Text.sameIgnoringCase format.name name)

def createFromQuery (catalog : Catalog) (registry : FormatRegistry) (text : String) :
    Except OptionError Formatter :=
  let query := Query.parse text
  match registry.byName? query.name with
  | none => .error (.invalidValue "formatter" query.name)
  | some format => (Formatter.create format).configure catalog query.pairs

end FormatRegistry

end Highlighting

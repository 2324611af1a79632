import Highlighting.Format.Call
import Highlighting.Lexer

/-!
Formats. A format renders calls one by one; what it writes for a call depends on the call and on the
options alone, so a document is rendered by putting the pieces together.
-/

namespace Highlighting

structure Format where
  name : String
  description : String := ""
  options : List OptionDeclaration := []
  render : OptionSet Lexer → Call → Bytes

namespace Format

def document (format : Format) (options : OptionSet Lexer) (calls : Array Call) : Bytes :=
  calls.foldl (fun out call => out ++ format.render options call) #[]

def inspect (format : Format) : String :=
  "FormatterImplementation \x7b name: " ++ Text.quote format.name
    ++ ", options: [" ++ ", ".intercalate (format.options.map OptionDeclaration.inspect)
    ++ "], .. \x7d"

end Format

end Highlighting

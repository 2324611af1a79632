import Highlighting.Options.Declaration

/-!
What can go wrong when an option is set or a lexer or formatter is asked for by name.
-/

namespace Highlighting

inductive OptionError where
  | typeMismatch (option : String) (expected found : OptionKind)
  | unknownLexer (name : String)
  | unknownTheme (name : String)
  | invalidValue (option value : String)
  | invalidOption (name : String)
  deriving DecidableEq, Repr

def OptionError.message : OptionError → String
  | .typeMismatch option expected found =>
    "Option '" ++ option ++ "' expects a " ++ expected.word ++ " value, got " ++ found.word
  | .unknownLexer name => "Unknown lexer '" ++ name ++ "'"
  | .unknownTheme name => "Unknown theme '" ++ name ++ "'"
  | .invalidValue option value => "Invalid value '" ++ value ++ "' for option '" ++ option ++ "'"
  | .invalidOption name => "Invalid option '" ++ name ++ "'"

end Highlighting

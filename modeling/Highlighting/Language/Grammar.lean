import Highlighting.Language.PushParser
import Highlighting.Lexer
import Highlighting.Scan.Context
import Highlighting.Scan.Event

/-!
Languages. A language is a description with a grammar: the scanner, the way a new instance starts,
the score that guesses how likely a text is written in the language, and a push parser if there is
one.
-/

namespace Highlighting

structure Grammar where
  scan : Settings → (w : Window) → ScanContext w → ScanEvent × ScanContext w
  /-- How likely a text is written in the language; zero or less means not at all. -/
  analyse : Bytes → Int := fun _ => 0
  initial : ScanState := {}
  parser? : Settings → Option PushParser := fun _ => none

structure Language where
  name : String
  description : String := ""
  aliases : List String := []
  /-- Globs for file names. -/
  patterns : List String := []
  mimetypes : List String := []
  /-- Globs for the program that a shebang line names. -/
  interpreters : List String := []
  options : List OptionDeclaration := []
  grammar : Grammar

namespace Language

def answersTo (language : Language) (name : String) : Bool :=
  Text.sameIgnoringCase language.name name
    || language.aliases.any (fun other => Text.sameIgnoringCase other name)

def inspect (language : Language) : String :=
  "LexerImplementation \x7b name: " ++ Text.quote language.name
    ++ ", aliases: " ++ Text.quoteList language.aliases
    ++ ", patterns: " ++ Text.quoteList language.patterns
    ++ ", mimetypes: " ++ Text.quoteList language.mimetypes
    ++ ", interpreters: " ++ Text.quoteList language.interpreters ++ ", .. \x7d"

end Language

end Highlighting

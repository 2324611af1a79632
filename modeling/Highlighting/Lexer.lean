import Highlighting.Language.Id
import Highlighting.Options.Set
import Highlighting.Scan.State

/-!
Lexers. A lexer is an instance of a language: it has values for the options of the language and a
scan state. Through its options it can own further lexers, so lexers form trees.
-/

namespace Highlighting

structure Lexer where
  language : LanguageId
  options : OptionSet Lexer
  state : ScanState

/-- Who lends lexers out: for each handle the language of the lexer behind it, if that lexer can be
reached at present. -/
abbrev Host : Type :=
  LexerHandle → Option LanguageId

namespace SubLexer

def language? (host : Host) : SubLexer Lexer → Option LanguageId
  | .owned lexer => some lexer.language
  | .borrowed handle => host handle

end SubLexer

structure Settings where
  options : OptionSet Lexer
  host : Host

namespace Settings

def flag (settings : Settings) (name : String) : Bool :=
  settings.options.flag name

def language? (settings : Settings) (name : String) : Option LanguageId :=
  (settings.options.subLexer? name).bind (SubLexer.language? settings.host)

end Settings

end Highlighting

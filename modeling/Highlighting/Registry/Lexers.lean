import Highlighting.Language.Catalog
import Highlighting.Registry.GlobLimit
import Highlighting.Text.Utf8

/-!
Registries of languages. A registry is an ordered list of languages in which one can look for a
language by name, file name, media type or interpreter, or guess it from a text. Where several answer,
the one listed first wins.
-/

namespace Highlighting

def baseName (path : List Char) : List Char :=
  (path.reverse.takeWhile (fun c => c != '/' && c != '\\')).reverse

/-- The programs that a shebang line may mean, in the order to try them. The program `env` is
followed through to what it launches, over its flags and assignments. -/
def interpreterCandidates (line : List Char) : List (List Char) :=
  match Text.words line with
  | [] => []
  | program :: arguments =>
    if baseName program = "env".toList then
      arguments.filter (fun word => word.head? != some '-' && !word.contains '=')
    else [program]

structure LexerRegistry where
  languages : List LanguageId
  deriving DecidableEq, Repr

namespace LexerRegistry

def builtin : LexerRegistry :=
  ⟨[.diff, .json, .text]⟩

variable (catalog : Catalog) (registry : LexerRegistry)

def find? (p : Language → Bool) : Option LanguageId :=
  registry.languages.find? (fun id => p (catalog.language id))

def byName? (name : String) : Option LanguageId :=
  registry.find? catalog (fun language => language.answersTo name)

def forFileName? (path : String) : Option LanguageId :=
  let name := baseName path.toList
  registry.find? catalog (fun language => language.patterns.any (globMatches · name))

def forMimetype? (mimetype : String) : Option LanguageId :=
  registry.find? catalog (fun language => language.mimetypes.contains mimetype)

def forInterpreter? (path : List Char) : Option LanguageId :=
  let name := baseName path
  registry.find? catalog (fun language => language.interpreters.any (globMatches · name))

def scores (input : Bytes) : List Int :=
  registry.languages.map (fun id => (catalog.language id).grammar.analyse input)

/-- The better of the best language so far and another: only a score above zero counts, and an equal
score does not displace. -/
def better (input : Bytes) (best? : Option (LanguageId × Int)) (id : LanguageId) :
    Option (LanguageId × Int) :=
  let score := (catalog.language id).grammar.analyse input
  if (best?.map Prod.snd).getD 0 < score then some (id, score) else best?

def bestScoring? (input : Bytes) : Option LanguageId :=
  (registry.languages.foldl (better catalog input) none).map Prod.fst

def shebangEnd (input : Bytes) : Nat :=
  input.shebangLineEnd?.getD input.size

def forShebang? (input : Bytes) : Option LanguageId :=
  let line := Utf8.decode (input.extract Bytes.shebang.length (shebangEnd input))
  (interpreterCandidates line.toList).findSome? (registry.forInterpreter? catalog)

/-- Guesses the language of a text. A shebang that names a known interpreter decides; otherwise the
scores do, with the shebang line left out. -/
def guess? (source : Bytes) : Option LanguageId :=
  let input := source.stripByteOrderMark
  if input.opensWithShebang then
    (registry.forShebang? catalog input).or
      (registry.bestScoring? catalog (input.drop (shebangEnd input)))
  else registry.bestScoring? catalog input

end LexerRegistry

end Highlighting

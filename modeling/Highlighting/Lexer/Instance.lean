import Highlighting.Language.Catalog

/-!
Making, configuring and destroying lexers.

A lexer that is made has its state set up by the language; a lexer that is destroyed is finalised,
and with it every lexer it owns. `Lifetimes` records both. A lexer that is merely dropped is not
finalised.
-/

namespace Highlighting

structure Lifetimes where
  created : Array LanguageId := #[]
  finalized : Array LanguageId := #[]
  deriving DecidableEq, Repr

namespace Lifetimes

def append (first second : Lifetimes) : Lifetimes :=
  ⟨first.created ++ second.created, first.finalized ++ second.finalized⟩

def create (lifetimes : Lifetimes) (id : LanguageId) : Lifetimes :=
  { lifetimes with created := lifetimes.created.push id }

def finalize (lifetimes : Lifetimes) (ids : List LanguageId) : Lifetimes :=
  { lifetimes with finalized := lifetimes.finalized ++ ids.toArray }

end Lifetimes

/-- What the destruction of a lexer released, counted over all lexers it owned. -/
structure Released where
  texts : Nat := 0
  subLexers : Nat := 0
  seen : List LanguageId := []
  finalized : List LanguageId := []
  deriving DecidableEq, Repr

def Released.append (first second : Released) : Released where
  texts := first.texts + second.texts
  subLexers := first.subLexers + second.subLexers
  seen := first.seen ++ second.seen
  finalized := first.finalized ++ second.finalized

instance : Append Released where
  append := Released.append

namespace SubLexer

def inspect (catalog : Catalog) (host : Host) (sub : SubLexer Lexer) : String :=
  let name := ((sub.language? host).map catalog.name).getD "?"
  (if sub.isOwned then "Owned(" else "Borrowed(") ++ name ++ ")"

end SubLexer

namespace Lexer

def create (catalog : Catalog) (id : LanguageId) : Lexer where
  language := id
  options := .ofDeclarations (catalog.language id).options
  state := (catalog.language id).grammar.initial

/-- Whether a value is a lexer reference to the lexer that is kept under `self?`. A lexer owned by
the value is another one. -/
def refersTo (self? : Option LexerHandle) (value : OptionValue Lexer) : Bool :=
  match value with
  | .lexer (some (.borrowed handle)) => self? == some handle
  | _ => false

/-- Sets an option and hands back the value it had. The lexer itself is kept under `self?`, if
anywhere, and must not come to refer to itself. -/
def setOption (self? : Option LexerHandle) (lexer : Lexer) (name : String)
    (value : OptionValue Lexer) : Except OptionError (OptionValue Lexer × Lexer) :=
  match lexer.options.replace name value with
  | .error error => .error error
  | .ok (previous, options) =>
    if refersTo self? value then .error (.invalidOption name)
    else .ok (previous, { lexer with options := options })

def subLanguages (host : Host) (lexer : Lexer) : List LanguageId :=
  lexer.options.slots.filterMap (fun slot => slot.value.subLexer?.bind (SubLexer.language? host))

mutual

def destroy (host : Host) : Lexer → Released
  | ⟨language, ⟨slots⟩, _⟩ => { finalized := [language] } ++ releaseSlots host slots

def releaseSlots (host : Host) : List (OptionSlot Lexer) → Released
  | [] => {}
  | ⟨_, value⟩ :: rest => releaseValue host value ++ releaseSlots host rest

/-- Releases one value. A lexer that is referred to is met first; if it is owned it is then
destroyed, and if it is borrowed it stays with its keeper. -/
def releaseValue (host : Host) : OptionValue Lexer → Released
  | .text (.owned _) => { texts := 1 }
  | .lexer (some (.owned lexer)) =>
    { subLexers := 1, seen := [lexer.language] } ++ destroy host lexer
  | .lexer (some (.borrowed handle)) => { seen := (host handle).toList }
  | _ => {}

end

end Lexer

end Highlighting

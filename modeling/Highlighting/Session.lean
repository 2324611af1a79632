import Highlighting.Engine.Highlight
import Highlighting.Registry.Create
import Highlighting.Scan.Action

/-!
Sessions. A session keeps lexers and formatters under names. Each lexer it keeps has a handle of its
own, under which other lexers can refer to it; the handle is good for as long as the lexer is kept.
-/

namespace Highlighting

structure KeptLexer where
  handle : LexerHandle
  lexer : Lexer

inductive LexerSpec where
  | query (text : String)
  | language (id : LanguageId)

def LexerSpec.make (catalog : Catalog) : LexerSpec → LexerOutcome
  | .query text => LexerRegistry.builtin.createFromQuery catalog text
  | .language id => ⟨.ok (Lexer.create catalog id), Lifetimes.create {} id⟩

def LexerSpec.makeAll (catalog : Catalog) :
    List LexerSpec → Except OptionError (List Lexer) × Lifetimes
  | [] => (.ok [], {})
  | spec :: rest =>
    let outcome := spec.make catalog
    match outcome.result with
    | .error error => (.error error, outcome.lifetimes)
    | .ok lexer =>
      let (lexers, lifetimes) := makeAll catalog rest
      (lexers.map (lexer :: ·), outcome.lifetimes.append lifetimes)

inductive FormatterSpec where
  | query (text : String)
  | format (base : Format)
  | configured (base : FormatterSpec) (options : List (String × OptionValue Lexer))

def FormatterSpec.make (catalog : Catalog) (host : Host) :
    FormatterSpec → Except OptionError Formatter
  | .query text => FormatRegistry.builtin.createFromQuery catalog text
  | .format base => .ok (Formatter.create base)
  | .configured base options =>
    match base.make catalog host with
    | .error error => .error error
    | .ok formatter =>
      options.foldlM (fun formatter (name, value) =>
        (formatter.setOption catalog host name value).map Prod.snd) formatter

inductive GivenValue where
  | plain (value : OptionValue Lexer)
  | own (spec : LexerSpec)
  | move (slot : String)
  | borrow (slot : String)

inductive SessionStep where
  | makeLexer (slot : String) (spec : LexerSpec)
  | makeFormatter (slot : String) (spec : FormatterSpec)
  | setOption (slot option : String) (value : GivenValue)
  | setOptionText (slot option text : String)
  | getOption (slot option : String)
  | listOptions (slot : String)
  | subLexers (slot : String)
  | destroy (slot : String)
  | drop (slot : String)
  | state (slot : String) (action? : Option ScanAction)
  | highlight (source : Bytes) (slots : List String) (formatter : Sum String FormatterSpec)
      (config : EngineConfig)

inductive SessionReply where
  | lexer (lexer : Lexer)
  | formatter (formatter : Formatter)
  | previous (value : OptionValue Lexer)
  | value (value? : Option (OptionValue Lexer)) (declared? : Option Bool)
  | options (options : OptionSet Lexer)
  | seen (languages : List LanguageId)
  | releasedTexts (count : Nat)
  | released (released : Released)
  | dropped
  | state (state : ScanState) (popped? : Option Bool)
  | highlighted (calls : Array Call) (formatter : Formatter) (states : List ScanState)
  | refused (error : OptionError)
  | failed (error : HighlightError)
  | panicked
  | unanswered

structure Session where
  lexers : List (String × KeptLexer) := []
  formatters : List (String × Formatter) := []
  nextSerial : Nat := 0
  lifetimes : Lifetimes := {}

namespace Session

variable (catalog : Catalog)

def lexer? (session : Session) (slot : String) : Option KeptLexer :=
  session.lexers.lookup slot

def formatter? (session : Session) (slot : String) : Option Formatter :=
  session.formatters.lookup slot

def eraseLexer (session : Session) (slot : String) : Session :=
  { session with lexers := session.lexers.filter (fun entry => entry.1 != slot) }

def eraseFormatter (session : Session) (slot : String) : Session :=
  { session with formatters := session.formatters.filter (fun entry => entry.1 != slot) }

/-- Keeps a lexer in a slot under a handle that was never in use; what was there is dropped. -/
def keepLexer (session : Session) (slot : String) (lexer : Lexer) : Session :=
  let emptied := session.eraseLexer slot
  { emptied with
    lexers := (slot, ⟨⟨session.nextSerial⟩, lexer⟩) :: emptied.lexers
    nextSerial := session.nextSerial + 1 }

def keepFormatter (session : Session) (slot : String) (formatter : Formatter) : Session :=
  let emptied := session.eraseFormatter slot
  { emptied with formatters := (slot, formatter) :: emptied.formatters }

def updateLexer (session : Session) (slot : String) (lexer : Lexer) : Session :=
  { session with
    lexers := session.lexers.map (fun (name, kept) =>
      if name == slot then (name, { kept with lexer := lexer }) else (name, kept)) }

def record (session : Session) (lifetimes : Lifetimes) : Session :=
  { session with lifetimes := session.lifetimes.append lifetimes }

def hostExcept (session : Session) (busy : List String) : Host := fun handle =>
  (session.lexers.find? (fun (slot, kept) => kept.handle == handle && !busy.contains slot)).map
    (fun entry => entry.2.lexer.language)

def host (session : Session) : Host :=
  session.hostExcept []

def resolve (session : Session) :
    GivenValue → Except SessionReply (OptionValue Lexer) × Session
  | .plain value => (.ok value, session)
  | .own spec =>
    let outcome := spec.make catalog
    let recorded := session.record outcome.lifetimes
    match outcome.result with
    | .ok lexer => (.ok (.lexer (some (.owned lexer))), recorded)
    | .error error => (.error (.refused error), recorded)
  | .move slot =>
    match session.lexer? slot with
    | some kept => (.ok (.lexer (some (.owned kept.lexer))), session.eraseLexer slot)
    | none => (.error .unanswered, session)
  | .borrow slot =>
    match session.lexer? slot with
    | some kept => (.ok (.lexer (some (.borrowed kept.handle))), session)
    | none => (.error .unanswered, session)

def assign (session : Session) (slot : String)
    (onFormatter : Formatter → Except OptionError (OptionValue Lexer × Formatter))
    (onLexer : KeptLexer → Except OptionError (OptionValue Lexer × Lexer)) :
    SessionReply × Session :=
  match session.formatter? slot with
  | some formatter =>
    match onFormatter formatter with
    | .ok (previous, changed) => (.previous previous, session.keepFormatter slot changed)
    | .error error => (.refused error, session)
  | none =>
    match session.lexer? slot with
    | some kept =>
      match onLexer kept with
      | .ok (previous, changed) => (.previous previous, session.updateLexer slot changed)
      | .error error => (.refused error, session)
    | none => (.unanswered, session)

/-- Sets an option to a given value. What the value took from the session stays taken, also if the
option is not set. -/
def setOption (session : Session) (slot option : String) (given : GivenValue) :
    SessionReply × Session :=
  match session.resolve catalog given with
  | (.error reply, after) => (reply, after)
  | (.ok value, after) =>
    after.assign slot
      (fun formatter => formatter.setOption catalog after.host option value)
      (fun kept => kept.lexer.setOption (some kept.handle) option value)

def madeBy (session : Session) (slot option : String) : SessionReply → Lifetimes
  | .previous _ =>
    match session.formatter? slot, session.lexer? slot with
    | none, some kept =>
      (((kept.lexer.options.get? option).map OptionValue.madeLexers).getD []).foldl
        Lifetimes.create {}
    | _, _ => {}
  | _ => {}

def setOptionText (session : Session) (slot option text : String) : SessionReply × Session :=
  let (reply, after) := session.assign slot
    (fun formatter => formatter.setOptionText catalog option text)
    (fun kept => kept.lexer.setOptionText catalog (some kept.handle) option text)
  (reply, after.record (after.madeBy slot option reply))

def makeLexer (session : Session) (slot : String) (spec : LexerSpec) : SessionReply × Session :=
  let outcome := spec.make catalog
  let recorded := session.record outcome.lifetimes
  match outcome.result with
  | .ok lexer => (.lexer lexer, recorded.keepLexer slot lexer)
  | .error error => (.refused error, recorded)

def makeFormatter (session : Session) (slot : String) (spec : FormatterSpec) :
    SessionReply × Session :=
  match spec.make catalog session.host with
  | .ok formatter => (.formatter formatter, session.keepFormatter slot formatter)
  | .error error => (.refused error, session)

def getOption (session : Session) (slot option : String) : SessionReply :=
  match session.formatter? slot, session.lexer? slot with
  | some formatter, _ => .value (formatter.options.get? option) none
  | none, some kept =>
    let declarations := (catalog.language kept.lexer.language).options
    .value (kept.lexer.options.get? option)
      (some (declarations.any (fun declaration => declaration.name == option)))
  | none, none => .unanswered

def listOptions (session : Session) (slot : String) : SessionReply :=
  match session.formatter? slot, session.lexer? slot with
  | some formatter, _ => .options formatter.options
  | none, some kept => .options kept.lexer.options
  | none, none => .unanswered

def subLexers (session : Session) (slot : String) : SessionReply :=
  match session.lexer? slot with
  | some kept => .seen (kept.lexer.subLanguages session.host)
  | none => .unanswered

/-- Destroys what is in a slot. The lexer is no longer kept while it is destroyed. -/
def destroy (session : Session) (slot : String) : SessionReply × Session :=
  match session.formatter? slot, session.lexer? slot with
  | some formatter, _ =>
    (.releasedTexts formatter.options.ownedTexts, session.eraseFormatter slot)
  | none, some kept =>
    let emptied := session.eraseLexer slot
    let released := kept.lexer.destroy emptied.host
    (.released released, emptied.record (Lifetimes.finalize {} released.finalized))
  | none, none => (.unanswered, session)

def drop (session : Session) (slot : String) : SessionReply × Session :=
  match session.formatter? slot with
  | some _ => (.dropped, session.eraseFormatter slot)
  | none => (.dropped, session.eraseLexer slot)

def changeState (session : Session) (slot : String) (action? : Option ScanAction) :
    SessionReply × Session :=
  match session.lexer? slot with
  | none => (.unanswered, session)
  | some kept =>
    let before := kept.lexer.state
    let after := (action?.map (fun action => action.performOnState before)).getD before
    let popped? :=
      match action? with
      | some .pop => some before.pop?.isSome
      | _ => none
    (.state after popped?, session.updateLexer slot { kept.lexer with state := after })

def restore (session : Session) (slots : List String) (lexers : List Lexer) : Session :=
  (slots.zip lexers).foldl (fun session (slot, lexer) => session.updateLexer slot lexer) session

/-- Highlights a source with the lexers of some slots. While that goes on, these lexers are not lent
out. -/
def highlight (fuel : Nat) (session : Session) (source : Bytes) (slots : List String)
    (formatter : Sum String FormatterSpec) (config : EngineConfig) : SessionReply × Session :=
  let made? :=
    match formatter with
    | .inl slot => (session.formatter? slot).map Except.ok
    | .inr spec => some (spec.make catalog session.host)
  match made?, slots.mapM session.lexer? with
  | some (.error error), _ => (.refused error, session)
  | some (.ok made), some kept =>
    let lexers := kept.map KeptLexer.lexer
    match attempt fuel catalog (session.hostExcept slots) config source lexers with
    | none => (.unanswered, session)
    | some .panicked => (.panicked, session)
    | some (.returned highlighted) =>
      let after := (session.restore slots highlighted.lexers).record highlighted.lifetimes
      match highlighted.outcome with
      | .ok calls => (.highlighted calls made (highlighted.lexers.map Lexer.state), after)
      | .error error => (.failed error, after)
  | _, _ => (.unanswered, session)

def perform (fuel : Nat) (session : Session) : SessionStep → SessionReply × Session
  | .makeLexer slot spec => session.makeLexer catalog slot spec
  | .makeFormatter slot spec => session.makeFormatter catalog slot spec
  | .setOption slot option value => session.setOption catalog slot option value
  | .setOptionText slot option text => session.setOptionText catalog slot option text
  | .getOption slot option => (session.getOption catalog slot option, session)
  | .listOptions slot => (session.listOptions slot, session)
  | .subLexers slot => (session.subLexers slot, session)
  | .destroy slot => session.destroy slot
  | .drop slot => session.drop slot
  | .state slot action? => session.changeState slot action?
  | .highlight source slots formatter config =>
    session.highlight catalog fuel source slots formatter config

end Session

end Highlighting

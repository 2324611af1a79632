import Highlighting.Language.Catalog
import Highlighting.Scan.Action

/-!
Languages given by tables. A scan call uses the first rule whose tests all hold; the rule moves the
cursor and names the event. A second table, if there is one, describes a push parser.
-/

namespace Highlighting

structure RuleTest where
  condition? : Option Int := none
  atEnd? : Option Bool := none
  atLineStart? : Option Bool := none
  nextIn? : Option (List UInt8) := none
  opening? : Option (List UInt8) := none

namespace RuleTest

variable {w : Window}

def passes {α : Type} (test? : Option α) (p : α → Bool) : Bool :=
  test?.all p

def holds (test : RuleTest) (cx : ScanContext w) : Bool :=
  passes test.condition? (· == cx.state.condition)
    && passes test.atEnd? (· == cx.atEnd)
    && passes test.atLineStart? (· == cx.atLineStart)
    && passes test.nextIn? (fun bytes => cx.peek.any (bytes.contains ·))
    && passes test.opening? cx.startsWith

end RuleTest

structure ScanRule where
  test : RuleTest
  actions : List ScanAction
  event : ScanEvent

/-- A rule of a push parser: what it applies to, the kinds it gives to spans counted back from the
last one, and whether the token is an error. -/
structure FeedRule where
  kind? : Option TokenKind := none
  text? : Option Bytes := none
  relabel : List (Nat × TokenKind) := []
  isError : Bool := false

namespace FeedRule

def applies (rule : FeedRule) (kind : TokenKind) (text : Bytes) : Bool :=
  rule.kind?.all (· == kind) && rule.text?.all (· == text)

def relabellings (rule : FeedRule) (count : Nat) : List Relabelling :=
  rule.relabel.filterMap (fun (back, kind) =>
    if back < count then some ⟨count - 1 - back, kind⟩ else none)

def parser (rules : List FeedRule) : PushParser where
  State := Unit
  initial := ()
  feed _ kind text pending :=
    match rules.find? (fun rule => rule.applies kind text) with
    | some rule =>
      ⟨(), rule.relabellings pending.size, if rule.isError then .syntaxError else .proceed⟩
    | none => ⟨(), [], .proceed⟩

end FeedRule

structure RuleTable where
  rules : List ScanRule := []
  initial : List ScanAction := []
  scores : List (List UInt8 × Int) := []
  score : Int := 0
  feedRules? : Option (List FeedRule) := none

namespace RuleTable

variable {w : Window}

/-- One scan call. Where no rule applies, there is nothing more to scan. -/
def scan (table : RuleTable) (cx : ScanContext w) : ScanEvent × ScanContext w :=
  match table.rules.find? (fun rule => rule.test.holds cx) with
  | some rule => (rule.event, ScanAction.performAll rule.actions cx)
  | none => (.done, cx)

def analyse (table : RuleTable) (input : Bytes) : Int :=
  ((table.scores.find? (fun entry => input.startsWith entry.1)).map Prod.snd).getD table.score

def grammar (table : RuleTable) : Grammar where
  scan _ _ cx := table.scan cx
  analyse := table.analyse
  initial := table.initial.foldl (fun state action => action.performOnState state) {}
  parser? _ := table.feedRules?.map FeedRule.parser

end RuleTable

structure TableLanguage where
  name : String
  description : String := ""
  aliases : List String := []
  patterns : List String := []
  mimetypes : List String := []
  interpreters : List String := []
  options : List OptionDeclaration := []
  table : RuleTable := {}

def TableLanguage.language (described : TableLanguage) : Language where
  name := described.name
  description := described.description
  aliases := described.aliases
  patterns := described.patterns
  mimetypes := described.mimetypes
  interpreters := described.interpreters
  options := described.options
  grammar := described.table.grammar

/-- The catalog with the given languages under the numbers from zero on. Further numbers stand for
plain text. -/
def Catalog.ofTables (languages : Array TableLanguage) : Catalog where
  custom number := ((languages[number]?).map TableLanguage.language).getD PlainText.language

end Highlighting

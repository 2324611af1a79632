import Highlighting.Proofs.Engine.Delegates
import Highlighting.Proofs.Engine.Elements

/-! Which parser a step consults, about which token, and what it is shown. A step feeds a token to the
parser of the active lexer if it makes a token at all, if the token has bytes, and as long as parsers are
consulted. -/
namespace Highlighting

structure Consultation where
  parser : RunningParser
  kind : TokenKind
  text : Bytes
  earlier : Array Span
  span : Span

namespace Consultation

variable (consultation : Consultation)

def queue : Array Span :=
  consultation.earlier.push consultation.span

def answer : RunningParser × Array Span × Verdict :=
  consultation.parser.feed consultation.kind consultation.text consultation.queue

def verdict : Verdict :=
  consultation.answer.2.2

def relabelled : Array Span :=
  consultation.answer.2.1

theorem relabelled_map {β : Type} {form : Span → β}
    (hform : ∀ span kind, form (span.relabel kind) = form span) :
    consultation.relabelled.map form = consultation.queue.map form :=
  Relabelling.applyAll_map hform _ _

end Consultation

namespace Run

def ownSpan (run : Run) (kind : TokenKind) : Span :=
  Span.ofLexer run.text run.cursor kind

/-- The run with the pending span as far as a delegation that is turned down claims it. -/
def claimed (run : Run) (delegation : Delegation) : Run :=
  if delegation.mode = .full ∧ run.cursor = run.text then { run with cursor := run.limit } else run

/-- The token that an event comes to, if it comes to one: the run whose pending span it is, and the kind
that the lexer gives it. -/
def tokenOf? (run : Run) : ScanEvent → Option (Run × TokenKind)
  | .token kind => some (run, kind)
  | .delegate delegation =>
    if run.refuses delegation.target then some (run.claimed delegation, delegation.fallback)
    else none
  | .extend | .done => none

variable (job : Job)

def consultation? (run : Run) (kind : TokenKind) : Option Consultation :=
  if run.cursor ≤ run.text then none
  else
    (if run.bridge then (run.live.get? run.active).bind Element.parser? else none).map
      (fun parser =>
        { parser := parser
          kind := kind
          text := job.input.extract run.text run.cursor
          earlier := run.pending
          span := run.ownSpan kind })

def consulted? (run : Run) : Option Consultation :=
  (run.prepare.scan job).bind (fun (event, scanned) =>
    (scanned.tokenOf? event).bind (fun (run, kind) => run.consultation? job kind))

def answered (run : Run) (consultation : Consultation) : Run :=
  let fed := { run with
    live := run.live.update run.active (Element.setParser · consultation.answer.1)
    pending := consultation.relabelled }
  match consultation.verdict with
  | .proceed => fed
  | .syntaxError => fed.abandonParsers

theorem fallback_eq_token (run : Run) (delegation : Delegation) :
    run.fallback job delegation = (run.claimed delegation).token job delegation.fallback := rfl

variable {job} {run : Run} {kind : TokenKind}

theorem queue_consultParser (hmore : run.text < run.cursor) :
    (run.queue kind).consultParser job kind =
      match run.consultation? job kind with
      | none => run.queue kind
      | some consultation => run.answered consultation := by
  have hparser : (if (run.queue kind).bridge then
      ((run.queue kind).live.get? (run.queue kind).active).bind Element.parser? else none) =
      if run.bridge then (run.live.get? run.active).bind Element.parser? else none := rfl
  unfold consultParser
  rw [hparser, consultation?, if_neg (Nat.not_le_of_lt hmore)]
  cases (if run.bridge then (run.live.get? run.active).bind Element.parser? else none) with
  | none => rfl
  | some parser => rfl

theorem token_eq (hmore : run.text < run.cursor) :
    run.token job kind =
      (match run.consultation? job kind with
        | none => run.queue kind
        | some consultation => run.answered consultation).flushIfFull job := by
  rw [token, if_neg (Nat.not_le_of_lt hmore), queue_consultParser hmore]

theorem consultation?_eq_some {consultation : Consultation}
    (h : run.consultation? job kind = some consultation) :
    ∃ element parser, run.live.get? run.active = some element ∧ element.parser? = some parser ∧
      run.text < run.cursor ∧ run.bridge = true ∧
        consultation =
          ⟨parser, kind, job.input.extract run.text run.cursor, run.pending, run.ownSpan kind⟩ := by
  unfold consultation? at h
  split at h
  · cases h
  · obtain ⟨parser, hparser, rfl⟩ := Option.map_eq_some_iff.mp h
    split at hparser
    case isTrue hbridge =>
      obtain ⟨element, hget, hparser⟩ := Option.bind_eq_some_iff.mp hparser
      exact ⟨element, parser, hget, hparser, by omega, hbridge, rfl⟩
    case isFalse => cases hparser

theorem consultation?_earlier {consultation : Consultation}
    (h : run.consultation? job kind = some consultation) : consultation.earlier = run.pending := by
  obtain ⟨element, parser, -, -, -, -, heq⟩ := consultation?_eq_some h
  rw [heq]

theorem consulted?_eq_some {consultation : Consultation} (h : run.consulted? job = some consultation) :
    ∃ event scanned claimed kind, run.prepare.scan job = some (event, scanned) ∧
      scanned.tokenOf? event = some (claimed, kind) ∧
        claimed.consultation? job kind = some consultation := by
  obtain ⟨⟨event, scanned⟩, hscan, hrest⟩ := Option.bind_eq_some_iff.mp h
  obtain ⟨⟨claimed, kind⟩, htoken, hconsultation⟩ := Option.bind_eq_some_iff.mp hrest
  exact ⟨event, scanned, claimed, kind, hscan, htoken, hconsultation⟩

theorem consulted?_of_token {event : ScanEvent} {scanned claimed : Run}
    (hscan : run.prepare.scan job = some (event, scanned))
    (htoken : scanned.tokenOf? event = some (claimed, kind)) :
    run.consulted? job = claimed.consultation? job kind := by
  simp only [consulted?, hscan, htoken, Option.bind_some]

theorem consultation?_of_bridge_off (hoff : run.bridge = false) :
    run.consultation? job kind = none := by
  unfold consultation?
  split
  · rfl
  · rw [hoff]
    rfl

theorem tokenOf?_eq_some {event : ScanEvent} {claimed : Run}
    (htoken : run.tokenOf? event = some (claimed, kind)) :
    ∃ cursor, claimed = { run with cursor := cursor } := by
  cases event with
  | token kind =>
    obtain ⟨rfl, -⟩ := Prod.mk.inj (Option.some.inj htoken)
    exact ⟨run.cursor, rfl⟩
  | extend => cases htoken
  | done => cases htoken
  | delegate delegation =>
    simp only [tokenOf?] at htoken
    split at htoken
    case isFalse => cases htoken
    case isTrue =>
      obtain ⟨rfl, -⟩ := Prod.mk.inj (Option.some.inj htoken)
      unfold Run.claimed
      split
      · exact ⟨run.limit, rfl⟩
      · exact ⟨run.cursor, rfl⟩

end Run

def Element.HasOwnParser (job : Job) (element : Element) : Prop :=
  ∀ running, element.parser? = some running →
    ∃ settings, (job.catalog.language element.language).grammar.parser? settings = some running.parser

theorem Element.hasOwnParser_stable (job : Job) : Element.Stable (Element.HasOwnParser job) where
  setState element state h := h
  setParser := by
    intro element fed running _ hfed hlanguage hparser state moved hmoved
    cases hmoved
    obtain ⟨settings, hsettings⟩ := hfed running hparser
    rw [hlanguage] at hsettings
    exact ⟨settings, hsettings⟩

theorem Job.element_hasOwnParser (job : Job) (bridge : Bool) (owner : Owner) (lexer : Lexer) :
    (job.element bridge owner lexer).HasOwnParser job := by
  intro running hrunning
  simp only [Job.element] at hrunning
  split at hrunning
  case isFalse => cases hrunning
  case isTrue =>
    obtain ⟨parser, hparser, rfl⟩ := Option.map_eq_some_iff.mp hrunning
    exact ⟨_, hparser⟩

theorem Run.Reaches.hasOwnParser {job : Job} {config : EngineConfig} {lexer : Lexer}
    {others : List Lexer} {run : Run} (hreach : Reaches job (job.start config lexer others) run) :
    run.live.All (Element.HasOwnParser job) :=
  hreach.invariant (M := fun _ scanned => scanned.live.All (Element.HasOwnParser job))
    (fun _ _ _ h hscan => scan_all (Element.hasOwnParser_stable job) h hscan)
    (fun _ _ _ _ h hmove =>
      hmove.all (Element.hasOwnParser_stable job) h (fun _ _ => job.element_hasOwnParser _ _ _))
    (start_all job config lexer others (fun _ _ => job.element_hasOwnParser _ _ _))

/-- The parser that a run would consult about a token is one of the active language. -/
theorem Run.parser_of_consultation? {job : Job} {run : Run} {kind : TokenKind}
    {consultation : Consultation} (hconsultation : run.consultation? job kind = some consultation)
    (h : run.live.All (Element.HasOwnParser job)) :
    ∃ settings, (job.catalog.language run.active).grammar.parser? settings =
      some consultation.parser.parser := by
  obtain ⟨element, parser, hget, hparser, -, -, rfl⟩ := consultation?_eq_some hconsultation
  obtain ⟨settings, hsettings⟩ := h element (List.mem_of_find?_eq_some hget) parser hparser
  rw [LiveLexers.language_of_get? hget] at hsettings
  exact ⟨settings, hsettings⟩

theorem Run.Reaches.parser_of_active {job : Job} {config : EngineConfig} {lexer : Lexer}
    {others : List Lexer} {run : Run} {consultation : Consultation}
    (hreach : Reaches job (job.start config lexer others) run)
    (hconsulted : run.consulted? job = some consultation) :
    ∃ settings, (job.catalog.language run.active).grammar.parser? settings =
      some consultation.parser.parser := by
  obtain ⟨event, scanned, claimed, kind, hscan, htoken, hconsultation⟩ := consulted?_eq_some hconsulted
  obtain ⟨cursor, rfl⟩ := tokenOf?_eq_some htoken
  have hactive : scanned.active = run.active := by
    obtain ⟨element, -, -, rfl⟩ := (run.prepare.scan_eq_some_iff job).mp hscan
    rfl
  have hscanned := scan_all (Element.hasOwnParser_stable job) hreach.hasOwnParser hscan
  have hparser := parser_of_consultation? hconsultation hscanned
  exact hactive ▸ hparser

/-- A run over a source makes a consultation. -/
def Job.Consults (job : Job) (config : EngineConfig) (lexers : List Lexer)
    (consultation : Consultation) : Prop :=
  ∃ lexer others run, lexers = lexer :: others ∧
    Run.Reaches job (job.start config lexer others) run ∧ run.consulted? job = some consultation

end Highlighting

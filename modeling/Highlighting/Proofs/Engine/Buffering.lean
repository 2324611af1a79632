import Highlighting.Proofs.Engine.Attempts
import Highlighting.Proofs.Engine.Simulation
import Highlighting.Proofs.Engine.Transcript
import Highlighting.Proofs.Grammar.JsonValue

/-! Rendering out of the queue is rendering at once, where parsers label their own tokens only: the
document is that of the spans in the order in which they are made. How long the queue may get makes no
difference either, provided that what a parser makes of a token does not depend on the spans that are
queued before it. -/
namespace Highlighting

namespace Consultation

variable (consultation : Consultation)

/-- The parser goes on, and gives another kind to no span but that of the token. -/
def LabelsOwn : Prop :=
  consultation.verdict = .proceed ∧ consultation.relabelled.pop = consultation.earlier

/-- The parser goes on and labels the token, and does so alike whatever is queued before it. -/
def Isolated : Prop :=
  ∃ state kind, ∀ earlier : Array Span,
    consultation.parser.feed consultation.kind consultation.text (earlier.push consultation.span) =
      (⟨consultation.parser.parser, state⟩, earlier.push (consultation.span.relabel kind), .proceed)

variable {consultation}

theorem Isolated.labelsOwn (h : consultation.Isolated) : consultation.LabelsOwn := by
  obtain ⟨state, kind, hfeed⟩ := h
  have hanswer : consultation.answer = _ := hfeed consultation.earlier
  constructor
  · rw [verdict, hanswer]
  · rw [relabelled, hanswer, Array.pop_push]

theorem LabelsOwn.relabelled_eq (h : consultation.LabelsOwn) :
    ∃ span, consultation.relabelled = consultation.earlier.push span := by
  have hsize : consultation.relabelled.size = consultation.earlier.size + 1 := by
    have hranges : consultation.relabelled.map Span.range = consultation.queue.map Span.range :=
      consultation.relabelled_map (fun _ _ => rfl)
    simpa [queue] using congrArg Array.size hranges
  have hpos : 0 < consultation.relabelled.size := by omega
  obtain ⟨front, span, hpush⟩ := Array.exists_push_of_size_pos hpos
  have hfront : front = consultation.earlier := by
    rw [← h.2, hpush, Array.pop_push]
  exact ⟨span, hfront ▸ hpush⟩

end Consultation

namespace Run

variable (job : Job)

def parsedSpan (run : Run) (kind : TokenKind) : Span :=
  ((run.consultation? job kind).bind (fun consultation => consultation.relabelled.back?)).getD
    (run.ownSpan kind)

variable {job}

theorem labelsBy_parsedSpan {run : Run}
    (hown : ∀ consultation, run.consulted? job = some consultation → consultation.LabelsOwn) :
    run.LabelsBy job (parsedSpan job) := by
  intro event scanned claimed kind hscan htoken hmore
  rw [queue_consultParser hmore]
  cases hconsultation : claimed.consultation? job kind with
  | none =>
    have hspan : claimed.parsedSpan job kind = claimed.ownSpan kind := by
      rw [parsedSpan, hconsultation]
      rfl
    rw [hspan]
    rfl
  | some consultation =>
    have hlabels := hown consultation ((consulted?_of_token hscan htoken).trans hconsultation)
    obtain ⟨span, hspan⟩ := hlabels.relabelled_eq
    have hparsed : claimed.parsedSpan job kind = span := by
      rw [parsedSpan, hconsultation, Option.bind_some, hspan, Array.back?_push]
      rfl
    simp only [answered, hlabels.1]
    rw [hspan, hparsed, consultation?_earlier hconsultation]

section Flushing

variable {run : Run}

/-- When the queue is rendered makes no difference to a run that renders it in the end. -/
theorem flushIfFull_flush (capacity : Nat) :
    (run.flushIfFull { job with capacity := capacity }).flush job = run.flush job := by
  unfold flushIfFull
  split
  · simp only [flush, Array.foldl_empty]
  · rfl

theorem flush_flush : (run.flush job).flush job = run.flush job := by
  simp only [flush, Array.foldl_empty]

theorem flush_consultation? (kind : TokenKind) :
    (run.flush job).consultation? job kind =
      (run.consultation? job kind).map (fun consultation => { consultation with earlier := #[] }) := by
  unfold consultation?
  have hplace : (run.flush job).cursor ≤ (run.flush job).text ↔ run.cursor ≤ run.text := Iff.rfl
  simp only [hplace]
  split
  · rfl
  · rw [Option.map_map]
    rfl

theorem answered_proceed {consultation : Consultation} {parser : RunningParser} {pending : Array Span}
    (hanswer : consultation.answer = (parser, pending, .proceed)) :
    run.answered consultation =
      { run with live := run.live.update run.active (Element.setParser · parser), pending := pending } := by
  simp only [answered, Consultation.verdict, Consultation.relabelled, hanswer]

/-- A token that a parser labels by itself is labelled alike with the queue rendered. -/
theorem token_flush {kind : TokenKind} (capacity : Nat)
    (hisolated : ∀ consultation, run.consultation? job kind = some consultation →
      consultation.Isolated) :
    (run.token { job with capacity := capacity } kind).flush job =
      ((run.flush job).token job kind).flush job := by
  by_cases hmore : run.text < run.cursor
  case neg =>
    have hempty : run.cursor ≤ run.text := Nat.le_of_not_lt hmore
    have hempty' : (run.flush job).cursor ≤ (run.flush job).text := hempty
    rw [token, token, if_pos hempty, if_pos hempty', flush_flush]
  case pos =>
    have hmore' : (run.flush job).text < (run.flush job).cursor := hmore
    have hsame : run.consultation? { job with capacity := capacity } kind = run.consultation? job kind :=
      rfl
    have hfull (run : Run) : (run.flushIfFull job).flush job = run.flush job :=
      flushIfFull_flush job.capacity
    rw [token_eq hmore, token_eq hmore', flushIfFull_flush, hfull, hsame, flush_consultation?]
    cases hconsultation : run.consultation? job kind with
    | none => simp [flush, queue]
    | some consultation =>
      -- The answer is the same but for what is queued before, which is rendered first.
      obtain ⟨state, label, hfeed⟩ := hisolated consultation hconsultation
      have hanswer : consultation.answer = _ := hfeed consultation.earlier
      have hanswer' : ({ consultation with earlier := #[] } : Consultation).answer = _ := hfeed #[]
      simp only [Option.map_some]
      rw [answered_proceed hanswer, answered_proceed hanswer', consultation?_earlier hconsultation]
      simp [flush]

theorem unterminated_flush (capacity : Nat) :
    (run.unterminated { job with capacity := capacity }).flush job =
      ((run.flush job).unterminated job).flush job := by
  by_cases hempty : run.cursor ≤ run.text
  case pos =>
    have hempty' : (run.flush job).cursor ≤ (run.flush job).text := hempty
    rw [unterminated, unterminated, if_pos hempty, if_pos hempty', flush_flush]
  case neg =>
    have hempty' : ¬(run.flush job).cursor ≤ (run.flush job).text := hempty
    have hfull (run : Run) : (run.flushIfFull job).flush job = run.flush job :=
      flushIfFull_flush job.capacity
    have hqueued : ((run.queue .text).flushIfFull { job with capacity := capacity }).flush job =
        (((run.flush job).queue .text).flushIfFull job).flush job := by
      rw [flushIfFull_flush, hfull]
      simp [flush, queue]
    rw [unterminated, unterminated, if_neg hempty, if_neg hempty']
    exact congrArg (fun queued : Run => { queued with text := run.cursor }) hqueued

theorem enter_flush (delegation : Delegation) :
    run.enter job delegation = (run.flush job).enter job delegation := by
  have hlive : (run.flush job).live = run.live := rfl
  simp only [enter, hlive]
  split
  · rw [flush_flush]
    rfl
  · simp [activate, flush]

theorem leave_flush (frame : Frame) : run.leave job frame = (run.flush job).leave job frame := by
  unfold leave
  rw [flush_flush]
  rfl

theorem claimed_flush (delegation : Delegation) :
    (run.claimed delegation).flush job = (run.flush job).claimed delegation := by
  unfold claimed
  have hplace : (run.flush job).cursor = (run.flush job).text ↔ run.cursor = run.text := Iff.rfl
  simp only [hplace]
  split <;> rfl

theorem scan_flush :
    (run.scan job).map (fun found => (found.1, found.2.flush job)) = (run.flush job).scan job := by
  simp only [scan, Option.map_map]
  rfl

/-- Whatever does not depend on what is queued is the same for runs that render the same in the end. -/
theorem same_of_flush {α : Type} {a b : Run} (hab : a.flush job = b.flush job) (f : Run → α)
    (hf : ∀ run, f (run.flush job) = f run) : f a = f b := by
  rw [← hf a, ← hf b, hab]

end Flushing

variable (job) in
/-- Two runs that differ only in how much of the document is still queued, right after scan calls that
came to an event; if the event makes a token, its parser labels it by itself. -/
structure Deferred (event : ScanEvent) (a b : Run) : Prop where
  flush : a.flush job = b.flush job
  isolated : ∀ claimed kind consultation, a.tokenOf? event = some (claimed, kind) →
    claimed.consultation? job kind = some consultation → consultation.Isolated

namespace Deferred

variable {event : ScanEvent} {a b : Run}

theorem token_of_isolated {kind : TokenKind} (capacity : Nat) (hab : a.flush job = b.flush job)
    (hisolated : ∀ consultation, a.consultation? job kind = some consultation →
      consultation.Isolated) :
    (a.token job kind).flush job =
      (b.token { job with capacity := capacity } kind).flush job := by
  -- The other run consults the parser with other spans queued, which makes no difference to it.
  have hother (consultation : Consultation)
      (h : b.consultation? job kind = some consultation) : consultation.Isolated := by
    have hflushed : (a.consultation? job kind).map
        (fun consultation => { consultation with earlier := #[] }) =
          some { consultation with earlier := #[] } := by
      rw [← flush_consultation?, hab, flush_consultation?, h]
      rfl
    obtain ⟨first, hfirst, heq⟩ := Option.map_eq_some_iff.mp hflushed
    have hsame : ({ first with earlier := #[] } : Consultation).Isolated := hisolated first hfirst
    rw [heq] at hsame
    exact hsame
  rw [token_flush capacity hother, ← hab]
  exact token_flush job.capacity hisolated

theorem carriesOut (job : Job) (capacity : Nat) :
    CarriesOut job { job with capacity := capacity } (fun a b => a.flush job = b.flush job)
      (Deferred job) where
  names _ := rfl
  cursor h := same_of_flush h Run.cursor (fun _ => rfl)
  stalls h := same_of_flush h Run.stalls (fun _ => rfl)
  recount h stalls := congrArg (fun run => { run with stalls := stalls }) h
  active h := same_of_flush h.flush Run.active (fun _ => rfl)
  token := by
    intro a b kind h
    exact token_of_isolated capacity h.flush (fun consultation => h.isolated a kind consultation rfl)
  extend h := congrArg (fun run => { run with accumulating := true }) h.flush
  closed := by
    intro a b h
    rw [unterminated_flush capacity, ← h.flush]
    exact unterminated_flush job.capacity
  starts h := same_of_flush h.flush (fun run => run.frames.map Frame.start) (fun _ => rfl)
  leave := by
    intro a b h frame outer frame' outer' ha hb
    have hframes : a.frames = b.frames := same_of_flush h.flush Run.frames (fun _ => rfl)
    obtain ⟨rfl, rfl⟩ := List.cons.inj (ha.symm.trans (hframes.trans hb))
    have hleft (run : Run) : ({ run with frames := outer } : Run).leave job frame =
        { run.flush job with frames := outer }.leave job frame := leave_flush frame
    have hclosed : { (a.unterminated job).flush job with frames := outer }.leave job frame =
        { (b.unterminated { job with capacity := capacity }).flush job with
          frames := outer }.leave job frame := by
      rw [unterminated_flush capacity, ← h.flush, ← unterminated_flush job.capacity]
    exact congrArg (Run.flush job) ((hleft _).trans (hclosed.trans (hleft _).symm))
  refuses h := same_of_flush h.flush (fun run => run.refuses _) (fun _ => rfl)
  refuse := by
    intro a b delegation h hrefused
    have htoken : a.tokenOf? (.delegate delegation) =
        some (a.claimed delegation, delegation.fallback) := if_pos hrefused
    rw [fallback_eq_token, fallback_eq_token]
    apply token_of_isolated capacity
    · rw [claimed_flush, claimed_flush, h.flush]
    · exact fun consultation => h.isolated _ _ consultation htoken
  enter := by
    intro a b delegation h _
    have henter : b.enter { job with capacity := capacity } delegation = b.enter job delegation := rfl
    rw [henter, enter_flush, h.flush, ← enter_flush]

/-- Runs that differ only in how much is queued agree after a step in which a parser is consulted by
itself or not at all. -/
theorem step (capacity : Nat) (hab : a.flush job = b.flush job)
    (hisolated : ∀ consultation, a.consulted? job = some consultation → consultation.Isolated) :
    (a.step job).Agree (fun a b => a.flush job = b.flush job)
      (b.step { job with capacity := capacity }) := by
  have hprepared : a.prepare.flush job = b.prepare.flush job := congrArg Run.prepare hab
  have hscans : (a.prepare.scan job).map (fun found => (found.1, found.2.flush job)) =
      (b.prepare.scan { job with capacity := capacity }).map
        (fun found => (found.1, found.2.flush job)) := by
    have hb : b.prepare.scan { job with capacity := capacity } = b.prepare.scan job := rfl
    rw [hb, scan_flush, scan_flush, hprepared]
  rcases scan_both hscans with ⟨ha, hb⟩ | ⟨event, a', b', ha, hb, hflush⟩
  · simp only [Run.step, ha, hb]
    exact .finished hprepared
  · have hcursor : a.cursor = b.cursor := same_of_flush hab Run.cursor (fun _ => rfl)
    refine (carriesOut job capacity).step hcursor ha hb ⟨hflush, ?_⟩
    intro claimed kind consultation htoken hconsultation
    exact hisolated consultation ((consulted?_of_token ha htoken).trans hconsultation)

end Deferred

end Run

/-- A run comes to the same for every capacity of the queue. -/
theorem Job.outcome_ignores_capacity (job : Job) (config : EngineConfig) (lexer : Lexer)
    (others : List Lexer)
    (hisolated : ∀ consultation, job.Consults config (lexer :: others) consultation →
      consultation.Isolated)
    (capacity fuel : Nat) :
    (Run.drive job fuel (job.start config lexer others)).map
        (fun (result, last) => result.map (fun _ => last.document job)) =
      (Run.drive { job with capacity := capacity } fuel (job.start config lexer others)).map
        (fun (result, last) => result.map (fun _ => last.document job)) := by
  apply Run.drive_map_of_step (R := fun a b => a.flush job = b.flush job)
  · intro run other hreach hsame
    apply Run.Deferred.step capacity hsame
    intro consultation hconsulted
    exact hisolated consultation ⟨lexer, others, run, rfl, hreach, hconsulted⟩
  · rfl
  · intro result a b hflush
    simp only [Run.document, hflush]

def Job.outputs (job : Job) (config : EngineConfig) (lexers : List Lexer) (fuel : Nat) : List Output :=
  match lexers with
  | [] => []
  | lexer :: others =>
    job.opening config ++ (job.start config lexer others).transcript job (Run.parsedSpan job) fuel

/-- The document is that of rendering each span as soon as it is made, where parsers go on and give other
kinds to their own tokens only. Where they do so whatever is queued before, a call comes to the same for
every capacity of the queue, unless there can be a queue for one of them only. -/
theorem buffered_as_immediate (fuel : Nat) (catalog : Catalog) (host : Host) (config : EngineConfig)
    (source : Bytes) (lexers : List Lexer)
    (hown : ∀ consultation,
      (Job.ofSource catalog host config source).Consults config lexers consultation →
        consultation.LabelsOwn) :
    (∀ highlighted calls,
      attempt fuel catalog host config source lexers = some (.returned highlighted) →
      highlighted.outcome = .ok calls →
        calls = Output.document (Job.ofSource catalog host config source).input
          ((Job.ofSource catalog host config source).outputs config lexers fuel)) ∧
    ((∀ consultation,
      (Job.ofSource catalog host config source).Consults config lexers consultation →
        consultation.Isolated) →
      ∀ capacity, (capacity ≤ queueLimit ↔ config.bufferCapacity ≤ queueLimit) →
        (attempt fuel catalog host { config with bufferCapacity := capacity } source lexers).map
            (fun ended => ended.returned?.map Highlighted.outcome) =
          (attempt fuel catalog host config source lexers).map
            (fun ended => ended.returned?.map Highlighted.outcome)) := by
  constructor
  · intro highlighted calls hreturned hok
    have hrun := attempt_eq_returned hreturned
    cases lexers with
    | nil =>
      cases Option.some.inj hrun
      cases hok
    | cons lexer others =>
      obtain ⟨last, hdrive, hcalls, -⟩ := highlight_ends hrun hok
      have hlabels (run : Run) (hreach : Run.Reaches _ _ run) :=
        Run.labelsBy_parsedSpan (fun consultation hconsulted =>
          hown consultation ⟨lexer, others, run, rfl, hreach, hconsulted⟩)
      have hrendered := Run.drive_rendered hlabels hdrive
      rw [hcalls, hrendered, Job.start_rendered, ← Emitter.putAll_append]
      rfl
  · intro hisolated capacity hroom
    apply attempt_map_congr Highlighted.outcome hroom
    cases lexers with
    | nil => rfl
    | cons lexer others =>
      have hends := Job.outcome_ignores_capacity _ config lexer others hisolated (max 1 capacity) fuel
      simp only [highlight, Option.map_map]
      exact hends.symm

theorem Json.keyParser_isolated {consultation : Consultation}
    (hparser : consultation.parser.parser = Json.keyParser)
    (hproceeds : consultation.verdict = .proceed) : consultation.Isolated := by
  obtain ⟨⟨parser, state⟩, kind, text, earlier, span⟩ := consultation
  subst hparser
  have hfeed (earlier : Array Span) :
      RunningParser.feed (Json.keyParserAt state) kind text (earlier.push span) =
        (Json.keyParserAt (state.next kind text.toList).1,
          earlier.push (if state.isKey kind then span.relabel .nameTag else span),
          (state.next kind text.toList).2) := Json.keyParser_feed rfl earlier span
  have hnext : (state.next kind text.toList).2 = .proceed := hproceeds
  rw [hnext] at hfeed
  by_cases hkey : state.isKey kind
  · simp only [if_pos hkey] at hfeed
    exact ⟨_, _, hfeed⟩
  · simp only [if_neg hkey] at hfeed
    exact ⟨_, span.kind, hfeed⟩

def Json.member : Bytes :=
  Bytes.ofText "\x7b\"a\":1\x7d"

def Job.member : Job :=
  Job.ofSource .relay (fun _ => none) {} Json.member

theorem Job.member_isolated (consultation : Consultation)
    (hconsults : Job.member.Consults {} [Lexer.create .relay .json] consultation) :
    consultation.Isolated := by
  obtain ⟨lexer, others, run, hlexers, hreach, hconsulted⟩ := hconsults
  obtain ⟨rfl, rfl⟩ := List.cons.inj hlexers
  have hchecked := hreach.all_of_after? (p := fun run => run.active == .json &&
    (run.consulted? Job.member).all (fun consultation => consultation.verdict == .proceed))
    6 (by decide +kernel) (by decide +kernel)
  obtain ⟨hactive, hproceeds⟩ : run.active = .json ∧ consultation.verdict = .proceed := by
    simpa [hconsulted] using hchecked
  obtain ⟨settings, hparser⟩ := hreach.parser_of_active hconsulted
  rw [hactive] at hparser
  apply Json.keyParser_isolated ?_ hproceeds
  have hgiven : (if settings.flag "keys" then some Json.keyParser else none) =
      some consultation.parser.parser := hparser
  split at hgiven
  · exact (Option.some.inj hgiven).symm
  · cases hgiven

theorem json_member_buffered :
    ∃ highlighted,
      attempt 16 .relay (fun _ => none) {} Json.member [Lexer.create .relay .json] =
        some (.returned highlighted) ∧
      highlighted.outcome = .ok (Output.document Json.member
        (Job.member.outputs {} [Lexer.create .relay .json] 16)) ∧
      (attempt 16 .relay (fun _ => none) { bufferCapacity := 0 } Json.member
        [Lexer.create .relay .json]).map (fun ended => ended.returned?.map Highlighted.outcome) =
          some (some highlighted.outcome) := by
  obtain ⟨hdocument, hcapacity⟩ := buffered_as_immediate 16 .relay (fun _ => none) {} Json.member
    [Lexer.create .relay .json]
    (fun consultation hconsults => (Job.member_isolated consultation hconsults).labelsOwn)
  obtain ⟨highlighted, calls, hrun, hok⟩ : ∃ highlighted calls,
      highlight 16 .relay (fun _ => none) {} Json.member [Lexer.create .relay .json] =
        some highlighted ∧ highlighted.outcome = .ok calls :=
    exists_highlighted (by decide +kernel)
  have hreturned : attempt 16 .relay (fun _ => none) {} Json.member [Lexer.create .relay .json] =
      some (.returned highlighted) := attempt_eq_of_highlight (by decide) hrun
  have hinput : Job.member.input = Json.member := by decide +kernel
  refine ⟨highlighted, hreturned, ?_, ?_⟩
  · rw [hok, hdocument highlighted calls hreturned hok, ← hinput]
    rfl
  · rw [hcapacity Job.member_isolated 0 (by decide), hreturned]
    rfl

def watching : PushParser where
  State := Unit
  initial := ()
  feed _ _ _ pending := ⟨(), if 2 ≤ pending.size then [⟨pending.size - 1, .name⟩] else [], .proceed⟩

def revising : PushParser where
  State := Unit
  initial := ()
  feed _ kind _ pending :=
    ⟨(), if kind = .operator ∧ 2 ≤ pending.size then [⟨pending.size - 2, .name⟩] else [], .proceed⟩

theorem watching_labelsOwn {consultation : Consultation}
    (hparser : consultation.parser.parser = watching) : consultation.LabelsOwn := by
  obtain ⟨⟨parser, state⟩, kind, text, earlier, span⟩ := consultation
  subst hparser
  refine ⟨rfl, ?_⟩
  simp only [Consultation.relabelled, Consultation.answer, Consultation.queue, RunningParser.feed,
    watching]
  split
  · simp [Relabelling.applyAll, Json.relabel_last]
  · simp [Relabelling.applyAll]

def scanByte {w : Window} (cx : ScanContext w) : ScanEvent × ScanContext w :=
  if cx.atEnd then (.done, cx)
  else (.token (if cx.startsWith [0x61] then .keyword else .operator), cx.bump)

theorem scanByte_ne_delegate {w : Window} (cx : ScanContext w) (delegation : Delegation) :
    (scanByte cx).1 ≠ .delegate delegation := by
  unfold scanByte
  split <;> simp

def Catalog.glancing : Catalog where
  custom number :=
    { name := "Glancing"
      grammar :=
        { scan := fun _ _ cx => scanByte cx
          parser? := fun _ => some (if number = 0 then watching else revising) } }

/-- Such a language never delegates, so its parser is the only one that is consulted. -/
theorem glancing_consults {host : Host} {config : EngineConfig} {source : Bytes} {number : Nat}
    {consultation : Consultation}
    (hconsults : (Job.ofSource .glancing host config source).Consults config
      [Lexer.create .glancing (.custom number)] consultation) :
    consultation.parser.parser = if number = 0 then watching else revising := by
  obtain ⟨lexer, others, run, hlexers, hreach, hconsulted⟩ := hconsults
  obtain ⟨rfl, rfl⟩ := List.cons.inj hlexers
  obtain ⟨settings, hparser⟩ := hreach.parser_of_active hconsulted
  have hactive : run.active = .custom number := by
    refine (hreach.undelegated rfl ?_).1
    intro run event scanned hactive hscan delegation
    obtain ⟨element, hget, hevent, -⟩ := (run.prepare.scan_eq_some_iff _).mp hscan
    have hlanguage : element.lexer.language = .custom number :=
      (LiveLexers.language_of_get? hget).trans hactive
    rw [← hevent, Run.scanCall, hlanguage]
    exact scanByte_ne_delegate _ delegation
  rw [hactive] at hparser
  exact (Option.some.inj hparser).symm

/-- The number of spans that are queued can show through: in the document if a parser goes by it, though
it labels its own tokens only in every run; and in whether a span can still be given another kind, though
no span is in a run with a short queue. -/
theorem capacity_shows_through :
    ((∀ capacity consultation,
        (Job.ofSource .glancing (fun _ => none) { bufferCapacity := capacity } #[0x61, 0x62]).Consults
          { bufferCapacity := capacity } [Lexer.create .glancing (.custom 0)] consultation →
            consultation.LabelsOwn) ∧
      (highlight 8 .glancing (fun _ => none) { bufferCapacity := 1 } #[0x61, 0x62]
          [Lexer.create .glancing (.custom 0)]).map Highlighted.outcome ≠
        (highlight 8 .glancing (fun _ => none) { bufferCapacity := 2 } #[0x61, 0x62]
          [Lexer.create .glancing (.custom 0)]).map Highlighted.outcome) ∧
    (∀ consultation,
        (Job.ofSource .glancing (fun _ => none) { bufferCapacity := 1 } #[0x61, 0x62]).Consults
          { bufferCapacity := 1 } [Lexer.create .glancing (.custom 1)] consultation →
            consultation.LabelsOwn) ∧
      (highlight 8 .glancing (fun _ => none) { bufferCapacity := 1 } #[0x61, 0x62]
          [Lexer.create .glancing (.custom 1)]).map Highlighted.outcome ≠
        (highlight 8 .glancing (fun _ => none) {} #[0x61, 0x62]
          [Lexer.create .glancing (.custom 1)]).map Highlighted.outcome := by
  have hdiffer {first second : Option Highlighted}
      (h : first.map (fun highlighted => highlighted.outcome.toOption) ≠
        second.map (fun highlighted => highlighted.outcome.toOption)) :
      first.map Highlighted.outcome ≠ second.map Highlighted.outcome := by
    intro hsame
    have hcalls := congrArg (Option.map Except.toOption) hsame
    rw [Option.map_map, Option.map_map] at hcalls
    exact h hcalls
  refine ⟨⟨?_, hdiffer (by decide +kernel)⟩, ?_, hdiffer (by decide +kernel)⟩
  · intro capacity consultation hconsults
    exact watching_labelsOwn (glancing_consults hconsults)
  · intro consultation hconsults
    obtain ⟨lexer, others, run, hlexers, hreach, hconsulted⟩ := hconsults
    obtain ⟨rfl, rfl⟩ := List.cons.inj hlexers
    have hchecked := hreach.all_of_after? (p := fun run =>
      (run.consulted? (Job.ofSource .glancing (fun _ => none) { bufferCapacity := 1 } #[0x61, 0x62])).all
        (fun consultation => consultation.verdict == .proceed &&
          consultation.relabelled.pop == consultation.earlier))
      3 (by decide +kernel) (by decide +kernel)
    simpa [hconsulted, Consultation.LabelsOwn] using hchecked

end Highlighting

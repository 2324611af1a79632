import Highlighting.Proofs.Engine.Coverage

/-! The form of a document. A document is a sequence of runs and delegates between its two ends; runs
hold texts, delegates hold sequences of runs and delegates again. The calls made up to some moment are
such a document broken off: the delegates under way are still open, and perhaps a run is. -/
namespace Highlighting

def Call.run (kind : TokenKind) (texts : List Bytes) : List Call :=
  .startToken kind :: (texts.map .write ++ [.endToken kind])

structure RunTexts (texts : List Bytes) : Prop where
  nonempty : texts ≠ []
  each : ∀ text ∈ texts, text ≠ #[]

/-- Complete runs and delegates one after the other. The delegates are nested at most `depth` deep and
have the same name at both ends. No run follows directly on one of its own kind: `last` is the kind of
the run at the end, if a run is at the end. -/
inductive Body : (depth : Nat) → (last : Option TokenKind) → List Call → Prop
  | empty {depth : Nat} : Body depth none []
  | run {depth : Nat} {last : Option TokenKind} {before : List Call} {kind : TokenKind}
      {texts : List Bytes} (hbefore : Body depth last before) (hkind : last ≠ some kind)
      (htexts : RunTexts texts) : Body depth (some kind) (before ++ Call.run kind texts)
  | delegate {depth : Nat} {last final : Option TokenKind} {before inner : List Call}
      (name : String) (hbefore : Body (depth + 1) last before) (hinner : Body depth final inner) :
      Body (depth + 1) none (before ++ .startLexing name :: (inner ++ [.endLexing name]))

def IsDocument (calls : List Call) : Prop :=
  ∃ last body, Body delegationCapacity last body ∧
    calls = .startDocument :: (body ++ [.endDocument])

/-- The calls of a document that is under way outside of runs. The delegates `names` are open, the
innermost first, and `last` is the kind of the run at the end of what the innermost holds so far. -/
inductive Underway : (names : List String) → (last : Option TokenKind) → List Call → Prop
  | document {last : Option TokenKind} {body : List Call}
      (hbody : Body delegationCapacity last body) : Underway [] last (.startDocument :: body)
  | delegate {names : List String} {last final : Option TokenKind} {calls body : List Call}
      (name : String) (hcalls : Underway names last calls)
      (hroom : names.length < delegationCapacity)
      (hbody : Body (delegationCapacity - (names.length + 1)) final body) :
      Underway (name :: names) final (calls ++ .startLexing name :: body)

namespace Underway

variable {names : List String} {last : Option TokenKind} {calls : List Call}

/-- What the innermost delegate holds so far can be told apart and gone on with. -/
theorem innermost (h : Underway names last calls) :
    ∃ front body, calls = front ++ body ∧ Body (delegationCapacity - names.length) last body ∧
      ∀ final longer, Body (delegationCapacity - names.length) final longer →
        Underway names final (front ++ longer) := by
  cases h with
  | @document _ body hbody =>
    exact ⟨[.startDocument], body, rfl, hbody, fun final longer hlonger => .document hlonger⟩
  | @delegate names _ _ calls body name hcalls hroom hbody =>
    refine ⟨calls ++ [.startLexing name], body, by simp, hbody, ?_⟩
    intro final longer hlonger
    have hmore := Underway.delegate name hcalls hroom hlonger
    simpa using hmore

theorem run (h : Underway names last calls) {kind : TokenKind} {texts : List Bytes}
    (hkind : last ≠ some kind) (htexts : RunTexts texts) :
    Underway names (some kind) (calls ++ Call.run kind texts) := by
  obtain ⟨front, body, rfl, hbody, hlonger⟩ := h.innermost
  rw [List.append_assoc]
  exact hlonger _ _ (hbody.run hkind htexts)

theorem leave {name : String} (h : Underway (name :: names) last calls) :
    Underway names none (calls ++ [.endLexing name]) := by
  cases h with
  | @delegate _ _ _ calls inner _ hcalls hroom hinner =>
    obtain ⟨front, body, rfl, hbody, hlonger⟩ := hcalls.innermost
    -- One delegate fewer is open, so one level more is left for what comes.
    have hdepth : delegationCapacity - names.length =
        delegationCapacity - (names.length + 1) + 1 := by omega
    rw [hdepth] at hbody hlonger
    have hclosed := hlonger _ _ (hbody.delegate name hinner)
    simpa using hclosed

end Underway

namespace Emitter

variable {names : List String} {emitter : Emitter}

/-- The calls made so far are a document under way, with the delegates `names` open and, if a run is
open, the texts of that run at the end. -/
def Renders (names : List String) (emitter : Emitter) : Prop :=
  match emitter.openRun with
  | none => Underway names none emitter.calls.toList
  | some kind => ∃ last before texts, Underway names last before ∧ last ≠ some kind ∧
      RunTexts texts ∧ emitter.calls.toList = before ++ .startToken kind :: texts.map .write

theorem Renders.closeRun (h : emitter.Renders names) :
    Underway names emitter.openRun emitter.closeRun.calls.toList := by
  unfold Renders at h
  unfold Emitter.closeRun
  split at h
  case h_1 hopen =>
    rw [hopen]
    exact h
  case h_2 kind hopen =>
    obtain ⟨last, before, texts, hbefore, hkind, htexts, hcalls⟩ := h
    rw [hopen]
    have hrun := hbefore.run hkind htexts
    simpa [hcalls, Call.run] using hrun

theorem renders_of_closed (hopen : emitter.openRun = none)
    (hcalls : Underway names none emitter.calls.toList) : emitter.Renders names := by
  unfold Renders
  rw [hopen]
  exact hcalls

theorem openRun_closeRun (emitter : Emitter) : emitter.closeRun.openRun = none := by
  unfold closeRun
  split
  · assumption
  · rfl

theorem Renders.emit (h : emitter.Renders names) (kind : TokenKind) (text : Bytes) :
    (emitter.emit kind text).Renders names := by
  have hclosed := h.closeRun
  unfold Emitter.emit
  split
  case isTrue => exact h
  case isFalse htext =>
    have hwrites : text ≠ #[] := fun hempty => htext (Array.isEmpty_iff.mpr hempty)
    by_cases hopen : emitter.openRun = some kind
    · -- The open run goes on.
      unfold Renders at h
      simp only [hopen] at h
      obtain ⟨last, before, texts, hbefore, hkind, htexts, hcalls⟩ := h
      simp only [openRunOf, hopen, if_true, Renders, call]
      refine ⟨last, before, texts ++ [text], hbefore, hkind, ⟨by simp, ?_⟩, by simp [hcalls]⟩
      intro other hother
      rcases List.mem_append.mp hother with hold | hnew
      · exact htexts.each other hold
      · exact List.mem_singleton.mp hnew ▸ hwrites
    · -- Another run begins, behind the one that was open.
      simp only [openRunOf, hopen, if_false, Renders, call]
      refine ⟨emitter.openRun, emitter.closeRun.calls.toList, [text], hclosed, hopen,
        ⟨by simp, ?_⟩, by simp⟩
      intro other hother
      exact List.mem_singleton.mp hother ▸ hwrites

theorem Renders.emitSpans (h : emitter.Renders names) (input : Bytes) (spans : Array Span) :
    (spans.foldl (Emitter.emitSpan input) emitter).Renders names := by
  refine Array.foldl_induction (motive := fun _ emitter => Renders names emitter) h ?_
  intro i emitter hbefore
  exact hbefore.emit spans[i].kind _

theorem Renders.startLexing (h : emitter.Renders names) (name : String)
    (hroom : names.length < delegationCapacity) :
    (emitter.startLexing name).Renders (name :: names) := by
  refine renders_of_closed (openRun_closeRun emitter) ?_
  have hopened := Underway.delegate name h.closeRun hroom .empty
  simpa [Emitter.startLexing, call] using hopened

theorem Renders.endLexing {name : String} (h : emitter.Renders (name :: names)) :
    (emitter.endLexing name).Renders names := by
  refine renders_of_closed (openRun_closeRun emitter) ?_
  simpa [Emitter.endLexing, call] using h.closeRun.leave

theorem Renders.endDocument (h : emitter.Renders []) : IsDocument emitter.endDocument.calls.toList := by
  have hclosed := h.closeRun
  generalize hcalls : emitter.closeRun.calls.toList = calls at hclosed
  cases hclosed with
  | document hbody => exact ⟨_, _, hbody, by simp [Emitter.endDocument, call, hcalls]⟩

end Emitter

namespace Run

variable (job : Job) (run : Run)

def lexing : List String :=
  run.frames.map (fun frame => job.catalog.name frame.child)

def Renders : Prop :=
  run.emitter.Renders (run.lexing job)

variable {job run}

theorem Renders.flush (h : run.Renders job) : (run.flush job).Renders job :=
  Emitter.Renders.emitSpans h job.input run.pending

theorem Renders.flushIfFull (h : run.Renders job) : (run.flushIfFull job).Renders job := by
  unfold Run.flushIfFull
  split
  · exact h.flush
  · exact h

theorem Renders.token (h : run.Renders job) (kind : TokenKind) :
    (run.token job kind).Renders job := by
  unfold Run.token
  split
  · exact h
  · have hframes : ((run.queue kind).consultParser job kind).frames = run.frames :=
      congrArg Place.frames (consultParser_place job (run.queue kind) kind)
    have hconsulted : ((run.queue kind).consultParser job kind).Renders job := by
      rw [Renders, lexing, hframes, consultParser_emitter]
      exact h
    exact hconsulted.flushIfFull

theorem Renders.unterminated (h : run.Renders job) : (run.unterminated job).Renders job := by
  unfold Run.unterminated
  split
  · exact h
  · have hqueued : (run.queue .text).Renders job := h
    exact hqueued.flushIfFull

theorem Renders.fallback (h : run.Renders job) (delegation : Delegation) :
    (run.fallback job delegation).Renders job := by
  unfold Run.fallback
  dsimp only
  split
  · have hclaimed : ({ run with cursor := run.limit } : Run).Renders job := h
    exact hclaimed.token _
  · exact h.token _

theorem Renders.enter (h : run.Renders job) (delegation : Delegation)
    (hroom : run.frames.length < delegationCapacity) :
    (run.enter job delegation).Renders job := by
  have hnames : (run.lexing job).length < delegationCapacity := by
    simpa [lexing] using hroom
  have hflushed := (Emitter.Renders.emitSpans h job.input run.pending).startLexing
    (job.catalog.name delegation.target) hnames
  by_cases hlive : run.live.contains delegation.target = true
  · simpa [Renders, Run.enter, Run.flush, lexing, hlive] using hflushed
  · simpa [Renders, Run.enter, Run.flush, Run.activate, lexing, hlive] using hflushed

theorem Renders.leave {frame : Frame} {outer : List Frame} (h : run.Renders job)
    (hframes : run.frames = frame :: outer)
    (hname : run.nameOf job frame.child = job.catalog.name frame.child) :
    ({ run with frames := outer }.leave job frame).Renders job := by
  have hopen : run.emitter.Renders
      (job.catalog.name frame.child :: outer.map (fun frame => job.catalog.name frame.child)) := by
    have hrenders := h
    rw [Renders, lexing, hframes] at hrenders
    exact hrenders
  -- The name that ends the delegate was looked up; it is the one that began it.
  have hclosed := (hopen.emitSpans job.input run.pending).endLexing
  rw [← hname] at hclosed
  unfold Run.leave
  dsimp only
  split
  · exact hclosed
  · exact hclosed

variable {event : ScanEvent} {scanned after : Run} {top : LanguageId}

theorem Renders.scan (h : run.Renders job)
    (hscan : run.prepare.scan job = some (event, scanned)) : scanned.Renders job := by
  obtain ⟨element, -, -, rfl⟩ := (run.prepare.scan_eq_some_iff job).mp hscan
  exact h

theorem Move.renders (hmove : Move job scanned event after)
    (hvalid : scanned.place.Valid job.input.size top) (h : scanned.Renders job) :
    after.Renders job := by
  cases hmove with
  | token kind => exact h.token kind
  | extend => exact h
  | leave frame outer hframes =>
    have hkept := unterminated_frames job scanned
    have hframe : frame ∈ scanned.frames := by
      rw [hframes]
      exact List.mem_cons_self
    exact h.unterminated.leave (hkept.trans hframes) (unterminated_named hvalid frame hframe).2
  | refuse delegation hrefused => exact h.fallback delegation
  | enter delegation haccepted =>
    obtain ⟨hroom, -⟩ := (scanned.refuses_eq_false_iff delegation.target).mp haccepted
    exact h.enter delegation hroom

theorem Reaches.renders {config : EngineConfig} {lexer : Lexer} {others : List Lexer} {run : Run}
    (hreach : Reaches job (job.start config lexer others) run) : run.Renders job := by
  refine (hreach.invariant
    (I := fun run => run.place.Valid job.input.size lexer.language ∧ run.Renders job)
    (M := fun _ scanned => scanned.place.Valid job.input.size lexer.language ∧
      scanned.Renders job) ?_ ?_ ⟨job.start_valid config lexer others, ?_⟩).2
  · intro run event scanned h hscan
    exact ⟨scan_valid h.1 hscan, h.2.scan hscan⟩
  · intro event scanned after stalls h hmove
    exact ⟨hmove.valid h.1, hmove.renders h.1 h.2⟩
  · exact Underway.document .empty

/-- The document of a run that ends has its proper form. -/
theorem EndsAt.isDocument {config : EngineConfig} {lexer : Lexer} {others : List Lexer}
    (hend : EndsAt job (job.start config lexer others) scanned) :
    IsDocument ((scanned.unterminated job).document job).toList := by
  obtain ⟨hframes, run, hreach, hscan⟩ := hend
  have hflushed := (hreach.renders.scan hscan).unterminated.flush
  have hnone : ((scanned.unterminated job).flush job).frames = [] :=
    (unterminated_frames job scanned).trans hframes
  rw [Renders, lexing, hnone] at hflushed
  exact hflushed.endDocument

end Run

/-- Whatever the grammars and parsers do, the calls of a run that succeeds form a document. -/
theorem calls_form_document (fuel : Nat) (catalog : Catalog) (host : Host) (config : EngineConfig)
    (source : Bytes) (lexers : List Lexer) (highlighted : Highlighted) (calls : Array Call)
    (hrun : highlight fuel catalog host config source lexers = some highlighted)
    (hok : highlighted.outcome = .ok calls) : IsDocument calls.toList := by
  obtain ⟨lexer, others, scanned, -, hend, rfl⟩ := highlight_eq_ok hrun hok
  exact hend.isDocument

/-- The deepest nesting there can be. -/
theorem relayed_calls_form_document :
    ∃ highlighted,
      highlight 64 .relay (fun _ => none) {} #[0x61, 0x62] [Lexer.create .relay (.custom 0)] =
        some highlighted ∧
      highlighted.outcome = .ok Job.relayed ∧ IsDocument Job.relayed.toList := by
  obtain ⟨highlighted, hrun, hok⟩ := relay_highlighted
  exact ⟨highlighted, hrun, hok,
    calls_form_document 64 .relay _ {} _ _ highlighted Job.relayed hrun hok⟩

end Highlighting

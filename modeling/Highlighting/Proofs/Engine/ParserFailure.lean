import Highlighting.Proofs.Engine.Transcript

/-! What becomes of a run once a parser has found an error. What was rendered before stays as it is; all
else is rendered as the lexers classify it: the spans that are still queued, whatever parsers had made of
them, and the spans that come later, about which no parser is consulted any more. -/
namespace Highlighting

namespace Emitter

variable {input : Bytes} {first second : Emitter}

/-- Kinds make no difference to what is shown of spans. -/
theorem emitSpans_shown (spans : Array Span) (hshown : first.shown = second.shown) :
    (spans.foldl (emitSpan input) first).shown =
      (second.putAll input ((spans.map Span.reset).toList.map .span)).shown := by
  rw [putAll_spans, ← Array.foldl_toList, ← Array.foldl_toList, Array.toList_map, List.foldl_map]
  induction spans.toList generalizing first second with
  | nil => exact hshown
  | cons span rest ih =>
    apply ih
    have hfirst := first.emit_shown span.kind (input.extract span.start span.stop)
    have hsecond := second.emit_shown span.defaultKind (input.extract span.start span.stop)
    rw [← hshown, ← hfirst] at hsecond
    exact hsecond.symm

theorem put_extends (emitter : Emitter) (output : Output) :
    emitter.Extends (emitter.put input output) := by
  cases output with
  | span span => exact Emits.extends ⟨[span], rfl⟩
  | startLexing lexer => exact (extends_closeRun_call _ _).1
  | endLexing lexer => exact (extends_closeRun_call _ _).1

theorem putAll_extends (emitter : Emitter) (outputs : List Output) :
    emitter.Extends (emitter.putAll input outputs) := by
  induction outputs generalizing emitter with
  | nil => exact List.prefix_refl _
  | cons output rest ih => exact (emitter.put_extends output).trans (ih _)

end Emitter

def Consultation.unparsed (consultation : Consultation) : List Output :=
  (consultation.queue.map Span.reset).toList.map .span

namespace Run

def withheld (run : Run) : List Output :=
  (run.pending.map Span.reset).toList.map .span

variable (job : Job)

/-- Of what was handed over the queue holds the end back, under the kinds that lexers gave; the rest has
been rendered, under whatever kinds. -/
def Withholds (outputs : List Output) (run : Run) : Prop :=
  ∃ flushed, outputs = flushed ++ run.withheld ∧
    run.emitter.shown = ((({} : Emitter).call .startDocument).putAll job.input flushed).shown

section Withholding

variable {job} {run queued : Run} {outputs : List Output} {kind : TokenKind}

theorem Withholds.flush (h : run.Withholds job outputs) : (run.flush job).Withholds job outputs := by
  obtain ⟨flushed, rfl, hshown⟩ := h
  have hnone : (run.flush job).withheld = [] := by simp [withheld, Run.flush]
  refine ⟨flushed ++ run.withheld, by rw [hnone, List.append_nil], ?_⟩
  rw [Emitter.putAll_append]
  exact Emitter.emitSpans_shown run.pending hshown

theorem Withholds.flushIfFull (h : run.Withholds job outputs) :
    (run.flushIfFull job).Withholds job outputs := by
  unfold Run.flushIfFull
  split
  · exact h.flush
  · exact h

theorem Withholds.push (h : run.Withholds job outputs) {span : Span}
    (hemitter : queued.emitter = run.emitter)
    (hwithheld : queued.withheld = run.withheld ++ [.span span]) :
    queued.Withholds job (outputs ++ [.span span]) := by
  obtain ⟨flushed, rfl, hshown⟩ := h
  refine ⟨flushed, ?_, hemitter ▸ hshown⟩
  rw [hwithheld, List.append_assoc]

/-- What is handed over last is rendered at once where the queue is rendered before it. -/
theorem Withholds.put (h : run.Withholds job outputs) {output : Output} {after : Run}
    (hempty : after.pending = #[])
    (hshown : after.emitter.shown = ((run.flush job).emitter.put job.input output).shown)
    (hput : ∀ first second : Emitter, first.shown = second.shown →
      (first.put job.input output).shown = (second.put job.input output).shown) :
    after.Withholds job (outputs ++ [output]) := by
  obtain ⟨flushed, hflushed, hrendered⟩ := h.flush
  refine ⟨outputs ++ [output], ?_, ?_⟩
  · simp [withheld, hempty]
  · have hall : outputs = flushed := by simpa [withheld, Run.flush] using hflushed
    rw [hshown, Emitter.putAll_append, hall]
    exact hput _ _ hrendered

theorem queue_withheld : (run.queue kind).withheld = run.withheld ++ [.span (run.ownSpan kind)] := by
  simp [withheld, queue, ownSpan, Span.reset, Span.ofLexer]

theorem answered_withheld (consultation : Consultation) :
    (run.answered consultation).withheld = consultation.unparsed := by
  have hkept : consultation.relabelled.map Span.reset = consultation.queue.map Span.reset :=
    consultation.relabelled_map (fun _ _ => rfl)
  have hagain : (consultation.relabelled.map Span.reset).map Span.reset =
      consultation.relabelled.map Span.reset := by
    rw [Array.map_map]
    rfl
  unfold answered withheld abandonParsers Consultation.unparsed
  dsimp only
  split
  · rw [hkept]
  · rw [hagain, hkept]

/-- Whatever a parser makes of the queue, the kinds of the lexers are still known. -/
theorem consultParser_withheld (hmore : run.text < run.cursor) :
    ((run.queue kind).consultParser job kind).withheld =
      run.withheld ++ [.span (run.ownSpan kind)] := by
  rw [queue_consultParser hmore]
  cases hconsultation : run.consultation? job kind with
  | none => exact queue_withheld
  | some consultation =>
    obtain ⟨element, parser, -, -, -, -, rfl⟩ := consultation?_eq_some hconsultation
    exact (answered_withheld _).trans queue_withheld

theorem Withholds.token (h : run.Withholds job outputs) :
    (run.token job kind).Withholds job (outputs ++ handOver ownSpan run kind) := by
  unfold Run.token handOver
  split
  case isTrue => simpa using h
  case isFalse hmore =>
    apply Withholds.flushIfFull
    apply h.push
    · exact consultParser_emitter job (run.queue kind) kind
    · apply consultParser_withheld
      omega

theorem Withholds.unterminated (h : run.Withholds job outputs) :
    (run.unterminated job).Withholds job (outputs ++ handOver ownSpan run .text) := by
  unfold Run.unterminated handOver
  split
  case isTrue => simpa using h
  case isFalse =>
    have hqueued : (run.queue .text).Withholds job (outputs ++ [.span (run.ownSpan .text)]) :=
      h.push rfl queue_withheld
    exact hqueued.flushIfFull

theorem Withholds.leave (h : run.Withholds job outputs) (frame : Frame) :
    (run.leave job frame).Withholds job (outputs ++ [.endLexing (run.nameOf job frame.child)]) := by
  apply h.put
  · unfold Run.leave
    dsimp only
    split <;> rfl
  · rw [leave_emitter]
    rfl
  · intro first second hsame
    simp [Emitter.put, hsame]

theorem Withholds.enter (h : run.Withholds job outputs) (delegation : Delegation) :
    (run.enter job delegation).Withholds job
      (outputs ++ [.startLexing (job.catalog.name delegation.target)]) := by
  apply h.put
  · rfl
  · rw [enter_emitter]
    rfl
  · intro first second hsame
    simp [Emitter.put, hsame]

/-- Carrying out an event hands something over, and the queue holds the end of it back. -/
theorem Move.withholds {scanned after : Run} {event : ScanEvent} (hmove : Move job scanned event after)
    (h : scanned.Withholds job outputs) :
    after.Withholds job (outputs ++ scanned.outputs job ownSpan event) := by
  cases hmove with
  | token kind => exact h.token
  | extend =>
    rw [Run.outputs, List.append_nil]
    exact h
  | leave frame outer hframes =>
    have hclosed : ({ scanned.unterminated job with frames := outer } : Run).Withholds job
        (outputs ++ handOver ownSpan scanned .text) := h.unterminated
    have hname : nameOf job ({ scanned.unterminated job with frames := outer } : Run) frame.child =
        nameOf job scanned frame.child := by
      simp only [nameOf, unterminated_live]
    have hleft := hclosed.leave frame
    rw [hname] at hleft
    simpa [Run.outputs, hframes] using hleft
  | refuse delegation hrefused =>
    have hclaimed : (scanned.claimed delegation).Withholds job outputs := by
      unfold claimed
      split <;> exact h
    rw [fallback_eq_token, Run.outputs, if_pos hrefused]
    exact hclaimed.token
  | enter delegation haccepted =>
    rw [Run.outputs, if_neg (ne_true_of_eq_false haccepted)]
    exact h.enter delegation

theorem withholds_after? {count : Nat} {first : Run} (h : first.Withholds job outputs)
    (hafter : after? job count first = some run) :
    run.Withholds job (outputs ++ first.transcript job ownSpan count) := by
  induction count generalizing first outputs with
  | zero =>
    cases hafter
    simpa [transcript] using h
  | succ count ih =>
    simp only [after?] at hafter
    split at hafter
    case h_2 => cases hafter
    case h_1 next hstep =>
      obtain ⟨event, scanned, after, stalls, hscan, hmove, rfl⟩ := step_running hstep
      have hscanned : scanned.Withholds job outputs := by
        obtain ⟨element, -, -, rfl⟩ := (first.prepare.scan_eq_some_iff job).mp hscan
        exact h
      rw [transcript_running count hscan hstep, ← List.append_assoc]
      exact ih (hmove.withholds hscanned) hafter

theorem start_withholds (config : EngineConfig) (lexer : Lexer) (others : List Lexer) :
    (job.start config lexer others).Withholds job (job.opening config) := by
  refine ⟨[], ?_, rfl⟩
  cases hshebang : job.passedThrough? config with
  | none => simp [Job.opening, Job.start, withheld, hshebang]
  | some stop => simp [Job.opening, Job.start, withheld, hshebang, Span.reset, Span.ofLexer]

end Withholding

section Failure

variable {job} {run next scanned after : Run} {event : ScanEvent} {kind : TokenKind}
  {consultation : Consultation}

theorem flushIfFull_bridge : (run.flushIfFull job).bridge = run.bridge := by
  unfold flushIfFull
  split <;> rfl

theorem consultParser_of_bridge_off (hoff : run.bridge = false) :
    (run.queue kind).consultParser job kind = run.queue kind := by
  have hqueued : (run.queue kind).bridge = false := hoff
  unfold consultParser
  simp only [hqueued, Bool.false_eq_true, if_false]

theorem token_bridge_off (hoff : run.bridge = false) : (run.token job kind).bridge = false := by
  unfold token
  split
  · exact hoff
  · rw [consultParser_of_bridge_off hoff, flushIfFull_bridge]
    exact hoff

theorem unterminated_bridge : (run.unterminated job).bridge = run.bridge := by
  unfold unterminated
  split
  · rfl
  · have hqueued : ((run.queue .text).flushIfFull job).bridge = run.bridge := flushIfFull_bridge
    exact hqueued

theorem leave_bridge (frame : Frame) : (run.leave job frame).bridge = run.bridge := by
  unfold leave
  dsimp only
  split <;> rfl

theorem enter_bridge (delegation : Delegation) : (run.enter job delegation).bridge = run.bridge := by
  unfold enter
  dsimp only
  split <;> rfl

/-- No move has parsers consulted again. -/
theorem Move.bridge_off (hmove : Move job scanned event after) (hoff : scanned.bridge = false) :
    after.bridge = false := by
  cases hmove with
  | token kind => exact token_bridge_off hoff
  | extend => exact hoff
  | leave frame outer hframes =>
    have hclosed : ({ scanned.unterminated job with frames := outer } : Run).bridge = false :=
      unterminated_bridge.trans hoff
    rw [leave_bridge, hclosed]
  | refuse delegation hrefused =>
    have hclaimed : (scanned.claimed delegation).bridge = false := by
      unfold claimed
      split <;> exact hoff
    rw [fallback_eq_token]
    exact token_bridge_off hclaimed
  | enter delegation haccepted => rw [enter_bridge, hoff]

theorem Reaches.bridge_off (hreach : Reaches job run next) (hoff : run.bridge = false) :
    next.bridge = false := by
  refine hreach.invariant (I := fun run => run.bridge = false)
    (M := fun _ scanned => scanned.bridge = false) ?_ ?_ hoff
  · intro run event scanned hoff hscan
    obtain ⟨element, -, -, rfl⟩ := (run.prepare.scan_eq_some_iff job).mp hscan
    exact hoff
  · intro event scanned after stalls hoff hmove
    exact hmove.bridge_off hoff

/-- The token of a step in which no parser is consulted, with the parsers as they were before. -/
theorem tokenOf?_bridge {claimed : Run} (hscan : run.prepare.scan job = some (event, scanned))
    (htoken : scanned.tokenOf? event = some (claimed, kind)) : claimed.bridge = run.bridge := by
  obtain ⟨cursor, rfl⟩ := tokenOf?_eq_some htoken
  obtain ⟨element, -, -, rfl⟩ := (run.prepare.scan_eq_some_iff job).mp hscan
  rfl

theorem consulted?_of_bridge_off (hoff : run.bridge = false) : run.consulted? job = none := by
  cases hconsulted : run.consulted? job with
  | none => rfl
  | some consultation =>
    obtain ⟨event, scanned, claimed, kind, hscan, htoken, hconsultation⟩ := consulted?_eq_some hconsulted
    rw [consultation?_of_bridge_off ((tokenOf?_bridge hscan htoken).trans hoff)] at hconsultation
    cases hconsultation

theorem labelsBy_ownSpan (hoff : run.bridge = false) : run.LabelsBy job ownSpan := by
  intro event scanned claimed kind hscan htoken _
  rw [consultParser_of_bridge_off ((tokenOf?_bridge hscan htoken).trans hoff)]
  rfl

/-- A token at which a parser fails: what is queued is to be rendered as the lexers classify it, behind
what has been rendered. -/
theorem token_of_failure (hconsultation : run.consultation? job kind = some consultation)
    (hfailed : consultation.verdict = .syntaxError) :
    (run.token job kind).bridge = false ∧
      (run.token job kind).rendered job = run.emitter.putAll job.input consultation.unparsed := by
  obtain ⟨element, parser, -, -, hmore, -, -⟩ := consultation?_eq_some hconsultation
  have hkept : consultation.relabelled.map Span.reset = consultation.queue.map Span.reset :=
    consultation.relabelled_map (fun _ _ => rfl)
  rw [token_eq hmore, hconsultation]
  constructor
  · rw [flushIfFull_bridge]
    simp only [answered, hfailed]
    rfl
  · rw [flushIfFull_rendered, Consultation.unparsed, Emitter.putAll_spans, ← hkept]
    simp only [answered, hfailed]
    rfl

theorem Move.eq_token {claimed : Run} (hmove : Move job scanned event after)
    (htoken : scanned.tokenOf? event = some (claimed, kind)) : after = claimed.token job kind := by
  cases hmove with
  | token kind =>
    obtain ⟨rfl, rfl⟩ := Prod.mk.inj (Option.some.inj htoken)
    rfl
  | extend => cases htoken
  | leave frame outer hframes => cases htoken
  | refuse delegation hrefused =>
    rw [tokenOf?, if_pos hrefused] at htoken
    obtain ⟨rfl, rfl⟩ := Prod.mk.inj (Option.some.inj htoken)
    exact fallback_eq_token job scanned delegation
  | enter delegation haccepted =>
    rw [tokenOf?, if_neg (ne_true_of_eq_false haccepted)] at htoken
    cases htoken

theorem outputs_of_token {claimed : Run} (htoken : scanned.tokenOf? event = some (claimed, kind)) :
    scanned.outputs job ownSpan event = handOver ownSpan claimed kind := by
  cases event with
  | token kind =>
    obtain ⟨rfl, rfl⟩ := Prod.mk.inj (Option.some.inj htoken)
    rfl
  | extend => cases htoken
  | done => cases htoken
  | delegate delegation =>
    rw [outputs]
    rw [tokenOf?] at htoken
    split
    case isTrue hrefused =>
      rw [if_pos hrefused] at htoken
      obtain ⟨rfl, rfl⟩ := Prod.mk.inj (Option.some.inj htoken)
      rfl
    case isFalse haccepted =>
      rw [if_neg haccepted] at htoken
      cases htoken

theorem step_of_failure (hconsulted : run.consulted? job = some consultation)
    (hfailed : consultation.verdict = .syntaxError) (hstep : run.step job = .running next) :
    next.bridge = false ∧
      next.rendered job = run.emitter.putAll job.input consultation.unparsed ∧
      ∀ fuel, run.withheld ++ run.transcript job ownSpan (fuel + 1) =
        consultation.unparsed ++ next.transcript job ownSpan fuel := by
  obtain ⟨event, scanned, claimed, kind, hscan, htoken, hconsultation⟩ := consulted?_eq_some hconsulted
  obtain ⟨event', scanned', after, stalls, hscan', hmove, rfl⟩ := step_running hstep
  obtain ⟨rfl, rfl⟩ := Prod.mk.inj (Option.some.inj (hscan.symm.trans hscan'))
  obtain ⟨hbridge, hrendered⟩ := token_of_failure hconsultation hfailed
  obtain ⟨element, parser, -, -, hmore, -, hshown⟩ := consultation?_eq_some hconsultation
  have hpending : claimed.withheld = run.withheld ∧ claimed.emitter = run.emitter := by
    obtain ⟨cursor, rfl⟩ := tokenOf?_eq_some htoken
    obtain ⟨element, -, -, rfl⟩ := (run.prepare.scan_eq_some_iff job).mp hscan
    exact ⟨rfl, rfl⟩
  rw [hpending.2] at hrendered
  refine ⟨?_, ?_, fun fuel => ?_⟩
  · rw [hmove.eq_token htoken]
    exact hbridge
  · rw [← hrendered, hmove.eq_token htoken]
    rfl
  · -- The token that the parser fails at is the last of the spans that it was shown.
    have hunparsed : consultation.unparsed = run.withheld ++ [.span (claimed.ownSpan kind)] := by
      rw [hshown, ← hpending.1]
      exact queue_withheld
    rw [transcript_running fuel hscan hstep, outputs_of_token htoken, handOver,
      if_neg (Nat.not_le_of_lt hmore), hunparsed, List.append_assoc]

/-- A step in which a parser is consulted is not the last one of a run that succeeds. -/
theorem drive_of_consulted {fuel : Nat} {last : Run} (hconsulted : run.consulted? job = some consultation)
    (hdrive : drive job fuel run = some (.ok (), last)) :
    ∃ left next, fuel = left + 1 ∧ run.step job = .running next ∧
      drive job left next = some (.ok (), last) := by
  cases fuel with
  | zero => cases hdrive
  | succ left =>
    simp only [drive] at hdrive
    split at hdrive
    case h_1 next hstep => exact ⟨left, next, rfl, hstep, hdrive⟩
    case h_2 ending hstep =>
      obtain ⟨event, scanned, claimed, kind, hscan, htoken, -⟩ := consulted?_eq_some hconsulted
      rcases step_finished hstep with ⟨hnone, -⟩ | ⟨scanned', hdone, -, -⟩
      · cases hscan.symm.trans hnone
      · obtain ⟨rfl, rfl⟩ := Prod.mk.inj (Option.some.inj (hscan.symm.trans hdone))
        cases htoken
    case h_3 =>
      obtain ⟨hresult, -⟩ := Prod.mk.inj (Option.some.inj hdrive)
      cases hresult

end Failure

end Run

/-- Once a parser has found an error, no parser is fed again. The document is what was rendered before,
followed by the spans that were queued at that moment and by all later ones, each as its lexer classifies
it: together they are what the lexers make of the source. -/
theorem failure_falls_back (fuel : Nat) (catalog : Catalog) (host : Host) (config : EngineConfig)
    (source : Bytes) (lexer : Lexer) (others : List Lexer) (count : Nat) (run : Run)
    (consultation : Consultation)
    (hafter : Run.after? (Job.ofSource catalog host config source) count
      ((Job.ofSource catalog host config source).start config lexer others) = some run)
    (hconsulted : run.consulted? (Job.ofSource catalog host config source) = some consultation)
    (hfailed : consultation.verdict = .syntaxError) :
    (∀ later next, count < later →
      Run.after? (Job.ofSource catalog host config source) later
        ((Job.ofSource catalog host config source).start config lexer others) = some next →
          next.consulted? (Job.ofSource catalog host config source) = none) ∧
    ∀ highlighted calls,
      highlight fuel catalog host config source (lexer :: others) = some highlighted →
      highlighted.outcome = .ok calls →
        ∃ flushed rest,
          (Job.ofSource catalog host config source).opening config ++
              ((Job.ofSource catalog host config source).start config lexer others).transcript
                (Job.ofSource catalog host config source) Run.ownSpan fuel =
            flushed ++ consultation.unparsed ++ rest ∧
          run.emitter.shown = ((({} : Emitter).call .startDocument).putAll
            (Job.ofSource catalog host config source).input flushed).shown ∧
          (∃ tail, calls = run.emitter.calls ++ tail) ∧
          calls = (run.emitter.putAll (Job.ofSource catalog host config source).input
            (consultation.unparsed ++ rest)).endDocument.calls := by
  generalize hjob : Job.ofSource catalog host config source = job at hafter hconsulted ⊢
  constructor
  · intro later next hlater hnext
    obtain ⟨more, rfl⟩ := Nat.exists_eq_add_of_lt hlater
    rw [Nat.add_assoc, Run.after?_add, hafter, Option.bind_some, Run.after?] at hnext
    split at hnext
    case h_2 => cases hnext
    case h_1 middle hstep =>
      obtain ⟨hoff, -, -⟩ := Run.step_of_failure hconsulted hfailed hstep
      exact Run.consulted?_of_bridge_off ((Run.reaches_of_after? hnext).bridge_off hoff)
  · intro highlighted calls hrun hok
    obtain ⟨last, hdrive, hcalls, -⟩ := highlight_ends hrun hok
    rw [hjob] at hdrive hcalls
    obtain ⟨left, rfl, hrest⟩ := Run.drive_after hafter hdrive
    obtain ⟨left, next, rfl, hstep, hlast⟩ := Run.drive_of_consulted hconsulted hrest
    obtain ⟨hoff, hrendered, htranscript⟩ := Run.step_of_failure hconsulted hfailed hstep
    obtain ⟨flushed, hflushed, hshown⟩ :=
      Run.withholds_after? (Run.start_withholds config lexer others) hafter
    have hdocument := Run.drive_rendered (fun later hlater => Run.labelsBy_ownSpan
      (hlater.bridge_off hoff)) hlast
    rw [hrendered, ← Emitter.putAll_append] at hdocument
    have hextends : run.emitter.Extends (last.rendered job).endDocument := by
      rw [hdocument]
      exact (Emitter.putAll_extends _ _).trans (Emitter.extends_closeRun_call _ _).1
    refine ⟨flushed, next.transcript job Run.ownSpan left, ?_, hshown, ?_, ?_⟩
    · rw [Run.transcript_add hafter, ← List.append_assoc, hflushed, List.append_assoc,
        List.append_assoc, htranscript]
    · rw [hcalls]
      exact hextends.exists_append
    · rw [hcalls, hdocument]

def Json.halfBroken : Bytes :=
  Bytes.ofText "\x7b\"a\":1,\"b\" 2\x7d"

def Job.halfBroken : Job :=
  Job.ofSource .relay (fun _ => none) { bufferCapacity := 4 } Json.halfBroken

/-- The parser fails at the last number. The first member name has been rendered as one by then; the
second one is queued and becomes a string again. -/
theorem second_member_falls_back :
    ∃ run consultation highlighted rest,
      Run.after? Job.halfBroken 7 (Job.halfBroken.start { bufferCapacity := 4 }
        (Lexer.create .relay .json) []) = some run ∧
      run.consulted? Job.halfBroken = some consultation ∧
      consultation.verdict = .syntaxError ∧
      highlight 16 .relay (fun _ => none) { bufferCapacity := 4 } Json.halfBroken
        [Lexer.create .relay .json] = some highlighted ∧
      highlighted.outcome =
        .ok (run.emitter.putAll Json.halfBroken (consultation.unparsed ++ rest)).endDocument.calls ∧
      run.emitter.calls.toList.filter (fun call => call matches .startToken _) =
        [.startToken .punctuation, .startToken .nameTag, .startToken .punctuation,
          .startToken .numberDecimal] ∧
      consultation.unparsed =
        [.span (Span.ofLexer 6 7 .punctuation), .span (Span.ofLexer 7 10 .stringDouble),
          .span (Span.ofLexer 10 11 .ignorable), .span (Span.ofLexer 11 12 .numberDecimal)] := by
  have hfound : ((Run.after? Job.halfBroken 7 (Job.halfBroken.start { bufferCapacity := 4 }
      (Lexer.create .relay .json) [])).bind (fun run => (run.consulted? Job.halfBroken).map
        (fun consultation => (run.emitter.calls.toList.filter (fun call => call matches .startToken _),
          consultation.verdict, consultation.unparsed)))) =
      some ([.startToken .punctuation, .startToken .nameTag, .startToken .punctuation,
        .startToken .numberDecimal], .syntaxError,
        [.span (Span.ofLexer 6 7 .punctuation), .span (Span.ofLexer 7 10 .stringDouble),
          .span (Span.ofLexer 10 11 .ignorable), .span (Span.ofLexer 11 12 .numberDecimal)]) := by
    decide +kernel
  obtain ⟨run, hafter, hrest⟩ := Option.bind_eq_some_iff.mp hfound
  obtain ⟨consultation, hconsulted, hvalues⟩ := Option.map_eq_some_iff.mp hrest
  obtain ⟨hcalls, hvalues⟩ := Prod.mk.inj hvalues
  obtain ⟨hverdict, hunparsed⟩ := Prod.mk.inj hvalues
  obtain ⟨highlighted, calls, hrun, hok⟩ : ∃ highlighted calls,
      highlight 16 .relay (fun _ => none) { bufferCapacity := 4 } Json.halfBroken
        [Lexer.create .relay .json] = some highlighted ∧ highlighted.outcome = .ok calls :=
    exists_highlighted (by decide +kernel)
  obtain ⟨-, hdocument⟩ := failure_falls_back 16 .relay (fun _ => none) { bufferCapacity := 4 }
    Json.halfBroken (Lexer.create .relay .json) [] 7 run consultation hafter hconsulted hverdict
  obtain ⟨flushed, rest, -, -, -, hrendered⟩ := hdocument highlighted calls hrun hok
  have hinput : Job.halfBroken.input = Json.halfBroken := by decide +kernel
  refine ⟨run, consultation, highlighted, rest, hafter, hconsulted, hverdict, hrun, ?_, hcalls,
    hunparsed⟩
  rw [hok, hrendered, ← hinput]
  rfl

end Highlighting

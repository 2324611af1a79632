import Highlighting.Proofs.Engine.Invariant
import Highlighting.Proofs.Engine.Shown

/-! Nothing is lost, doubled or put in another order: what a run has written, followed by what it has
queued, is the input up to the pending span, and at the end what is written is the input up to the
cursor. -/
namespace Highlighting

def Call.text : Call → Bytes
  | .write text => text
  | _ => #[]

/-- The texts that calls write, one after the other. -/
def Call.written (calls : Array Call) : Bytes :=
  calls.flatMap Call.text

theorem Call.written_append (first second : Array Call) :
    Call.written (first ++ second) = Call.written first ++ Call.written second :=
  Array.flatMap_append

theorem Call.written_push (calls : Array Call) (call : Call) :
    Call.written (calls.push call) = Call.written calls ++ call.text :=
  Array.flatMap_push

theorem Call.written_ofText (text : Bytes) : Call.written (Call.ofText text) = text := by
  unfold Call.ofText
  split
  case isTrue hempty => exact (Array.isEmpty_iff.mp hempty).symm
  case isFalse => simp [Call.written, Call.text]

theorem Call.text_of_not_scanned {call : Call} (hkind : call.isScanned = false) :
    call.text = #[] := by
  cases call with
  | write => cases hkind
  | _ => rfl

theorem Call.written_filter (calls : Array Call) :
    Call.written (calls.filter Call.isScanned) = Call.written calls := by
  have hlist (calls : List Call) :
      (calls.filter Call.isScanned).flatMap (fun call => call.text.toList) =
        calls.flatMap (fun call => call.text.toList) := by
    induction calls with
    | nil => rfl
    | cons call rest ih =>
      cases hkind : call.isScanned with
      | true => simp [hkind, ih]
      | false => simp [hkind, ih, Call.text_of_not_scanned hkind]
  apply Array.toList_inj.mp
  simp only [Call.written, Array.toList_flatMap, Array.toList_filter]
  exact hlist calls.toList

def Emitter.written (emitter : Emitter) : Bytes :=
  Call.written emitter.calls

namespace Run

variable (job : Job) (run : Run)

def produced : Bytes :=
  run.ranges.foldl (fun out range => out ++ job.input.extract range.1 range.2) run.emitter.written

theorem produced_of_ranges_empty (hempty : run.ranges = #[]) :
    run.produced job = run.emitter.written := by
  rw [produced, hempty, Array.foldl_empty]

/-- What is produced are the texts of what is shown. -/
theorem produced_eq_written_shown : run.produced job = Call.written (run.shown job) := by
  have hstart : run.emitter.written = Call.written run.emitter.shown :=
    (Call.written_filter run.emitter.calls).symm
  rw [produced, shown, hstart]
  apply Array.foldl_hom Call.written
  intro out range
  rw [Call.written_append, Call.written_ofText]

theorem token_produced (kind : TokenKind) :
    (run.token job kind).produced job =
      run.produced job ++ job.input.extract run.text run.cursor := by
  simp only [produced_eq_written_shown, token_shown, Call.written_append, Call.written_ofText]

theorem unterminated_produced :
    (run.unterminated job).produced job =
      run.produced job ++ job.input.extract run.text run.cursor := by
  simp only [produced_eq_written_shown, unterminated_shown, Call.written_append,
    Call.written_ofText]

theorem enter_produced (delegation : Delegation) :
    (run.enter job delegation).produced job = run.produced job := by
  rw [produced_eq_written_shown, enter_shown, Call.written_push, produced_eq_written_shown]
  exact Array.append_empty

theorem leave_produced (frame : Frame) :
    (run.leave job frame).produced job = run.produced job := by
  rw [produced_eq_written_shown, leave_shown, Call.written_push, produced_eq_written_shown]
  exact Array.append_empty

def Covers (top : LanguageId) (stop : Nat) : Prop :=
  run.place.Valid job.input.size top ∧ run.produced job = job.input.extract 0 stop

variable {job run} {top : LanguageId} {event : ScanEvent} {scanned after : Run}

theorem Covers.scan (h : run.Covers job top run.prepare.text)
    (hscan : run.prepare.scan job = some (event, scanned)) :
    scanned.Covers job top scanned.text ∧ scanned.accumulating = false := by
  obtain ⟨hplace, -, -⟩ := scan_place job run.prepare hscan
  have htext : scanned.text = run.prepare.text := congrArg Place.text hplace
  have haccumulating : scanned.accumulating = false := congrArg Place.accumulating hplace
  have hproduced : scanned.produced job = run.produced job := by
    rw [produced, scan_ranges job run.prepare hscan]
    obtain ⟨element, -, -, rfl⟩ := (run.prepare.scan_eq_some_iff job).mp hscan
    rfl
  rw [htext]
  exact ⟨⟨scan_valid h.1 hscan, hproduced.trans h.2⟩, haccumulating⟩

theorem extract_pending (h : scanned.Covers job top scanned.text) {stop : Nat}
    (hstop : scanned.text ≤ stop) :
    scanned.produced job ++ job.input.extract scanned.text stop = job.input.extract 0 stop := by
  rw [h.2, Array.extract_append_extract, Nat.zero_min, Nat.max_eq_right hstop]

theorem covers_of_idle (hvalid : after.place.Valid job.input.size top) {stop : Nat}
    (hidle : after.place.accumulating = false) (hcursor : after.place.cursor = stop)
    (hproduced : after.produced job = job.input.extract 0 stop) :
    after.Covers job top after.prepare.text := by
  have hnext := after.prepare_text_of_idle hidle
  refine ⟨hvalid, ?_⟩
  rw [hnext, hproduced, ← hcursor]
  rfl

/-- A move leaves the production complete up to where the next scan call begins. -/
theorem Move.covers (hmove : Move job scanned event after)
    (h : scanned.Covers job top scanned.text) (hidle : scanned.accumulating = false) :
    after.Covers job top after.prepare.text := by
  have htext : scanned.text ≤ scanned.cursor := h.1.text_le_cursor
  have hlimit : scanned.cursor ≤ scanned.limit := h.1.cursor_le_limit
  have hvalid := hmove.valid h.1
  cases hmove with
  | token kind =>
    have hplace := token_place job scanned kind
    apply covers_of_idle hvalid ((congrArg Place.accumulating hplace).trans hidle)
      (congrArg Place.cursor hplace)
    rw [token_produced]
    exact extract_pending h htext
  -- The pending span is kept, so the next call begins where this one did.
  | extend => exact ⟨hvalid, h.2⟩
  | leave frame outer hframes =>
    have hplace := unterminated_leave_place job scanned htext frame outer
    apply covers_of_idle hvalid ((congrArg Place.accumulating hplace).trans hidle)
      (congrArg Place.cursor hplace)
    calc _ = ({ scanned.unterminated job with frames := outer } : Run).produced job :=
          leave_produced job _ frame
      _ = (scanned.unterminated job).produced job := rfl
      _ = scanned.produced job ++ job.input.extract scanned.text scanned.cursor :=
          unterminated_produced job scanned
      _ = _ := extract_pending h htext
  | refuse delegation hrefused =>
    have hplace := fallback_place job scanned delegation
    apply covers_of_idle hvalid ((congrArg Place.accumulating hplace).trans hidle)
      (congrArg Place.cursor hplace)
    simp only [fallback, token_produced]
    -- An empty span of a delegate that was to decide by itself reaches to the limit.
    split
    · exact extract_pending h (htext.trans hlimit)
    · exact extract_pending h htext
  | enter delegation haccepted =>
    have hplace := enter_place job scanned delegation
    apply covers_of_idle hvalid ((congrArg Place.accumulating hplace).trans hidle)
      (congrArg Place.cursor hplace)
    -- The delegate goes back to where the pending span begins; nothing of it was produced.
    rw [enter_produced]
    exact h.2

/-- At the beginning nothing is produced but a shebang line that is passed through. -/
theorem start_covers (job : Job) (config : EngineConfig) (lexer : Lexer) (others : List Lexer) :
    (job.start config lexer others).Covers job lexer.language
      (job.start config lexer others).prepare.text := by
  refine covers_of_idle (job.start_valid config lexer others) rfl rfl ?_
  have hwritten : (job.start config lexer others).emitter.written = #[] := by
    simp [Job.start, Emitter.written, Emitter.call, Call.written, Call.text]
  cases hstop : job.passedThrough? config with
  | none =>
    have hcursor : (job.start config lexer others).place.cursor = 0 := by
      simp [Job.start, place, hstop]
    rw [hcursor, produced_of_ranges_empty, hwritten]
    · simp
    · simp [Job.start, ranges, hstop]
  | some stop =>
    have hcursor : (job.start config lexer others).place.cursor = stop := by
      simp [Job.start, place, hstop]
    have hranges : (job.start config lexer others).ranges = #[(0, stop)] := by
      simp [Job.start, ranges, hstop, Span.range, Span.ofLexer]
    rw [hcursor, produced, hranges, hwritten]
    simp

theorem Reaches.covers {config : EngineConfig} {lexer : Lexer} {others : List Lexer} {run : Run}
    (hreach : Reaches job (job.start config lexer others) run) :
    run.Covers job lexer.language run.prepare.text := by
  refine hreach.invariant (I := fun run => run.Covers job lexer.language run.prepare.text)
    (M := fun _ scanned => scanned.Covers job lexer.language scanned.text ∧
      scanned.accumulating = false) ?_ ?_ (start_covers job config lexer others)
  · intro run event scanned h hscan
    exact h.scan hscan
  · intro event scanned after stalls h hmove
    exact hmove.covers h.1 h.2

/-- The document of a run that ends is the input up to the cursor. -/
theorem EndsAt.written {config : EngineConfig} {lexer : Lexer} {others : List Lexer}
    (hend : EndsAt job (job.start config lexer others) scanned) :
    scanned.cursor ≤ job.input.size ∧
      Call.written ((scanned.unterminated job).document job) =
        job.input.extract 0 scanned.cursor := by
  obtain ⟨-, run, hreach, hscan⟩ := hend
  obtain ⟨hcovers, -⟩ := hreach.covers.scan hscan
  have htext : scanned.text ≤ scanned.cursor := hcovers.1.text_le_cursor
  refine ⟨hcovers.1.cursor_le_limit.trans hcovers.1.limit_le_size, ?_⟩
  calc Call.written ((scanned.unterminated job).document job)
      = (scanned.unterminated job).produced job := by
        rw [produced_eq_written_shown, ← document_shown, Call.written_filter]
    _ = job.input.extract 0 scanned.cursor := by
      rw [unterminated_produced, extract_pending hcovers htext]

end Run

/-- Whatever the grammars and parsers do, a document writes the input, less the byte order mark that is
left out, from its first byte to the cursor at which the outermost lexer was done: every byte once and
in order. -/
theorem document_writes_input (fuel : Nat) (catalog : Catalog) (host : Host) (config : EngineConfig)
    (source : Bytes) (lexers : List Lexer) (highlighted : Highlighted) (calls : Array Call)
    (hrun : highlight fuel catalog host config source lexers = some highlighted)
    (hok : highlighted.outcome = .ok calls) :
    ∃ lexer others scanned, lexers = lexer :: others ∧
      Run.EndsAt (Job.ofSource catalog host config source)
        ((Job.ofSource catalog host config source).start config lexer others) scanned ∧
      scanned.cursor ≤ (Job.ofSource catalog host config source).input.size ∧
      Call.written calls =
        (if config.stripByteOrderMark then source.stripByteOrderMark else source).extract 0
          scanned.cursor := by
  obtain ⟨lexer, others, scanned, hlexers, hend, rfl⟩ := highlight_eq_ok hrun hok
  exact ⟨lexer, others, scanned, hlexers, hend, hend.written.1, hend.written.2⟩

/-- The two bytes that are handed on sixteen times and refused the seventeenth are written once. -/
theorem document_writes_relayed_input :
    ∃ highlighted scanned,
      highlight 64 .relay (fun _ => none) {} #[0x61, 0x62] [Lexer.create .relay (.custom 0)] =
        some highlighted ∧
      highlighted.outcome = .ok Job.relayed ∧
      Run.EndsAt Job.relay (Job.relay.start {} (Lexer.create .relay (.custom 0)) []) scanned ∧
      Call.written Job.relayed = Array.extract #[0x61, 0x62] 0 scanned.cursor ∧
      Call.written Job.relayed = #[0x61, 0x62] := by
  obtain ⟨highlighted, hrun, hok⟩ := relay_highlighted
  obtain ⟨lexer, others, scanned, hlexers, hend, -, hinput⟩ :=
    document_writes_input 64 .relay _ {} _ _ highlighted Job.relayed hrun hok
  obtain ⟨rfl, rfl⟩ := List.cons.inj hlexers
  exact ⟨highlighted, scanned, hrun, hok, hend, hinput, by decide⟩

end Highlighting

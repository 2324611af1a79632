import Highlighting.Proofs.Engine.Transcript

/-! Where each byte is written: how many delegates are open there, and of which kind the run is that
holds it. The delegates that calls have left open are those that are under way, so what is queued will be
written at the present depth. Inside of delegates parsers may still give queued spans other kinds; that
is no matter for the bytes outside of delegates. -/
namespace Highlighting

/-- How many delegates are open, and the kind of the run that is. -/
structure Mark where
  depth : Nat := 0
  kind? : Option TokenKind := none
  deriving DecidableEq, Repr

def Mark.after (mark : Mark) : Call → Mark
  | .startToken kind => { mark with kind? := some kind }
  | .endToken _ => { mark with kind? := none }
  | .startLexing _ => { mark with depth := mark.depth + 1 }
  | .endLexing _ => { mark with depth := mark.depth - 1 }
  | _ => mark

def Mark.outside (mark : Mark) : Option (Option TokenKind) :=
  if mark.depth = 0 then some mark.kind? else none

theorem Mark.outside_eq_some {mark : Mark} {kind? : Option TokenKind} :
    mark.outside = some kind? ↔ mark = ⟨0, kind?⟩ := by
  obtain ⟨depth, kind⟩ := mark
  simp only [outside, Mark.mk.injEq]
  split
  case isTrue hdepth => simp [hdepth]
  case isFalse hdepth => simp [hdepth]

/-- Where the bytes are written that calls write, with the mark that the calls before have come to. -/
def Call.marksFrom (mark : Mark) : List Call → List Mark
  | [] => []
  | call :: rest => List.replicate call.text.size mark ++ marksFrom (mark.after call) rest

def Call.marks (calls : Array Call) : List Mark :=
  marksFrom {} calls.toList

theorem Call.marksFrom_append (mark : Mark) (first second : List Call) :
    marksFrom mark (first ++ second) =
      marksFrom mark first ++ marksFrom (first.foldl Mark.after mark) second := by
  induction first generalizing mark with
  | nil => rfl
  | cons call rest ih =>
    rw [List.cons_append, marksFrom, marksFrom, ih, List.append_assoc]
    rfl

namespace Emitter

variable {emitter : Emitter} {depth : Nat}

def mark (emitter : Emitter) : Mark :=
  emitter.calls.foldl Mark.after {}

def marks (emitter : Emitter) : List Mark :=
  Call.marks emitter.calls

theorem call_mark (emitter : Emitter) (call : Call) :
    (emitter.call call).mark = emitter.mark.after call :=
  Array.foldl_push

theorem call_marks (emitter : Emitter) (call : Call) :
    (emitter.call call).marks = emitter.marks ++ List.replicate call.text.size emitter.mark := by
  simp only [marks, Call.marks, Emitter.call, Array.toList_push, Call.marksFrom_append,
    Array.foldl_toList, Call.marksFrom, List.append_nil]
  rfl

def At (depth : Nat) (emitter : Emitter) : Prop :=
  emitter.mark = ⟨depth, emitter.openRun⟩

theorem At.closeRun (h : emitter.At depth) : emitter.closeRun.mark = ⟨depth, none⟩ := by
  unfold Emitter.closeRun
  split
  case h_1 hopen =>
    rw [← hopen]
    exact h
  case h_2 kind hopen =>
    have hend := call_mark emitter (.endToken kind)
    rw [h] at hend
    exact hend

theorem closeRun_marks (emitter : Emitter) : emitter.closeRun.marks = emitter.marks := by
  unfold Emitter.closeRun
  split
  case h_1 => rfl
  case h_2 kind _ => exact (call_marks emitter (.endToken kind)).trans (List.append_nil _)

theorem At.openRunOf (h : emitter.At depth) (kind : TokenKind) :
    (emitter.openRunOf kind).mark = ⟨depth, some kind⟩ := by
  unfold Emitter.openRunOf
  split
  case isTrue hopen =>
    rw [← hopen]
    exact h
  case isFalse =>
    have hstart := call_mark emitter.closeRun (.startToken kind)
    rw [h.closeRun] at hstart
    exact hstart

theorem openRunOf_marks (emitter : Emitter) (kind : TokenKind) :
    (emitter.openRunOf kind).marks = emitter.marks := by
  unfold Emitter.openRunOf
  split
  case isTrue => rfl
  case isFalse =>
    have hstart := call_marks emitter.closeRun (.startToken kind)
    rw [closeRun_marks] at hstart
    exact hstart.trans (List.append_nil _)

theorem At.emit_marks (h : emitter.At depth) (kind : TokenKind) (text : Bytes) :
    (emitter.emit kind text).marks =
      emitter.marks ++ List.replicate text.size ⟨depth, some kind⟩ := by
  unfold Emitter.emit
  split
  case isTrue hempty =>
    rw [Array.isEmpty_iff.mp hempty]
    exact (List.append_nil _).symm
  case isFalse => rw [call_marks, openRunOf_marks, h.openRunOf, Call.text]

theorem At.emit (h : emitter.At depth) (kind : TokenKind) (text : Bytes) :
    (emitter.emit kind text).At depth := by
  unfold Emitter.emit
  split
  case isTrue => exact h
  case isFalse =>
    have hopen : (emitter.openRunOf kind).openRun = some kind := by
      unfold Emitter.openRunOf
      split
      · assumption
      · rfl
    have hmark := call_mark (emitter.openRunOf kind) (.write text)
    rw [h.openRunOf kind] at hmark
    exact hmark.trans (congrArg (Mark.mk depth) hopen.symm)

theorem At.emitSpans (h : emitter.At depth) (input : Bytes) (spans : Array Span) :
    (spans.foldl (Emitter.emitSpan input) emitter).At depth := by
  refine Array.foldl_induction (motive := fun _ emitter => At depth emitter) h ?_
  intro i emitter hbefore
  exact hbefore.emit spans[i].kind _

theorem At.startLexing (h : emitter.At depth) (name : String) :
    (emitter.startLexing name).At (depth + 1) := by
  have hstart := call_mark emitter.closeRun (.startLexing name)
  rw [h.closeRun] at hstart
  exact hstart.trans (congrArg (Mark.mk (depth + 1)) (openRun_closeRun emitter).symm)

theorem startLexing_marks (emitter : Emitter) (name : String) :
    (emitter.startLexing name).marks = emitter.marks := by
  rw [Emitter.startLexing, call_marks, closeRun_marks]
  exact List.append_nil _

theorem At.endLexing (h : emitter.At (depth + 1)) (name : String) :
    (emitter.endLexing name).At depth := by
  have hend := call_mark emitter.closeRun (.endLexing name)
  rw [h.closeRun] at hend
  exact hend.trans (congrArg (Mark.mk depth) (openRun_closeRun emitter).symm)

theorem endLexing_marks (emitter : Emitter) (name : String) :
    (emitter.endLexing name).marks = emitter.marks := by
  rw [Emitter.endLexing, call_marks, closeRun_marks]
  exact List.append_nil _

theorem endDocument_marks (emitter : Emitter) : emitter.endDocument.marks = emitter.marks := by
  rw [Emitter.endDocument, call_marks, closeRun_marks]
  exact List.append_nil _

/-- Of spans that are written inside of delegates nothing counts but how long they are. -/
theorem At.emitSpans_outside (h : emitter.At depth) (hinside : depth ≠ 0) (input : Bytes)
    (spans : List Span) :
    (spans.foldl (Emitter.emitSpan input) emitter).marks.map Mark.outside =
      emitter.marks.map Mark.outside ++
        (spans.map Span.range).flatMap (fun range =>
          List.replicate (input.extract range.1 range.2).size none) := by
  induction spans generalizing emitter with
  | nil => exact (List.append_nil _).symm
  | cons span rest ih =>
    have hnone : (Mark.mk depth (some span.kind)).outside = none := if_neg hinside
    have hfirst := h.emit_marks span.kind (input.extract span.start span.stop)
    rw [List.foldl_cons, Emitter.emitSpan, ih (h.emit span.kind _), hfirst, List.map_append,
      List.map_replicate, hnone, List.append_assoc]
    rfl

end Emitter

namespace Run

variable (job : Job)

/-- The bytes written so far and those in the queue, with their kinds where they are outside of
delegates. -/
def outside (run : Run) : List (Option (Option TokenKind)) :=
  (run.rendered job).marks.map Mark.outside

def Nested (run : Run) : Prop :=
  run.emitter.At run.frames.length

variable {job} {run scanned after : Run} {event : ScanEvent}

theorem Nested.rendered (h : run.Nested) (job : Job) : (run.rendered job).At run.frames.length :=
  h.emitSpans job.input run.pending

theorem Nested.of_emitter {next : Run} (h : run.Nested) (hframes : next.frames = run.frames)
    (hemitter : next.emitter = run.emitter) : next.Nested := by
  rw [Nested, hframes, hemitter]
  exact h

theorem Nested.scan (h : run.Nested) (hscan : run.prepare.scan job = some (event, scanned)) :
    scanned.Nested := by
  obtain ⟨element, -, -, rfl⟩ := (run.prepare.scan_eq_some_iff job).mp hscan
  exact h

theorem Nested.flushIfFull (h : run.Nested) : (run.flushIfFull job).Nested := by
  unfold Run.flushIfFull
  split
  · exact h.rendered job
  · exact h

theorem Nested.token (h : run.Nested) (kind : TokenKind) : (run.token job kind).Nested := by
  unfold Run.token
  split
  · exact h
  · have hplace := consultParser_place job (run.queue kind) kind
    have hconsulted : ((run.queue kind).consultParser job kind).Nested :=
      h.of_emitter (congrArg Place.frames hplace) (consultParser_emitter job (run.queue kind) kind)
    exact hconsulted.flushIfFull

theorem Nested.unterminated (h : run.Nested) : (run.unterminated job).Nested := by
  unfold Run.unterminated
  split
  · exact h
  · have hqueued : (run.queue .text).Nested := h
    exact hqueued.flushIfFull

theorem Nested.enter (h : run.Nested) (delegation : Delegation) :
    (run.enter job delegation).Nested := by
  have hframes : (run.enter job delegation).frames.length = run.frames.length + 1 :=
    congrArg (fun place => place.frames.length) (enter_place job run delegation)
  rw [Nested, hframes, enter_emitter]
  exact Emitter.At.startLexing (h.rendered job) _

theorem Nested.leave {frame : Frame} {outer : List Frame} (h : run.Nested)
    (hframes : run.frames = frame :: outer) :
    ({ run with frames := outer }.leave job frame).Nested := by
  have hopen : (run.rendered job).At (outer.length + 1) := by
    have hrendered := h.rendered job
    rw [hframes] at hrendered
    exact hrendered
  have hrest : ({ run with frames := outer }.leave job frame).frames = outer :=
    congrArg Place.frames (leave_place job { run with frames := outer } frame)
  rw [Nested, hrest, leave_emitter]
  exact hopen.endLexing _

theorem Move.nested (hmove : Move job scanned event after) (h : scanned.Nested) : after.Nested := by
  cases hmove with
  | token kind => exact h.token kind
  | extend => exact h
  | leave frame outer hframes =>
    exact h.unterminated.leave ((unterminated_frames job scanned).trans hframes)
  | refuse delegation =>
    have hclaimed : (scanned.claimed delegation).Nested := by
      unfold claimed
      split
      · exact h
      · exact h
    exact hclaimed.token delegation.fallback
  | enter delegation => exact h.enter delegation

theorem Reaches.nested {config : EngineConfig} {lexer : Lexer} {others : List Lexer} {run : Run}
    (hreach : Reaches job (job.start config lexer others) run) : run.Nested := by
  refine hreach.invariant (I := Nested) (M := fun _ scanned => scanned.Nested) ?_ ?_ rfl
  · intro run event scanned h hscan
    exact h.scan hscan
  · intro event scanned after stalls h hmove
    exact hmove.nested h

theorem scan_outside (hscan : run.prepare.scan job = some (event, scanned)) :
    scanned.outside job = run.outside job := by
  rw [outside, scan_rendered hscan]
  rfl

theorem token_outside_of_empty (hempty : run.cursor ≤ run.text) (kind : TokenKind)
    (entry : Option (Option TokenKind)) :
    (run.token job kind).outside job =
      run.outside job ++ List.replicate (run.cursor - run.text) entry := by
  have hnone : run.cursor - run.text = 0 := by omega
  rw [token, if_pos hempty, hnone]
  exact (List.append_nil _).symm

theorem Nested.token_outside (h : run.Nested) (htop : run.frames = []) (kind : TokenKind)
    (hunasked : run.consultation? job kind = none) (hsize : run.cursor ≤ job.input.size) :
    (run.token job kind).outside job =
      run.outside job ++ List.replicate (run.cursor - run.text) (some (some kind)) := by
  have hat : (run.rendered job).At 0 := by
    have hrendered := h.rendered job
    rw [htop] at hrendered
    exact hrendered
  by_cases hmore : run.text < run.cursor
  case pos =>
    have hlength : (job.input.extract run.text run.cursor).size = run.cursor - run.text := by
      rw [Array.size_extract, Nat.min_eq_left hsize]
    have hqueued : (run.queue kind).rendered job =
        Emitter.emitSpan job.input (run.rendered job) (run.ownSpan kind) := rendered_of_push rfl rfl
    have hmarks := hat.emit_marks kind (job.input.extract run.text run.cursor)
    rw [token_eq hmore, hunasked, outside, flushIfFull_rendered, hqueued]
    have hown : Emitter.emitSpan job.input (run.rendered job) (run.ownSpan kind) =
        (run.rendered job).emit kind (job.input.extract run.text run.cursor) := rfl
    rw [hown, hmarks, hlength, List.map_append, List.map_replicate]
    rfl
  case neg => exact token_outside_of_empty (Nat.le_of_not_lt hmore) kind _

theorem Nested.outside_of_inside (h : run.Nested) (hinside : run.frames ≠ []) :
    run.outside job = run.emitter.marks.map Mark.outside ++
      run.ranges.toList.flatMap (fun range =>
        List.replicate (job.input.extract range.1 range.2).size none) := by
  have hdepth : run.frames.length ≠ 0 := by
    intro hzero
    exact hinside (List.length_eq_zero_iff.mp hzero)
  have hspans := Emitter.At.emitSpans_outside h hdepth job.input run.pending.toList
  rw [Array.foldl_toList] at hspans
  rw [ranges, Array.toList_map]
  exact hspans

/-- A token inside of delegates, whatever parsers make of it and of what is queued. -/
theorem Nested.token_inside (h : run.Nested) (hinside : run.frames ≠ []) (kind : TokenKind)
    (hsize : run.cursor ≤ job.input.size) :
    (run.token job kind).outside job =
      run.outside job ++ List.replicate (run.cursor - run.text) none := by
  by_cases hmore : run.text < run.cursor
  case pos =>
    have hlength : (job.input.extract run.text run.cursor).size = run.cursor - run.text := by
      rw [Array.size_extract, Nat.min_eq_left hsize]
    have hplace := consultParser_place job (run.queue kind) kind
    have hframes : ((run.queue kind).consultParser job kind).frames = run.frames :=
      congrArg Place.frames hplace
    have hemitter := consultParser_emitter job (run.queue kind) kind
    have hconsulted : ((run.queue kind).consultParser job kind).Nested :=
      h.of_emitter hframes hemitter
    have hranges : ((run.queue kind).consultParser job kind).ranges =
        run.ranges.push (run.text, run.cursor) := by
      rw [consultParser_ranges, queue_ranges]
    have htoken : run.token job kind =
        ((run.queue kind).consultParser job kind).flushIfFull job :=
      if_neg (Nat.not_le_of_lt hmore)
    rw [htoken, outside, flushIfFull_rendered]
    calc (((run.queue kind).consultParser job kind).rendered job).marks.map Mark.outside
        = ((run.queue kind).consultParser job kind).outside job := rfl
      _ = run.emitter.marks.map Mark.outside ++
            (run.ranges.push (run.text, run.cursor)).toList.flatMap (fun range =>
              List.replicate (job.input.extract range.1 range.2).size none) := by
          rw [hconsulted.outside_of_inside (hframes ▸ hinside), hranges, hemitter]
          rfl
      _ = run.outside job ++ List.replicate (run.cursor - run.text) none := by
          rw [h.outside_of_inside hinside, Array.toList_push, List.flatMap_append,
            List.flatMap_singleton, hlength, List.append_assoc]
  case neg => exact token_outside_of_empty (Nat.le_of_not_lt hmore) kind _

theorem enter_outside (delegation : Delegation) :
    (run.enter job delegation).outside job = run.outside job := by
  rw [outside, enter_rendered, Emitter.startLexing_marks]
  rfl

theorem leave_outside (frame : Frame) : (run.leave job frame).outside job = run.outside job := by
  rw [outside, leave_rendered, Emitter.endLexing_marks]
  rfl

theorem unterminated_outside (hclosed : run.cursor ≤ run.text) :
    (run.unterminated job).outside job = run.outside job := by
  rw [unterminated, if_pos hclosed]

theorem document_outside : (Call.marks (run.document job)).map Mark.outside = run.outside job := by
  have hend := (run.rendered job).endDocument_marks
  exact congrArg (List.map Mark.outside) hend

end Run

end Highlighting

import Highlighting.Proofs.Engine.Simulation

/-! Whose a live lexer is makes no difference to what is scanned and rendered. Owners decide what is
finalised; that a lexer was made for a delegation decides whether it goes when the delegation ends, but
only where the delegate itself says where to stop. With the owners and those idle marks left out, runs
go in lockstep. -/
namespace Highlighting

def Element.disowned (element : Element) : Element :=
  { element with owner := .engine }

theorem Element.disowned_language (element : Element) :
    element.disowned.language = element.language := rfl

theorem Element.disowned_disowned (element : Element) :
    element.disowned.disowned = element.disowned := rfl

namespace LiveLexers

variable (live : LiveLexers)

def disowned : LiveLexers :=
  live.map Element.disowned

@[simp]
theorem disowned_disowned : live.disowned.disowned = live.disowned := by
  simp only [disowned, map, List.map_map]
  rfl

theorem disowned_contains (id : LanguageId) : live.disowned.contains id = live.contains id :=
  live.map_contains Element.disowned_language id

theorem disowned_get? (id : LanguageId) :
    live.disowned.get? id = (live.get? id).map Element.disowned :=
  live.map_get? Element.disowned_language id

theorem disowned_insert (element : Element) :
    (live.insert element).disowned = live.disowned.insert element.disowned :=
  live.map_insert Element.disowned_language element

theorem disowned_erase (id : LanguageId) : (live.erase id).disowned = live.disowned.erase id :=
  live.map_erase Element.disowned_language id

theorem disowned_update (id : LanguageId) (change : Element → Element)
    (hchange : ∀ element, (change element).disowned = change element.disowned) :
    (live.update id change).disowned = live.disowned.update id change :=
  live.map_update Element.disowned_language id hchange

end LiveLexers

/-- A delegation with the mark of a delegate made for it only where the mark is looked at. -/
def Frame.disowned (frame : Frame) : Frame :=
  { frame with activated := decide (frame.mode = .full) && frame.activated }

@[simp]
theorem Frame.disowned_disowned (frame : Frame) : frame.disowned.disowned = frame.disowned := by
  cases hmode : frame.mode with
  | full => simp [Frame.disowned, hmode]
  | within => simp [Frame.disowned, hmode]

theorem Frame.disowned_releases (frame : Frame) :
    (frame.disowned.mode = .full ∧ frame.disowned.activated) ↔
      (frame.mode = .full ∧ frame.activated) := by
  simp only [Frame.disowned, Bool.and_eq_true, decide_eq_true_eq, and_self_left]

namespace Run

def disowned (run : Run) : Run :=
  { run with
    live := run.live.disowned
    frames := run.frames.map Frame.disowned
    lifetimes := {} }

variable (job : Job) (run : Run)

theorem frames_disowned_disowned :
    (run.frames.map Frame.disowned).map Frame.disowned = run.frames.map Frame.disowned := by
  rw [List.map_map]
  exact List.map_congr_left (fun frame _ => frame.disowned_disowned)

theorem flushIfFull_disowned : (run.flushIfFull job).disowned = run.disowned.flushIfFull job := by
  unfold flushIfFull
  by_cases hfull : job.capacity ≤ run.pending.size
  · rw [if_pos hfull]
    exact (if_pos hfull).symm
  · rw [if_neg hfull]
    exact (if_neg hfull).symm

theorem consultParser_disowned (kind : TokenKind) :
    (run.consultParser job kind).disowned = run.disowned.consultParser job kind := by
  have hparser : (if run.disowned.bridge then
      (run.disowned.live.get? run.disowned.active).bind Element.parser? else none) =
      if run.bridge then (run.live.get? run.active).bind Element.parser? else none := by
    have hget : run.disowned.live.get? run.disowned.active =
        (run.live.get? run.active).map Element.disowned := run.live.disowned_get? run.active
    rw [hget, Option.bind_map]
    rfl
  unfold consultParser
  rw [hparser]
  cases (if run.bridge then (run.live.get? run.active).bind Element.parser? else none) with
  | none => rfl
  | some parser =>
    have hset (parser : RunningParser) := run.live.disowned_update run.active
      (Element.setParser · parser) (fun _ => rfl)
    have hfeed : parser.feed kind (job.input.extract run.disowned.text run.disowned.cursor)
        run.disowned.pending =
        parser.feed kind (job.input.extract run.text run.cursor) run.pending := rfl
    simp only [hfeed]
    generalize parser.feed kind (job.input.extract run.text run.cursor) run.pending = fed
    cases hverdict : fed.2.2 with
    | proceed =>
      simp only [disowned, hset]
    | syntaxError =>
      simp only [disowned, abandonParsers, hset]

theorem token_disowned (kind : TokenKind) :
    (run.token job kind).disowned = run.disowned.token job kind := by
  have hempty : run.disowned.cursor ≤ run.disowned.text ↔ run.cursor ≤ run.text := Iff.rfl
  simp only [token, hempty]
  split
  · rfl
  · rw [flushIfFull_disowned, consultParser_disowned]
    rfl

theorem unterminated_disowned :
    (run.unterminated job).disowned = run.disowned.unterminated job := by
  have hempty : run.disowned.cursor ≤ run.disowned.text ↔ run.cursor ≤ run.text := Iff.rfl
  have hflush := flushIfFull_disowned job (run.queue .text)
  simp only [unterminated, hempty]
  split
  · rfl
  · exact congrArg (fun flushed => { flushed with text := run.cursor }) hflush

theorem fallback_disowned (delegation : Delegation) :
    (run.fallback job delegation).disowned = run.disowned.fallback job delegation := by
  have hclaims : (delegation.mode = .full ∧ run.disowned.cursor = run.disowned.text) ↔
      (delegation.mode = .full ∧ run.cursor = run.text) := Iff.rfl
  simp only [fallback, token_disowned, hclaims]
  split <;> rfl

theorem refuses_disowned (target : LanguageId) :
    run.disowned.refuses target = run.refuses target := by
  simp only [refuses, disowned, List.length_map, LiveLexers.disowned_contains]
  rfl

theorem nameOf_disowned (id : LanguageId) : nameOf job run.disowned id = nameOf job run id := by
  simp only [nameOf, disowned, LiveLexers.disowned_contains]

theorem enter_disowned (delegation : Delegation) :
    (run.enter job delegation).disowned = (run.disowned.enter job delegation).disowned := by
  have hcontains : run.disowned.live.contains delegation.target =
      run.live.contains delegation.target :=
    run.live.disowned_contains delegation.target
  simp only [enter, hcontains]
  split
  · simp only [disowned, flush, List.map_cons, frames_disowned_disowned,
      LiveLexers.disowned_disowned]
  · simp only [disowned, flush, activate, List.map_cons, frames_disowned_disowned,
      LiveLexers.disowned_insert, LiveLexers.disowned_disowned]

theorem resumed_disowned (frame : Frame) :
    (run.resumed job frame).disowned = (run.disowned.resumed job frame.disowned).disowned := by
  have hname : nameOf job run.disowned frame.disowned.child = nameOf job run frame.child :=
    nameOf_disowned job run frame.child
  have hparent : frame.disowned.parent = frame.parent := rfl
  have hcondition : frame.disowned.resume = frame.resume := rfl
  have hlimit : frame.disowned.savedLimit = frame.savedLimit := rfl
  have hresume (live : LiveLexers) (condition : Int) := live.disowned_update frame.parent
    (fun element => element.setState (element.lexer.state.start condition)) (fun _ => rfl)
  simp only [resumed, hname, hparent, hcondition, hlimit]
  simp only [disowned, flush, frames_disowned_disowned]
  cases frame.resume with
  | none => simp only [LiveLexers.disowned_disowned]
  | some condition => simp only [hresume, LiveLexers.disowned_disowned]

theorem deactivate_disowned (id : LanguageId) :
    (run.deactivate job id).disowned = (run.disowned.deactivate job id).disowned := by
  simp only [deactivate, disowned, frames_disowned_disowned, LiveLexers.disowned_erase,
    LiveLexers.disowned_disowned]

theorem leave_disowned (frame : Frame) :
    (run.leave job frame).disowned = (run.disowned.leave job frame.disowned).disowned := by
  have hresumed := resumed_disowned job run frame
  rw [leave_eq, leave_eq]
  simp only [frame.disowned_releases]
  split
  · rw [deactivate_disowned, hresumed, ← deactivate_disowned]
    rfl
  · exact hresumed

theorem scan_disowned :
    (run.scan job).map (fun found => (found.1, found.2.disowned)) =
      (run.disowned.scan job).map (fun found => (found.1, found.2.disowned)) := by
  have hget : run.disowned.live.get? run.disowned.active =
      (run.live.get? run.active).map Element.disowned :=
    run.live.disowned_get? run.active
  simp only [scan, hget, Option.map_map]
  congr 1
  funext element
  have hstate (live : LiveLexers) (state : ScanState) := live.disowned_update run.active
    (Element.setState · state) (fun _ => rfl)
  simp only [Function.comp_apply, follow, disowned, hstate, LiveLexers.disowned_disowned,
    frames_disowned_disowned]
  rfl

section Lockstep

variable {job : Job} {a b : Run}

/-- What does not depend on owners is the same for runs that differ in nothing else. -/
theorem same_of_disowned {α : Type} (h : a.disowned = b.disowned) (f : Run → α)
    (hf : ∀ run, f run.disowned = f run) : f a = f b := by
  rw [← hf a, h, hf b]

theorem change_disowned (h : a.disowned = b.disowned) (f : Run → Run)
    (hf : ∀ run, (f run).disowned = f run.disowned) : (f a).disowned = (f b).disowned := by
  rw [hf, hf, h]

theorem leave_of_disowned (h : a.disowned = b.disowned) {frame frame' : Frame}
    {outer outer' : List Frame} (ha : a.frames = frame :: outer) (hb : b.frames = frame' :: outer') :
    ({ a.unterminated job with frames := outer }.leave job frame).disowned =
      ({ b.unterminated job with frames := outer' }.leave job frame').disowned := by
  have hframes : a.frames.map Frame.disowned = b.frames.map Frame.disowned :=
    congrArg Run.frames h
  rw [ha, hb, List.map_cons, List.map_cons] at hframes
  obtain ⟨hframe, houter⟩ := List.cons.inj hframes
  have hclosed : ({ a.unterminated job with frames := outer } : Run).disowned =
      ({ b.unterminated job with frames := outer' } : Run).disowned := by
    have hunterminated := change_disowned h (Run.unterminated job) (unterminated_disowned job)
    change { (a.unterminated job).disowned with frames := outer.map Frame.disowned } =
      { (b.unterminated job).disowned with frames := outer'.map Frame.disowned }
    rw [hunterminated, houter]
  rw [leave_disowned, hclosed, hframe, ← leave_disowned]

/-- Runs that differ only in whose their lexers are go in lockstep. -/
theorem disowned_lockstep (job : Job) :
    Lockstep job job (fun a b => a.disowned = b.disowned) (fun _ a b => a.disowned = b.disowned) where
  names _ := rfl
  cursor h := same_of_disowned h Run.cursor (fun _ => rfl)
  stalls h := same_of_disowned h Run.stalls (fun _ => rfl)
  recount h stalls := change_disowned h (fun run => { run with stalls := stalls }) (fun _ => rfl)
  active h := same_of_disowned h Run.active (fun _ => rfl)
  scan := by
    intro a b h
    have hprepared := change_disowned h Run.prepare (fun _ => rfl)
    have hsame : (a.prepare.scan job).map (fun found => (found.1, found.2.disowned)) =
        (b.prepare.scan job).map (fun found => (found.1, found.2.disowned)) := by
      rw [a.prepare.scan_disowned job, b.prepare.scan_disowned job, hprepared]
    rcases scan_both hsame with ⟨ha, hb⟩ | hscanned
    · exact Or.inl ⟨ha, hb, hprepared⟩
    · exact Or.inr hscanned
  token h := change_disowned h (Run.token job · _) (fun run => run.token_disowned job _)
  extend h := change_disowned h (fun run => { run with accumulating := true }) (fun _ => rfl)
  closed h := change_disowned h (Run.unterminated job) (unterminated_disowned job)
  starts h := by
    have hframes := congrArg (List.map Frame.start) (congrArg Run.frames h)
    simp only [disowned, List.map_map] at hframes
    exact hframes
  leave h _ _ _ _ ha hb := leave_of_disowned h ha hb
  refuses h := same_of_disowned h (Run.refuses · _) (fun run => run.refuses_disowned _)
  refuse h _ := change_disowned h (Run.fallback job · _) (fun run => run.fallback_disowned job _)
  enter h _ := by rw [enter_disowned, h, ← enter_disowned]

end Lockstep

end Run

end Highlighting

import Highlighting.Proofs.Engine.Attempts
import Highlighting.Proofs.Engine.Invariant
import Highlighting.Proofs.Engine.Shown
import Highlighting.Proofs.Engine.Simulation

/-! Rendering has no influence on scanning. Two runs that differ in whether parsers are consulted and in
how many spans are queued make the same scan calls, delegate alike and end alike; the texts are written
and the delegates marked in the same order, and only kinds and the bounds of runs can differ. -/
namespace Highlighting

namespace Run

variable (job : Job) (run : Run)

theorem nameOf_scanning (id : LanguageId) : nameOf job run.scanning id = nameOf job run id := by
  simp only [nameOf, scanning, LiveLexers.unparsed_contains]

/-- Two runs of a job, one of which may have another capacity of the queue, have scanned alike: their
scanning sides are the same, and so is what they show. -/
structure Alike (a b : Run) : Prop where
  scanning : a.scanning = b.scanning
  shown : a.shown job = b.shown job

namespace Alike

variable {job} {a b : Run}

/-- Whatever can be read off the scanning side is the same. -/
theorem same {α : Type} (h : a.Alike job b) (f : Run → α) (hf : ∀ run, f run.scanning = f run) :
    f a = f b := by
  rw [← hf a, ← hf b, h.scanning]

theorem frames (h : a.Alike job b) : a.frames = b.frames := h.same Run.frames (fun _ => rfl)

theorem text (h : a.Alike job b) : a.text = b.text := h.same Run.text (fun _ => rfl)

theorem cursor (h : a.Alike job b) : a.cursor = b.cursor := h.same Run.cursor (fun _ => rfl)

/-- A change on the scanning side that shows nothing keeps runs alike. -/
theorem change (h : a.Alike job b) (f : Run → Run) (hf : ∀ run, (f run).scanning = f run.scanning)
    (hshown : ∀ run, (f run).shown job = run.shown job) : (f a).Alike job (f b) where
  scanning := by rw [hf, hf, h.scanning]
  shown := by rw [hshown, hshown, h.shown]

theorem token (h : a.Alike job b) (capacity : Nat) (kind : TokenKind) :
    (a.token job kind).Alike job (b.token { job with capacity := capacity } kind) where
  scanning := by
    rw [token_scanning, token_scanning]
    exact h.scanning
  shown := by
    have hb := token_shown { job with capacity := capacity } b kind
    rw [token_shown, h.shown, h.text, h.cursor]
    exact hb.symm

theorem unterminated (h : a.Alike job b) (capacity : Nat) :
    (a.unterminated job).Alike job (b.unterminated { job with capacity := capacity }) where
  scanning := by
    rw [unterminated_scanning, unterminated_scanning, h.scanning, h.text, h.cursor]
  shown := by
    have hb := unterminated_shown { job with capacity := capacity } b
    rw [unterminated_shown, h.shown, h.text, h.cursor]
    exact hb.symm

theorem fallback (h : a.Alike job b) (capacity : Nat) (delegation : Delegation) :
    (a.fallback job delegation).Alike job
      (b.fallback { job with capacity := capacity } delegation) := by
  unfold Run.fallback
  dsimp only
  by_cases hclaims : delegation.mode = .full ∧ a.cursor = a.text
  · have hclaims' : delegation.mode = .full ∧ b.cursor = b.text := by
      rw [← h.cursor, ← h.text]
      exact hclaims
    have hclaimed := h.change (fun run => { run with cursor := run.limit }) (fun _ => rfl)
      (fun _ => rfl)
    rw [if_pos hclaims, if_pos hclaims']
    exact hclaimed.token capacity delegation.fallback
  · have hclaims' : ¬(delegation.mode = .full ∧ b.cursor = b.text) := by
      rw [← h.cursor, ← h.text]
      exact hclaims
    rw [if_neg hclaims, if_neg hclaims']
    exact h.token capacity delegation.fallback

theorem enter (h : a.Alike job b) (capacity : Nat) (delegation : Delegation) :
    (a.enter job delegation).Alike job (b.enter { job with capacity := capacity } delegation) where
  scanning := by
    have hb := enter_scanning { job with capacity := capacity } b delegation
    rw [enter_scanning, h.scanning]
    exact hb.symm
  shown := by
    have hb := enter_shown { job with capacity := capacity } b delegation
    rw [enter_shown, h.shown]
    exact hb.symm

theorem leave (h : a.Alike job b) (capacity : Nat) (frame : Frame) :
    (a.leave job frame).Alike job (b.leave { job with capacity := capacity } frame) where
  scanning := by
    have hb := leave_scanning { job with capacity := capacity } b frame
    rw [leave_scanning, h.scanning]
    exact hb.symm
  shown := by
    have hb := leave_shown { job with capacity := capacity } b frame
    -- The name that marks the end is looked up among the live lexers, which are the same.
    have hname := h.same (nameOf job · frame.child) (fun run => run.nameOf_scanning job frame.child)
    rw [leave_shown, h.shown, hname]
    exact hb.symm

theorem scan (h : a.Alike job b) :
    (a.scan job = none ∧ b.scan job = none) ∨
      ∃ event a' b', a.scan job = some (event, a') ∧ b.scan job = some (event, b') ∧
        a'.Alike job b' := by
  have hsame : (a.scan job).map (fun found => (found.1, found.2.scanning)) =
      (b.scan job).map (fun found => (found.1, found.2.scanning)) := by
    rw [a.scan_scanning job, b.scan_scanning job, h.scanning]
  have hkept {run scanned : Run} {event : ScanEvent} (hscan : run.scan job = some (event, scanned)) :
      scanned.shown job = run.shown job := by
    obtain ⟨element, -, -, rfl⟩ := (run.scan_eq_some_iff job).mp hscan
    rfl
  rcases scan_both hsame with hnone | ⟨event, a', b', ha, hb, hscanning⟩
  · exact Or.inl hnone
  · have hshown : a'.shown job = b'.shown job := by
      rw [hkept ha, hkept hb, h.shown]
    exact Or.inr ⟨event, a', b', ha, hb, hscanning, hshown⟩

end Alike

theorem alike_lockstep (capacity : Nat) :
    Lockstep job { job with capacity := capacity } (Alike job) (fun _ => Alike job) where
  names _ := rfl
  cursor h := h.cursor
  stalls h := h.same Run.stalls (fun _ => rfl)
  recount h stalls := h.change (fun run => { run with stalls := stalls }) (fun _ => rfl) (fun _ => rfl)
  active h := h.same Run.active (fun _ => rfl)
  scan := by
    intro a b h
    have hprepared := h.change Run.prepare (fun _ => rfl) (fun _ => rfl)
    rcases hprepared.scan with ⟨ha, hb⟩ | hscanned
    · exact Or.inl ⟨ha, hb, hprepared⟩
    · exact Or.inr hscanned
  token h := h.token capacity _
  extend h := h.change (fun run => { run with accumulating := true }) (fun _ => rfl) (fun _ => rfl)
  closed h := h.unterminated capacity
  starts h := by rw [h.frames]
  leave := by
    intro a b h frame outer frame' outer' ha hb
    obtain ⟨rfl, rfl⟩ := List.cons.inj (ha.symm.trans (h.frames.trans hb))
    have hclosed := (h.unterminated capacity).change (fun run => { run with frames := outer })
      (fun _ => rfl) (fun _ => rfl)
    exact hclosed.leave capacity frame
  refuses h := h.same (Run.refuses · _) (fun run => run.refuses_scanning _)
  refuse h _ := h.fallback capacity _
  enter h _ := h.enter capacity _

theorem enlist_unparsed (bridge : Bool) (live : LiveLexers) (entry : Lexer × Nat) :
    job.enlist false live.unparsed entry = (job.enlist bridge live entry).unparsed := by
  have hfull : live.unparsed.isFull = live.isFull := rfl
  simp only [Job.enlist, hfull]
  split
  · rfl
  · exact (live.unparsed_insert (job.element bridge (.caller entry.2) entry.1)).symm

theorem start_scanning (config : EngineConfig) (bridge : Bool) (capacity : Nat) (lexer : Lexer)
    (others : List Lexer) :
    (job.start config lexer others).scanning =
      (Job.start { job with capacity := max 1 capacity }
        { config with parserBridge := bridge, bufferCapacity := capacity } lexer others).scanning := by
  have hlive (bridge : Bool) :
      ((lexer :: others).zipIdx.foldl (job.enlist bridge) {}).unparsed =
        (lexer :: others).zipIdx.foldl (job.enlist false) {} :=
    (List.foldl_hom LiveLexers.unparsed (enlist_unparsed job bridge)).symm
  simp only [Job.start, scanning]
  rw [hlive config.parserBridge, ← hlive bridge]
  rfl

theorem callerLexers_scanning (lexers : List Lexer) :
    run.scanning.callerLexers lexers = run.callerLexers lexers := by
  simp only [callerLexers, scanning, LiveLexers.unparsed, LiveLexers.map, List.find?_map]
  apply List.map_congr_left
  rintro ⟨lexer, index⟩ _
  have hsame : ((fun element : Element => element.owner == .caller index) ∘ Element.unparsed) =
      (fun element => element.owner == .caller index) := rfl
  rw [hsame]
  cases run.live.table.find? (fun element => element.owner == .caller index) with
  | none => rfl
  | some element => rfl

theorem finalLifetimes_scanning : run.scanning.finalLifetimes job = run.finalLifetimes job := by
  simp only [finalLifetimes, scanning, LiveLexers.unparsed, LiveLexers.map, List.foldl_map]
  rfl

end Run

/-- What highlighting came to, less the kinds and runs of the document. -/
def Highlighted.scanned (highlighted : Highlighted) : Highlighted :=
  { highlighted with outcome := highlighted.outcome.map (fun calls => calls.filter Call.isScanned) }

theorem highlight_scanned (fuel : Nat) (catalog : Catalog) (host : Host) (config : EngineConfig)
    (source : Bytes) (lexers : List Lexer) (bridge : Bool) (capacity : Nat) :
    (highlight fuel catalog host config source lexers).map Highlighted.scanned =
      (highlight fuel catalog host
        { config with parserBridge := bridge, bufferCapacity := capacity } source lexers).map
        Highlighted.scanned := by
  cases lexers with
  | nil => rfl
  | cons lexer others =>
    let job := Job.ofSource catalog host config source
    let config' := { config with parserBridge := bridge, bufferCapacity := capacity }
    have hstart : (job.start config lexer others).Alike job
        (Job.start { job with capacity := max 1 capacity } config' lexer others) :=
      ⟨Run.start_scanning job config bridge capacity lexer others, rfl⟩
    simp only [highlight, Option.map_map]
    refine (Run.alike_lockstep job (max 1 capacity)).drive_map fuel hstart ?_
    intro result a b hlast
    have hlexers : a.callerLexers (lexer :: others) = b.callerLexers (lexer :: others) :=
      hlast.same (Run.callerLexers · _) (fun run => run.callerLexers_scanning _)
    have hlifetimes : a.finalLifetimes job = b.finalLifetimes job :=
      hlast.same (Run.finalLifetimes job) (fun run => run.finalLifetimes_scanning job)
    have hshown : (a.document job).filter Call.isScanned = (b.document job).filter Call.isScanned := by
      rw [Run.document_shown, Run.document_shown, hlast.shown]
    cases result with
    | error error =>
      exact congrArg₂ (Highlighted.mk (.error error)) hlexers hlifetimes
    | ok _ =>
      simp only [Function.comp_apply, Highlighted.scanned]
      rw [hlexers, hlifetimes]
      exact congrArg (fun calls => Highlighted.mk (.ok calls) _ _) hshown

/-- Whether parsers are consulted and how many spans are queued changes neither the outcome nor the
lexers of the caller nor the lexers that are made and finalised, and of the document only the kinds and
the bounds of runs: texts are written, and delegates begin and end, in the same order. What there can be
no queue for panics whatever else is asked for. -/
theorem scanned_ignores_rendering (fuel : Nat) (catalog : Catalog) (host : Host)
    (config : EngineConfig) (source : Bytes) (lexers : List Lexer) (bridge : Bool) (capacity : Nat)
    (hroom : config.bufferCapacity ≤ queueLimit ↔ capacity ≤ queueLimit) :
    (attempt fuel catalog host config source lexers).map
        (fun ended => ended.returned?.map Highlighted.scanned) =
      (attempt fuel catalog host
        { config with parserBridge := bridge, bufferCapacity := capacity } source lexers).map
        (fun ended => ended.returned?.map Highlighted.scanned) := by
  apply attempt_map_congr Highlighted.scanned hroom
  exact highlight_scanned fuel catalog host config source lexers bridge capacity

theorem scanned_ignores_rendering_json :
    (attempt 16 .relay (fun _ => none) {} (Bytes.ofText "[1]") [Lexer.create .relay .json]).map
        (fun ended => ended.returned?.map Highlighted.scanned) =
      (attempt 16 .relay (fun _ => none) { parserBridge := false, bufferCapacity := 1 }
        (Bytes.ofText "[1]") [Lexer.create .relay .json]).map
        (fun ended => ended.returned?.map Highlighted.scanned) :=
  scanned_ignores_rendering 16 .relay (fun _ => none) {} (Bytes.ofText "[1]")
    [Lexer.create .relay .json] false 1 (by decide)

/-- With one capacity the call returns, with another one it panics. -/
theorem capacity_decides_panic :
    (attempt 4 .relay (fun _ => none) {} (Bytes.ofText "hi") [Lexer.create .relay .text]).map
        (fun ended => ended.returned?.map Highlighted.scanned) ≠
      (attempt 4 .relay (fun _ => none) { bufferCapacity := 0xFFFFFFFFFFFFFFFF } (Bytes.ofText "hi")
        [Lexer.create .relay .text]).map (fun ended => ended.returned?.map Highlighted.scanned) := by
  have hpanics : attempt 4 .relay (fun _ => none) { bufferCapacity := 0xFFFFFFFFFFFFFFFF } (Bytes.ofText "hi")
      [Lexer.create .relay .text] = some .panicked :=
    attempt_eq_panicked_iff.mpr ⟨List.cons_ne_nil _ _, by decide⟩
  rw [hpanics]
  intro hsame
  obtain ⟨ended, hended, hnone⟩ := Option.map_eq_some_iff.mp hsame
  cases ended with
  | panicked => exact absurd (attempt_eq_panicked_iff.mp hended).2 (by decide)
  | returned highlighted => cases hnone

end Highlighting

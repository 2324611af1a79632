import Highlighting.Proofs.Engine.ContentLexer
import Highlighting.Proofs.Engine.Elements
import Highlighting.Proofs.Session.Destruction

/-! Runs whose lexers of the caller stand at other places of another list, under a host that lends out
other lexers. A run looks at those places only when it gives the lexers back, and at the host only
through the lexers that are live. So if the two hosts are the same to these lexers, then the runs go in
lockstep, and at the end each lexer is given back at its own place. -/
namespace Highlighting

/-- Two hosts are the same to a lexer: it scans and parses the same under both. -/
structure Lexer.SeesSame (catalog : Catalog) (host host' : Host) (lexer : Lexer) : Prop where
  scan : (catalog.language lexer.language).grammar.scan ⟨lexer.options, host⟩ =
    (catalog.language lexer.language).grammar.scan ⟨lexer.options, host'⟩
  parser : (catalog.language lexer.language).grammar.parser? ⟨lexer.options, host⟩ =
    (catalog.language lexer.language).grammar.parser? ⟨lexer.options, host'⟩

def Owner.relocated (place : Nat → Nat) : Owner → Owner
  | .caller index => .caller (place index)
  | .engine => .engine

def Element.relocated (place : Nat → Nat) (element : Element) : Element :=
  { element with owner := element.owner.relocated place }

theorem Element.relocated_language (place : Nat → Nat) (element : Element) :
    (element.relocated place).language = element.language := rfl

theorem Element.seesSame_stable (catalog : Catalog) (host host' : Host) :
    Element.Stable (fun element => element.lexer.SeesSame catalog host host') where
  setState _ _ h := ⟨h.scan, h.parser⟩
  setParser h _ _ _ _ := h

theorem Job.element_relocated (job : Job) {host : Host} (bridge : Bool) (owner : Owner)
    (place : Nat → Nat) {lexer : Lexer} (hsame : lexer.SeesSame job.catalog job.host host) :
    (Job.element { job with host := host } bridge owner lexer).relocated place =
      job.element bridge (owner.relocated place) lexer := by
  simp only [Job.element, Element.relocated, hsame.parser]

theorem Job.enlist_relocated (job : Job) {host : Host} (bridge : Bool) (place : Nat → Nat)
    (live : LiveLexers) {lexer : Lexer} (hsame : lexer.SeesSame job.catalog job.host host)
    (index : Nat) :
    (Job.enlist { job with host := host } bridge live (lexer, index)).map (Element.relocated place) =
      job.enlist bridge (live.map (Element.relocated place)) (lexer, place index) := by
  have hfull : (live.map (Element.relocated place)).isFull = live.isFull := rfl
  have hmade := job.element_relocated bridge (.caller index) place hsame
  unfold Job.enlist
  rw [hfull]
  split
  · rfl
  · rw [live.map_insert (Element.relocated_language place), hmade]
    rfl

theorem LiveLexers.update_relocated (place : Nat → Nat) (live : LiveLexers) (id : LanguageId)
    (change : Element → Element)
    (hchange : ∀ element, (change element).relocated place = change (element.relocated place)) :
    (live.update id change).map (Element.relocated place) =
      (live.map (Element.relocated place)).update id change :=
  live.map_update (Element.relocated_language place) id hchange

namespace Run

def relocated (place : Nat → Nat) (run : Run) : Run :=
  { run with live := run.live.map (Element.relocated place) }

section Operations

variable (place : Nat → Nat) (job : Job) (host : Host) (run : Run)

theorem Aside.relocated {f : Run → Run} (hf : Aside f) :
    (f run).relocated place = f (run.relocated place) := by
  have hkept := hf run run.live run.active run.frames run.bridge
  have hmoved := hf run (run.live.map (Element.relocated place)) run.active run.frames run.bridge
  exact (congrArg (Run.relocated place) hkept).trans hmoved.symm

theorem get?_relocated (id : LanguageId) :
    (run.relocated place).live.get? id = (run.live.get? id).map (Element.relocated place) :=
  run.live.map_get? (Element.relocated_language place) id

theorem consultParser_relocated (kind : TokenKind) :
    (run.consultParser job kind).relocated place =
      (run.relocated place).consultParser job kind := by
  have hparser : (if (run.relocated place).bridge then
      ((run.relocated place).live.get? (run.relocated place).active).bind Element.parser? else none) =
      if run.bridge then (run.live.get? run.active).bind Element.parser? else none := by
    rw [get?_relocated, Option.bind_map]
    rfl
  unfold consultParser
  rw [hparser]
  -- The same parser is fed the same, and goes back to the lexer of the same language.
  cases (if run.bridge then (run.live.get? run.active).bind Element.parser? else none) with
  | none => rfl
  | some parser =>
    have hset (parser : RunningParser) := run.live.update_relocated place run.active
      (Element.setParser · parser) (fun _ => rfl)
    have hfeed : parser.feed kind
        (job.input.extract (run.relocated place).text (run.relocated place).cursor)
        (run.relocated place).pending =
        parser.feed kind (job.input.extract run.text run.cursor) run.pending := rfl
    simp only [hfeed]
    generalize parser.feed kind (job.input.extract run.text run.cursor) run.pending = fed
    cases hverdict : fed.2.2 with
    | proceed => simp only [relocated, hset]
    | syntaxError => simp only [relocated, abandonParsers, hset]

theorem token_relocated (kind : TokenKind) :
    (run.token job kind).relocated place = (run.relocated place).token job kind := by
  have hempty : (run.relocated place).cursor ≤ (run.relocated place).text ↔ run.cursor ≤ run.text :=
    Iff.rfl
  simp only [token, hempty]
  split
  · rfl
  · rw [(flushIfFull_aside job).relocated, consultParser_relocated]
    rfl

theorem fallback_relocated (delegation : Delegation) :
    (run.fallback job delegation).relocated place =
      (run.relocated place).fallback job delegation := by
  have hclaims : (delegation.mode = .full ∧
      (run.relocated place).cursor = (run.relocated place).text) ↔
      (delegation.mode = .full ∧ run.cursor = run.text) := Iff.rfl
  simp only [fallback, token_relocated, hclaims]
  split <;> rfl

theorem contains_relocated (id : LanguageId) :
    (run.relocated place).live.contains id = run.live.contains id :=
  run.live.map_contains (Element.relocated_language place) id

theorem refuses_relocated (target : LanguageId) :
    (run.relocated place).refuses target = run.refuses target := by
  simp only [refuses, contains_relocated]
  rfl

theorem enter_relocated {delegation : Delegation}
    (hnew : (Lexer.create job.catalog delegation.target).SeesSame job.catalog job.host host) :
    (run.enter { job with host := host } delegation).relocated place =
      (run.relocated place).enter job delegation := by
  -- A lexer that is made now stands at no place, and its parser is the same under both hosts.
  have hmade := job.element_relocated run.bridge .engine place hnew
  have hinsert := run.live.map_insert (Element.relocated_language place)
    (Job.element { job with host := host } run.bridge .engine
      (Lexer.create job.catalog delegation.target))
  rw [hmade] at hinsert
  simp only [enter, contains_relocated]
  split
  · rfl
  · simp only [relocated, flush, activate, hinsert]
    rfl

theorem resumed_relocated (frame : Frame) :
    (run.resumed job frame).relocated place = (run.relocated place).resumed job frame := by
  have hname : nameOf job (run.relocated place) frame.child = nameOf job run frame.child := by
    simp only [nameOf, contains_relocated]
  have hresume (condition : Int) := run.live.update_relocated place frame.parent
    (fun element => element.setState (element.lexer.state.start condition)) (fun _ => rfl)
  simp only [resumed, hname]
  cases frame.resume with
  | none => rfl
  | some condition => simp only [relocated, flush, hresume]

theorem finalizedBy_relocated (element : Element) :
    finalizedBy job (element.relocated place) = finalizedBy { job with host := host } element := by
  cases howner : element.owner with
  | caller index => simp only [finalizedBy, Element.relocated, howner, Owner.relocated]
  | engine =>
    simp only [finalizedBy, Element.relocated, howner, Owner.relocated]
    exact Lexer.destroy_finalized _ _ element.lexer

theorem deactivate_relocated (id : LanguageId) :
    (run.deactivate { job with host := host } id).relocated place =
      (run.relocated place).deactivate job id := by
  -- Only lexers that stand at no place are finalised.
  have hreleased : ((run.relocated place).live.get? id).map (finalizedBy job) =
      (run.live.get? id).map (finalizedBy { job with host := host }) := by
    rw [get?_relocated, Option.map_map]
    congr 1
    funext element
    exact finalizedBy_relocated place job host element
  have herase := run.live.map_erase (Element.relocated_language place) id
  simp only [deactivate, hreleased]
  simp only [relocated, herase]

theorem leave_relocated (frame : Frame) :
    (run.leave { job with host := host } frame).relocated place =
      (run.relocated place).leave job frame := by
  have hresumed : (run.resumed { job with host := host } frame).relocated place =
      (run.relocated place).resumed job frame := resumed_relocated place job run frame
  rw [leave_eq, leave_eq]
  split
  · rw [deactivate_relocated, hresumed]
  · exact hresumed

theorem scan_relocated (hsame : run.live.All (fun element =>
      element.lexer.SeesSame job.catalog job.host host)) :
    (run.relocated place).scan job =
      (run.scan { job with host := host }).map (fun found => (found.1, found.2.relocated place)) := by
  have hget : (run.relocated place).live.get? (run.relocated place).active =
      (run.live.get? run.active).map (Element.relocated place) := get?_relocated place run run.active
  simp only [scan, hget, Option.map_map]
  cases hactive : run.live.get? run.active with
  | none => rfl
  | some element =>
    have hscan := (hsame element (List.mem_of_find?_eq_some hactive)).scan
    have hcall : (run.relocated place).scanCall job (element.relocated place).lexer =
        run.scanCall { job with host := host } element.lexer :=
      congrFun (congrFun hscan _) _
    have hstate (state : ScanState) := run.live.update_relocated place run.active
      (Element.setState · state) (fun _ => rfl)
    simp only [Option.map_some, Function.comp_apply]
    rw [hcall]
    simp only [follow, relocated, hstate]

end Operations

/-- The first of two runs is the second one with the lexers of the caller at other places, and the two
hosts are the same to all live lexers. -/
structure Relocates (place : Nat → Nat) (job : Job) (host : Host) (a b : Run) : Prop where
  same : a = b.relocated place
  sees : b.live.All (fun element => element.lexer.SeesSame job.catalog job.host host)

section Lockstep

variable {place : Nat → Nat} {job : Job} {host : Host} {a b : Run}

theorem Relocates.same_of {α : Type} (h : Relocates place job host a b) (f : Run → α)
    (hf : ∀ run, f (run.relocated place) = f run) : f a = f b := by
  rw [h.same, hf]

theorem Relocates.aside (h : Relocates place job host a b) {f : Run → Run} (hf : Aside f) :
    Relocates place job host (f a) (f b) where
  same := by
    rw [h.same]
    exact (hf.relocated place b).symm
  sees := by
    have hkept := congrArg Run.live (hf b b.live b.active b.frames b.bridge)
    rw [hkept]
    exact h.sees

/-- After a move of the second run its live lexers are the old ones and perhaps a new one. -/
theorem Relocates.moved (h : Relocates place job host a b)
    (hnew : ∀ id, (Lexer.create job.catalog id).SeesSame job.catalog job.host host)
    {event : ScanEvent} {after after' : Run} (hmove : Move { job with host := host } b event after')
    (hsame : after = after'.relocated place) : Relocates place job host after after' where
  same := hsame
  sees := hmove.all (Element.seesSame_stable _ _ _) h.sees (fun _ _ => hnew _)

/-- Such runs go in lockstep, provided that the hosts are the same to every new lexer too. -/
theorem relocates_lockstep
    (hnew : ∀ id, (Lexer.create job.catalog id).SeesSame job.catalog job.host host) :
    Lockstep job { job with host := host } (Relocates place job host)
      (fun _ => Relocates place job host) where
  names _ := rfl
  cursor h := h.same_of Run.cursor (fun _ => rfl)
  stalls h := h.same_of Run.stalls (fun _ => rfl)
  recount h stalls := h.aside (f := fun run => { run with stalls := stalls }) (fun _ _ _ _ _ => rfl)
  active h := h.same_of Run.active (fun _ => rfl)
  scan := by
    intro a b h
    have hprepared := h.aside (f := Run.prepare) (fun _ _ _ _ _ => rfl)
    have hscan := scan_relocated place job host b.prepare hprepared.sees
    rw [← hprepared.same] at hscan
    cases hfound : b.prepare.scan { job with host := host } with
    | none =>
      rw [hfound] at hscan
      exact Or.inl ⟨hscan, rfl, hprepared⟩
    | some found =>
      obtain ⟨event, scanned⟩ := found
      rw [hfound] at hscan
      refine Or.inr ⟨event, scanned.relocated place, scanned, hscan, rfl, rfl, ?_⟩
      exact scan_all (Element.seesSame_stable _ _ _) h.sees hfound
  token {a b kind} h := by
    refine h.moved hnew (.token kind) ?_
    rw [h.same]
    exact (token_relocated place job b kind).symm
  extend h :=
    h.aside (f := fun run => { run with accumulating := true }) (fun _ _ _ _ _ => rfl)
  closed h := h.aside (unterminated_aside job)
  starts h := h.same_of (fun run => run.frames.map Frame.start) (fun _ => rfl)
  leave {a b} h frame outer frame' outer' ha hb := by
    have hframes := h.same_of Run.frames (fun _ => rfl)
    obtain ⟨rfl, rfl⟩ := List.cons.inj (ha.symm.trans (hframes.trans hb))
    refine h.moved hnew (.leave frame outer hb) ?_
    rw [leave_relocated, (h.aside (unterminated_aside job)).same]
    rfl
  refuses h := h.same_of (Run.refuses · _) (fun run => run.refuses_relocated place _)
  refuse {a b delegation} h hrefused := by
    rw [h.same, refuses_relocated] at hrefused
    refine h.moved hnew (.refuse delegation hrefused) ?_
    rw [h.same]
    exact (fallback_relocated place job b delegation).symm
  enter {a b delegation} h haccepted := by
    rw [h.same, refuses_relocated] at haccepted
    refine h.moved hnew (.enter delegation haccepted) ?_
    rw [h.same]
    exact (enter_relocated place job host b (hnew delegation.target)).symm

theorem finalLifetimes_relocated (host : Host) (run : Run) :
    (run.relocated place).finalLifetimes job = run.finalLifetimes { job with host := host } := by
  simp only [finalLifetimes, relocated, LiveLexers.map, List.foldl_map,
    finalizedBy_relocated place job host]

theorem find?_relocated (hplace : Function.Injective place) (run : Run) (index : Nat) :
    (run.relocated place).live.table.find? (fun element => element.owner == .caller (place index)) =
      (run.live.table.find? (fun element => element.owner == .caller index)).map
        (Element.relocated place) := by
  -- Places that differ are still different afterwards.
  have howner (element : Element) :
      ((element.relocated place).owner == .caller (place index)) =
        (element.owner == .caller index) := by
    rw [Bool.eq_iff_iff, beq_iff_eq, beq_iff_eq]
    cases hcase : element.owner with
    | caller other => simp [Element.relocated, hcase, Owner.relocated, hplace.eq_iff]
    | engine => simp [Element.relocated, hcase, Owner.relocated]
  simp only [relocated, LiveLexers.map, List.find?_map, Function.comp_def, howner]

theorem find?_relocated_eq_none (run : Run) {index : Nat} (hindex : ∀ other, place other ≠ index) :
    (run.relocated place).live.table.find? (fun element => element.owner == .caller index) = none := by
  rw [List.find?_eq_none]
  intro element hmem
  obtain ⟨before, -, rfl⟩ := List.mem_map.mp hmem
  rw [beq_iff_eq]
  cases hcase : before.owner with
  | caller other => simpa [Element.relocated, hcase, Owner.relocated] using hindex other
  | engine => simp [Element.relocated, hcase, Owner.relocated]

end Lockstep

end Run

end Highlighting

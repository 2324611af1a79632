import Highlighting.Proofs.Engine.Place

/-! The scanning side of a run: all of its state but the parsers, the queue and what has been rendered.
Each operation of the engine acts on the scanning side as if the other side were not there, so what is
rendered, and when, and under which kinds, has no way back into what is scanned. -/
namespace Highlighting

namespace LiveLexers

def map (form : Element → Element) (live : LiveLexers) : LiveLexers :=
  { live with table := live.table.map form }

section Map

variable {form : Element → Element} (hform : ∀ element, (form element).language = element.language)
  (live : LiveLexers)

include hform

theorem map_contains (id : LanguageId) : (live.map form).contains id = live.contains id := by
  simp only [contains, map, List.any_map, Function.comp_def, hform]

theorem map_get? (id : LanguageId) : (live.map form).get? id = (live.get? id).map form := by
  simp only [get?, map, List.find?_map, Function.comp_def, hform]

theorem map_insert (element : Element) :
    (live.insert element).map form = (live.map form).insert (form element) := by
  simp only [insert, map_contains hform, hform]
  split
  · rfl
  · simp [map, List.map_append]

theorem map_erase (id : LanguageId) : (live.erase id).map form = (live.map form).erase id := by
  simp only [erase, map, List.filter_map, Function.comp_def, hform]

theorem map_update (id : LanguageId) {change : Element → Element}
    (hchange : ∀ element, form (change element) = change (form element)) :
    (live.update id change).map form = (live.map form).update id change := by
  simp only [update, map, List.map_map, LiveLexers.mk.injEq, and_true]
  apply List.map_congr_left
  intro element _
  simp only [Function.comp_apply, hform]
  split
  · exact hchange element
  · rfl

end Map

end LiveLexers

def Element.unparsed (element : Element) : Element :=
  { element with parser? := none }

theorem Element.unparsed_language (element : Element) :
    element.unparsed.language = element.language := rfl

namespace LiveLexers

variable (live : LiveLexers)

def unparsed : LiveLexers :=
  live.map Element.unparsed

@[simp]
theorem unparsed_unparsed : live.unparsed.unparsed = live.unparsed := by
  simp only [unparsed, map, List.map_map]
  rfl

theorem unparsed_contains (id : LanguageId) : live.unparsed.contains id = live.contains id :=
  live.map_contains Element.unparsed_language id

theorem unparsed_get? (id : LanguageId) :
    live.unparsed.get? id = (live.get? id).map Element.unparsed :=
  live.map_get? Element.unparsed_language id

theorem unparsed_insert (element : Element) :
    (live.insert element).unparsed = live.unparsed.insert element.unparsed :=
  live.map_insert Element.unparsed_language element

theorem unparsed_erase (id : LanguageId) :
    (live.erase id).unparsed = live.unparsed.erase id :=
  live.map_erase Element.unparsed_language id

theorem unparsed_update (id : LanguageId) (change : Element → Element)
    (hchange : ∀ element, (change element).unparsed = change element.unparsed) :
    (live.update id change).unparsed = live.unparsed.update id change :=
  live.map_update Element.unparsed_language id hchange

theorem unparsed_setParser (id : LanguageId) (parser : RunningParser) :
    (live.update id (Element.setParser · parser)).unparsed = live.unparsed := by
  simp only [update, unparsed, map, List.map_map, LiveLexers.mk.injEq, and_true]
  apply List.map_congr_left
  intro element _
  simp only [Function.comp_apply]
  split <;> rfl

end LiveLexers

namespace Run

def scanning (run : Run) : Run :=
  { run with live := run.live.unparsed, bridge := false, pending := #[], emitter := {} }

section Rendering

variable (job : Job) (run : Run)

@[simp]
theorem flush_scanning : (run.flush job).scanning = run.scanning := rfl

@[simp]
theorem queue_scanning (kind : TokenKind) : (run.queue kind).scanning = run.scanning := rfl

@[simp]
theorem abandonParsers_scanning : run.abandonParsers.scanning = run.scanning := rfl

@[simp]
theorem flushIfFull_scanning : (run.flushIfFull job).scanning = run.scanning := by
  unfold flushIfFull
  split
  · exact flush_scanning job run
  · rfl

@[simp]
theorem consultParser_scanning (kind : TokenKind) :
    (run.consultParser job kind).scanning = run.scanning := by
  have hfed (parser : RunningParser) (pending : Array Span) :
      { run with
        live := run.live.update run.active (Element.setParser · parser)
        pending := pending }.scanning = run.scanning := by
    simp only [scanning, LiveLexers.unparsed_setParser]
  unfold consultParser
  split
  · rfl
  · dsimp only
    split
    · exact hfed _ _
    · rw [abandonParsers_scanning]
      exact hfed _ _

@[simp]
theorem token_scanning (kind : TokenKind) : (run.token job kind).scanning = run.scanning := by
  unfold token
  split
  · rfl
  · simp only [flushIfFull_scanning, consultParser_scanning, queue_scanning]

theorem unterminated_scanning :
    (run.unterminated job).scanning =
      { run.scanning with text := if run.cursor ≤ run.text then run.text else run.cursor } := by
  unfold unterminated
  split
  · rfl
  · have hflush := flushIfFull_scanning job (run.queue .text)
    exact congrArg (fun scanning => { scanning with text := run.cursor }) hflush

theorem fallback_scanning (delegation : Delegation) :
    (run.fallback job delegation).scanning =
      { run.scanning with
        cursor :=
          if delegation.mode = .full ∧ run.cursor = run.text then run.limit else run.cursor } := by
  simp only [fallback, token_scanning]
  split <;> rfl

end Rendering

section Moving

variable (job : Job) (run : Run)

theorem refuses_scanning (target : LanguageId) :
    run.scanning.refuses target = run.refuses target := by
  simp only [refuses, scanning, LiveLexers.unparsed_contains]
  rfl

theorem enter_scanning (delegation : Delegation) :
    (run.enter job delegation).scanning = (run.scanning.enter job delegation).scanning := by
  have hcontains : run.scanning.live.contains delegation.target =
      run.live.contains delegation.target :=
    run.live.unparsed_contains delegation.target
  simp only [enter, hcontains]
  split
  · simp only [scanning, flush, LiveLexers.unparsed_unparsed]
  · -- A new lexer is the same one whether or not it comes with a parser.
    simp only [scanning, flush, activate, LiveLexers.unparsed_insert, LiveLexers.unparsed_unparsed]
    rfl

theorem resumed_scanning (frame : Frame) :
    (run.resumed job frame).scanning = (run.scanning.resumed job frame).scanning := by
  have hresume (live : LiveLexers) (condition : Int) := live.unparsed_update frame.parent
    (fun element => element.setState (element.lexer.state.start condition)) (fun _ => rfl)
  simp only [resumed, scanning, flush]
  cases frame.resume with
  | none => simp only [LiveLexers.unparsed_unparsed]
  | some condition => simp only [hresume, LiveLexers.unparsed_unparsed]

theorem deactivate_scanning (id : LanguageId) :
    (run.deactivate job id).scanning = (run.scanning.deactivate job id).scanning := by
  -- What is finalised with a lexer does not depend on its parser.
  have hreleased : (run.live.unparsed.get? id).map (finalizedBy job) =
      (run.live.get? id).map (finalizedBy job) := by
    rw [LiveLexers.unparsed_get?, Option.map_map]
    rfl
  simp only [deactivate, scanning, LiveLexers.unparsed_erase, LiveLexers.unparsed_unparsed, hreleased]

theorem leave_scanning (frame : Frame) :
    (run.leave job frame).scanning = (run.scanning.leave job frame).scanning := by
  have hresumed := resumed_scanning job run frame
  rw [leave_eq, leave_eq]
  split
  · rw [deactivate_scanning, hresumed, ← deactivate_scanning]
  · exact hresumed

/-- A scan call sees the scanning side only. -/
theorem scan_scanning :
    (run.scan job).map (fun found => (found.1, found.2.scanning)) =
      (run.scanning.scan job).map (fun found => (found.1, found.2.scanning)) := by
  have hget : run.scanning.live.get? run.scanning.active =
      (run.live.get? run.active).map Element.unparsed :=
    run.live.unparsed_get? run.active
  simp only [scan, hget, Option.map_map]
  congr 1
  funext element
  have hstate (live : LiveLexers) (state : ScanState) := live.unparsed_update run.active
    (Element.setState · state) (fun _ => rfl)
  simp only [Function.comp_apply, follow, scanning, hstate, LiveLexers.unparsed_unparsed]
  rfl

end Moving

end Run

end Highlighting

import Highlighting.Proofs.Session.OptionCalls
import Mathlib.Logic.Relation

/-! What the steps of a session do to the lexers that it keeps, said once. A step empties a slot, keeps
a lexer that was made, sets an option of one or puts it into another state; everything else leaves the
lexers alone. -/
namespace Highlighting

namespace Session

/-- What a step can do to the lexers that a session keeps. -/
inductive Change (catalog : Catalog) : Session → Session → Prop
  | aside {before after : Session} (hlexers : after.lexers = before.lexers)
      (hserial : after.nextSerial = before.nextSerial) : Change catalog before after
  | erase (before : Session) (slot : String) : Change catalog before (before.eraseLexer slot)
  | keep (before : Session) (slot : String) {spec : LexerSpec} {lexer : Lexer}
      (hmade : (spec.make catalog).result = .ok lexer) :
      Change catalog before (before.keepLexer slot lexer)
  | set (before : Session) {slot name : String} {kept : KeptLexer}
      {previous value : OptionValue Lexer} {changed : Lexer}
      (hslot : before.lexer? slot = some kept)
      (hset : kept.lexer.setOption (some kept.handle) name value = .ok (previous, changed)) :
      Change catalog before (before.updateLexer slot changed)
  | restate (before : Session) {slot : String} {kept : KeptLexer} {lexer : Lexer}
      (hslot : before.lexer? slot = some kept) (hstate : lexer.stateless = kept.lexer.stateless) :
      Change catalog before (before.updateLexer slot lexer)

def Changes (catalog : Catalog) : Session → Session → Prop :=
  Relation.ReflTransGen (Change catalog)

section Steps

variable (catalog : Catalog) (session : Session)

theorem changes_aside {after : Session} (hlexers : after.lexers = session.lexers)
    (hserial : after.nextSerial = session.nextSerial) : Changes catalog session after :=
  Relation.ReflTransGen.single (.aside hlexers hserial)

theorem record_change (lifetimes : Lifetimes) :
    Change catalog session (session.record lifetimes) :=
  .aside rfl rfl

theorem resolve_changes (given : GivenValue) :
    Changes catalog session (session.resolve catalog given).2 := by
  cases given with
  | plain value => exact .refl
  | own spec =>
    unfold resolve
    dsimp only
    split <;> exact changes_aside catalog session rfl rfl
  | move slot =>
    unfold resolve
    dsimp only
    split
    · exact Relation.ReflTransGen.single (.erase session slot)
    · exact .refl
  | borrow slot =>
    unfold resolve
    dsimp only
    split <;> exact .refl

theorem assign_changes (slot : String)
    {onFormatter : Formatter → Except OptionError (OptionValue Lexer × Formatter)}
    {onLexer : KeptLexer → Except OptionError (OptionValue Lexer × Lexer)}
    (hlexer : ∀ kept previous changed, onLexer kept = .ok (previous, changed) →
      ∃ name value, kept.lexer.setOption (some kept.handle) name value = .ok (previous, changed)) :
    Changes catalog session (session.assign slot onFormatter onLexer).2 := by
  unfold assign
  split
  case h_1 =>
    split
    · exact changes_aside catalog session rfl rfl
    · exact .refl
  case h_2 =>
    split
    case h_1 kept hslot =>
      split
      case h_1 previous changed hanswer =>
        obtain ⟨name, value, hset⟩ := hlexer kept previous changed hanswer
        exact Relation.ReflTransGen.single (.set session hslot hset)
      case h_2 => exact .refl
    case h_2 => exact .refl

theorem setOption_changes (slot name : String) (given : GivenValue) :
    Changes catalog session (session.setOption catalog slot name given).2 := by
  have htaken := session.resolve_changes catalog given
  unfold setOption
  split
  case h_1 reply taken hresolve =>
    rw [hresolve] at htaken
    exact htaken
  case h_2 value taken hresolve =>
    rw [hresolve] at htaken
    -- The value is taken first, and what was taken stays taken.
    refine Relation.ReflTransGen.trans htaken (assign_changes catalog taken slot ?_)
    intro kept previous changed hset
    exact ⟨name, value, hset⟩

theorem setOptionText_changes (slot name text : String) :
    Changes catalog session (session.setOptionText catalog slot name text).2 := by
  refine Relation.ReflTransGen.tail ?_ (record_change catalog _ _)
  apply assign_changes
  intro kept previous changed hset
  obtain ⟨value, -, hvalue⟩ := Lexer.setOptionText_eq_ok hset
  exact ⟨name, value, hvalue⟩

variable {catalog session}

/-- Putting lexers back that differ in their states. A slot may be named twice. -/
theorem restore_changes {entries : List (String × Lexer)}
    (hentries : ∀ entry ∈ entries, ∃ kept, session.lexer? entry.1 = some kept ∧
      entry.2.stateless = kept.lexer.stateless) :
    Changes catalog session
      (entries.foldl (fun session (slot, lexer) => session.updateLexer slot lexer) session) := by
  induction entries generalizing session with
  | nil => exact .refl
  | cons entry rest ih =>
    obtain ⟨⟨kept, hslot, hstate⟩, hrest⟩ := List.forall_mem_cons.mp hentries
    refine Relation.ReflTransGen.head (.restate session hslot hstate) (ih ?_)
    intro other hother
    obtain ⟨before, hbefore, hsame⟩ := hrest other hother
    rw [session.updateLexer_lexer? hslot]
    split
    case isTrue hagain =>
      rw [hagain, hslot] at hbefore
      cases hbefore
      exact ⟨_, rfl, hsame.trans hstate.symm⟩
    case isFalse => exact ⟨before, hbefore, hsame⟩

theorem zip_of_mapM {slots : List String} {kept : List KeptLexer} {lexers : List Lexer}
    (hslots : slots.mapM session.lexer? = some kept)
    (hsame : lexers.map Lexer.stateless = (kept.map KeptLexer.lexer).map Lexer.stateless) :
    ∀ entry ∈ slots.zip lexers, ∃ kept, session.lexer? entry.1 = some kept ∧
      entry.2.stateless = kept.lexer.stateless := by
  induction slots generalizing kept lexers with
  | nil => exact nofun
  | cons slot rest ih =>
    obtain ⟨first, others, hfirst, hothers, rfl⟩ := exists_of_mapM_cons hslots
    cases lexers with
    | nil => exact nofun
    | cons lexer lexers =>
      obtain ⟨hstate, hstates⟩ := List.cons.inj hsame
      exact List.forall_mem_cons.mpr ⟨⟨first, hfirst, hstate⟩, ih hothers hstates⟩

variable (catalog session)

theorem highlight_changes (fuel : Nat) (source : Bytes) (slots : List String)
    (formatter : Sum String FormatterSpec) (config : EngineConfig) :
    Changes catalog session (session.highlight catalog fuel source slots formatter config).2 := by
  unfold highlight
  dsimp only
  split
  case h_1 => exact .refl
  case h_2 made kept _ hslots =>
    split
    case h_1 => exact .refl
    case h_2 => exact .refl
    case h_3 highlighted hreturned =>
      have hrun := attempt_eq_returned hreturned
      -- A run gives the lexers back as they were, but for their states.
      have hentries := zip_of_mapM hslots (highlight_lexers_stateless hrun)
      have hrestored : Changes catalog session (session.restore slots highlighted.lexers) :=
        restore_changes hentries
      have hafter := hrestored.tail (record_change catalog _ highlighted.lifetimes)
      split <;> exact hafter
  case h_3 => exact .refl

theorem perform_changes (fuel : Nat) (step : SessionStep) :
    Changes catalog session (session.perform catalog fuel step).2 := by
  cases step with
  | makeLexer slot spec =>
    simp only [perform, makeLexer]
    split
    case h_1 lexer hmade =>
      have hrecorded := record_change catalog session (spec.make catalog).lifetimes
      exact Relation.ReflTransGen.head hrecorded (.single (.keep _ slot hmade))
    case h_2 => exact changes_aside catalog session rfl rfl
  | makeFormatter slot spec =>
    simp only [perform, makeFormatter]
    split
    · exact changes_aside catalog session rfl rfl
    · exact .refl
  | setOption slot option value => exact session.setOption_changes catalog slot option value
  | setOptionText slot option text => exact session.setOptionText_changes catalog slot option text
  | getOption | listOptions | subLexers => exact .refl
  | destroy slot =>
    simp only [perform, destroy]
    split
    · exact changes_aside catalog session rfl rfl
    · exact Relation.ReflTransGen.head (.erase session slot) (.single (record_change catalog _ _))
    · exact .refl
  | drop slot =>
    simp only [perform, drop]
    split
    · exact changes_aside catalog session rfl rfl
    · exact Relation.ReflTransGen.single (.erase session slot)
  | state slot action? =>
    simp only [perform, changeState]
    split
    case h_1 => exact .refl
    case h_2 kept hslot => exact Relation.ReflTransGen.single (.restate session hslot rfl)
  | highlight source slots formatter config =>
    exact session.highlight_changes catalog fuel source slots formatter config

end Steps

end Session

end Highlighting

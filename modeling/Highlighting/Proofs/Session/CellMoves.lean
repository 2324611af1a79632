import Highlighting.Hosting
import Highlighting.Proofs.Session.SelfReference

/-! Lexers that move between cells. A lexer that is put where a reference of its own leads refers to itself
from then on, and nothing else makes a lexer do so: calls that set options turn such a value down, and a
lexer that was just made has no references. -/
namespace Highlighting

theorem Lexer.holds_eq_false_iff {lexer : Lexer} {handle : LexerHandle} :
    lexer.holds handle = false ↔
      ∀ slot ∈ lexer.options.slots, Lexer.refersTo (some handle) slot.value = false := by
  simp only [holds, List.any_eq_false, Bool.not_eq_true]

namespace Session

section Moves

variable {session : Session} {kept other : KeptLexer} {slot source first second : String}

theorem eraseLexer_lexer? (hother : slot ≠ source) :
    (session.eraseLexer source).lexer? slot = session.lexer? slot :=
  lookup_filter_ne session.lexers hother

/-- The first half of an exchange leaves the second cell with its handle. -/
theorem exists_halfway (hfirst : session.lexer? first = some kept)
    (hsecond : session.lexer? second = some other) :
    ∃ halfway, (session.updateLexer first other.lexer).lexer? second = some halfway ∧
      halfway.handle = other.handle := by
  rw [updateLexer_lexer? session hfirst]
  split
  case isTrue hsame =>
    rw [hsame, hfirst, Option.some.injEq] at hsecond
    refine ⟨_, rfl, ?_⟩
    rw [← hsecond]
  case isFalse => exact ⟨other, hsecond, rfl⟩

/-- Each of two lexers that change places stands in the cell of the other one afterwards. -/
theorem swap_lexer? (hfirst : session.lexer? first = some kept)
    (hsecond : session.lexer? second = some other) :
    (session.swap first second).lexer? first = some ⟨kept.handle, other.lexer⟩ ∧
      (session.swap first second).lexer? second = some ⟨other.handle, kept.lexer⟩ := by
  obtain ⟨halfway, hhalfway, hhandle⟩ := exists_halfway hfirst hsecond
  have hafter (name : String) : (session.swap first second).lexer? name =
      if name = second then some ⟨other.handle, kept.lexer⟩
      else (session.updateLexer first other.lexer).lexer? name := by
    simp only [swap, hfirst, hsecond]
    rw [updateLexer_lexer? _ hhalfway, hhandle]
  rw [hafter, hafter, if_pos rfl]
  refine ⟨?_, rfl⟩
  split
  case isTrue hsame =>
    rw [hsame, hsecond, Option.some.injEq] at hfirst
    rw [hfirst]
  case isFalse => rw [updateLexer_lexer? session hfirst, if_pos rfl]

variable {catalog : Catalog} {fuel : Nat} {step : HostStep}

theorem Keyed.exists_of_mem_moved (h : session.Keyed) {handle : LexerHandle} {lexer : Lexer}
    (hmoved : (handle, lexer) ∈ session.moved step) :
    (session.carryOut catalog fuel step).Keyed ∧
      ∃ slot, (session.carryOut catalog fuel step).lexer? slot = some ⟨handle, lexer⟩ := by
  cases step with
  | session step => cases hmoved
  | rehouse slot =>
    simp only [moved] at hmoved
    split at hmoved
    case h_1 kept hslot =>
      obtain ⟨rfl, rfl⟩ := Prod.mk.inj (List.mem_singleton.mp hmoved)
      simp only [carryOut, rehouse, hslot]
      exact ⟨h.keepLexer slot kept.lexer, slot, List.lookup_cons_self⟩
    case h_2 => cases hmoved
  | replace slot source =>
    simp only [moved] at hmoved
    split at hmoved
    case h_1 kept other hslot hsource =>
      split at hmoved
      case isTrue => cases hmoved
      case isFalse hother =>
        obtain ⟨rfl, rfl⟩ := Prod.mk.inj (List.mem_singleton.mp hmoved)
        have hkept := (eraseLexer_lexer? hother).trans hslot
        simp only [carryOut, replace, hslot, hsource, if_neg hother]
        refine ⟨(h.eraseLexer source).updateLexer slot other.lexer, slot, ?_⟩
        rw [updateLexer_lexer? _ hkept, if_pos rfl]
    case h_2 => cases hmoved
  | swap first second =>
    simp only [moved] at hmoved
    split at hmoved
    case h_1 kept other hfirst hsecond =>
      have hkeyed : (session.swap first second).Keyed := by
        simp only [swap, hfirst, hsecond]
        exact (h.updateLexer first other.lexer).updateLexer second kept.lexer
      obtain ⟨hone, htwo⟩ := swap_lexer? hfirst hsecond
      refine ⟨hkeyed, ?_⟩
      rcases List.mem_pair.mp hmoved with hentry | hentry
      · obtain ⟨rfl, rfl⟩ := Prod.mk.inj hentry
        exact ⟨first, hone⟩
      · obtain ⟨rfl, rfl⟩ := Prod.mk.inj hentry
        exact ⟨second, htwo⟩
    case h_2 => cases hmoved

/-- A step that puts no lexer where a reference of its own leads keeps all lexers from referring to
themselves. -/
theorem Selfless.carryOut (h : session.Selfless)
    (hmoved : ∀ entry ∈ session.moved step, entry.2.holds entry.1 = false) :
    (session.carryOut catalog fuel step).Selfless := by
  cases step with
  | session step => exact h.changes (session.perform_changes catalog fuel step)
  | rehouse slot =>
    simp only [moved] at hmoved
    simp only [Session.carryOut, rehouse]
    split
    case h_1 kept hslot =>
      simp only [hslot, List.forall_mem_singleton] at hmoved
      exact h.keepLexer slot (Lexer.holds_eq_false_iff.mp hmoved)
    case h_2 => exact h
  | replace slot source =>
    simp only [moved] at hmoved
    simp only [Session.carryOut, replace]
    split
    case h_1 kept other hslot hsource =>
      split
      case isTrue => exact h
      case isFalse hother =>
        simp only [hslot, hsource, if_neg hother, List.forall_mem_singleton] at hmoved
        have hkept := (eraseLexer_lexer? hother).trans hslot
        exact (h.eraseLexer source).updateLexer hkept (Lexer.holds_eq_false_iff.mp hmoved)
    case h_2 => exact h
  | swap first second =>
    simp only [moved] at hmoved
    simp only [Session.carryOut, swap]
    split
    case h_1 kept other hfirst hsecond =>
      simp only [hfirst, hsecond, List.forall_mem_cons, List.not_mem_nil] at hmoved
      obtain ⟨hone, htwo, -⟩ := hmoved
      obtain ⟨halfway, hhalfway, hhandle⟩ := exists_halfway hfirst hsecond
      apply (h.updateLexer hfirst (Lexer.holds_eq_false_iff.mp hone)).updateLexer hhalfway
      rw [hhandle]
      exact Lexer.holds_eq_false_iff.mp htwo
    case h_2 => exact h

theorem Selfless.carryOutAll (h : session.Selfless) {steps : List HostStep}
    (hdiscreet : session.discreet catalog fuel steps = true) :
    (session.carryOutAll catalog fuel steps).Selfless := by
  induction steps generalizing session with
  | nil => exact h
  | cons step rest ih =>
    rw [discreet, Bool.and_eq_true, List.all_eq_true] at hdiscreet
    refine ih (h.carryOut ?_) hdiscreet.2
    intro entry hentry
    simpa using hdiscreet.1 entry hentry

/-- What makes a lexer refer to itself is that it is put where a reference of its own leads. -/
theorem Selfless.selfReferring_carryOut_iff (h : session.Selfless) :
    (∃ address, (session.carryOut catalog fuel step).SelfReferring address) ↔
      ∃ entry ∈ session.moved step, entry.2.holds entry.1 = true := by
  constructor
  · rintro ⟨address, hself⟩
    apply Classical.byContradiction
    intro hnone
    refine (h.carryOut ?_).not_selfReferring address hself
    intro entry hentry
    exact Bool.eq_false_iff.mpr (fun hholds => hnone ⟨entry, hentry, hholds⟩)
  · rintro ⟨⟨handle, lexer⟩, hmoved, hholds⟩
    obtain ⟨hkeyed, slot, hslot⟩ := h.toKeyed.exists_of_mem_moved hmoved
    obtain ⟨held, hmem, hrefers⟩ := List.any_eq_true.mp hholds
    exact ⟨_, hkeyed.selfReferring hslot hmem hrefers⟩

end Moves

end Session

/-- Whatever happens in a session, and however its lexers move between cells as long as none is put where
a reference of its own leads, no instance that can be reached, kept or owned by others however deep,
holds a reference that resolves to that very instance. A step that does put a lexer there makes it refer
to itself, and no other step does. Setting a declared option of a lexer to a value of its type is refused
exactly if the lexer would then refer to itself; the session is then as it was. Every other such call
stores the value and hands back the one before. -/
theorem no_lexer_refers_to_itself (catalog : Catalog) (fuel : Nat) (steps : List HostStep)
    (hdiscreet : Session.discreet catalog fuel {} steps = true) :
    let session := Session.carryOutAll catalog fuel {} steps
    (session.lexers.map (fun entry => entry.2.handle)).Nodup ∧
    (∀ address, ¬ session.SelfReferring address) ∧
    (∀ step, (∃ address, (session.carryOut catalog fuel step).SelfReferring address) ↔
      ∃ entry ∈ session.moved step, entry.2.holds entry.1 = true) ∧
    ∀ slot name given value taken kept declaration,
      session.resolve catalog given = (.ok value, taken) → taken.formatter? slot = none →
      taken.lexer? slot = some kept → kept.lexer.options.declaration? name = some declaration →
      value.kind = declaration.kind →
      let stored := taken.updateLexer slot
        { kept.lexer with options := ⟨OptionSet.store name value kept.lexer.options.slots⟩ }
      ((∃ address, stored.SelfReferring address) →
        session.setOption catalog slot name given = (.refused (.invalidOption name), session)) ∧
      ((∀ address, ¬ stored.SelfReferring address) →
        ∃ previous, kept.lexer.options.get? name = some previous ∧
          session.setOption catalog slot name given = (.previous previous, stored)) := by
  have hempty : Session.Selfless {} := ⟨⟨List.nodup_nil, List.nodup_nil, nofun⟩, nofun⟩
  have hselfless := hempty.carryOutAll hdiscreet
  refine ⟨hselfless.handles, hselfless.not_selfReferring, fun _ => hselfless.selfReferring_carryOut_iff, ?_⟩
  intro slot name given value taken kept declaration hresolve hnone hslot hdeclared hkind
  exact hselfless.setOption hresolve hnone hslot hdeclared hkind

def Session.entangling : List HostStep :=
  [.session (.makeLexer "outer" (.language .diff)), .session (.makeLexer "inner" (.language .diff)),
    .session (.setOption "inner" "content" (.borrow "outer")), .rehouse "inner",
    .session (.setOption "outer" "content" (.move "inner"))]

/-- That two lexers refer to each other is fine, and that one refers to itself is not. -/
theorem entangled_self_reference_refused :
    let entangled := Session.carryOutAll .relay 0 {} Session.entangling
    (∃ inner slot, entangled.instance? ⟨⟨0⟩, [0]⟩ = some inner ∧
      inner.options.slots[0]? = some slot ∧ slot.value = .lexer (some (.borrowed ⟨0⟩)) ∧
      entangled.target? ⟨⟨0⟩, [0]⟩ 0 (.borrowed ⟨0⟩) = some ⟨⟨0⟩, []⟩) ∧
    entangled.setOption .relay "outer" "content" (.borrow "outer") =
      (.refused (.invalidOption "content"), entangled) := by
  refine ⟨⟨_, _, rfl, rfl, rfl, rfl⟩, ?_⟩
  obtain ⟨-, -, -, hcalls⟩ := no_lexer_refers_to_itself .relay 0 Session.entangling rfl
  refine (hcalls "outer" "content" (.borrow "outer") (.lexer (some (.borrowed ⟨0⟩)))
    (Session.carryOutAll .relay 0 {} Session.entangling) _ _ rfl rfl rfl rfl rfl).1 ?_
  exact ⟨⟨⟨0⟩, []⟩, _, 0, _, .borrowed ⟨0⟩, rfl, rfl, rfl, rfl⟩

def Format.framing : Format where
  name := "Framing"
  options := [{ name := "content", default := .lexer, doc := "" }]
  render _ _ := #[]

/-- A lexer that is assigned to the cell to which it refers, one that refers to a cell before it moves
there, and a formatter, which takes no lexer. -/
theorem moved_lexer_refers_to_itself :
    (Session.carryOutAll .relay 0 {}
      [.session (.makeLexer "a" (.language .diff)), .session (.makeLexer "b" (.language .diff)),
        .session (.setOption "b" "content" (.borrow "a")), .replace "a" "b"]).SelfReferring ⟨⟨0⟩, []⟩ ∧
    (Session.carryOutAll .relay 0 {}
      [.session (.makeLexer "a" (.language .diff)),
        .session (.setOption "a" "content" (.plain (.lexer (some (.borrowed ⟨1⟩))))),
        .rehouse "a"]).SelfReferring ⟨⟨1⟩, []⟩ ∧
    (Session.setOption .relay { formatters := [("f", Formatter.create .framing)] } "f" "content"
      (.own (.language .text))).1 = .refused (.invalidValue "content" "Lexer(Some(Owned(Text)))") := by
  refine ⟨?_, ?_, rfl⟩
  · exact ⟨_, 0, _, .borrowed ⟨0⟩, rfl, rfl, rfl, rfl⟩
  · exact ⟨_, 0, _, .borrowed ⟨1⟩, rfl, rfl, rfl, rfl⟩

end Highlighting

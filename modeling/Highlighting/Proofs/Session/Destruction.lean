import Highlighting.Proofs.Session.SelfReference
import Mathlib.Algebra.GroupWithZero.Nat

/-! What the destruction of a lexer comes to. All the lexers that are held in the options of a lexer, and
in the options of the lexers that it owns, are listed with the places that lead to them; destroying the
lexer goes through that list once. -/
namespace Highlighting

/-- A lexer that is held in an option, with the places that lead there: the last one is that of the option,
and each of the others is that of an option that owns the next lexer. -/
structure HeldLexer where
  path : List Nat
  sub : SubLexer Lexer

namespace HeldLexer

def below (place : Nat) (held : HeldLexer) : HeldLexer :=
  ⟨place :: held.path, held.sub⟩

def owned? (held : HeldLexer) : Option Lexer :=
  match held.sub with
  | .owned lexer => some lexer
  | .borrowed _ => none

mutual

def inLexer : Lexer → List HeldLexer
  | ⟨_, ⟨slots⟩, _⟩ => inSlots 0 slots

def inSlots : Nat → List (OptionSlot Lexer) → List HeldLexer
  | _, [] => []
  | place, ⟨_, value⟩ :: rest => (inValue value).map (below place) ++ inSlots (place + 1) rest

def inValue : OptionValue Lexer → List HeldLexer
  | .lexer (some (.owned lexer)) => ⟨[], .owned lexer⟩ :: inLexer lexer
  | .lexer (some (.borrowed handle)) => [⟨[], .borrowed handle⟩]
  | _ => []

end

end HeldLexer

def ownedLexers (held : List HeldLexer) : List Lexer :=
  held.filterMap HeldLexer.owned?

def Lexer.Holds (lexer : Lexer) (held : HeldLexer) : Prop :=
  ∃ front place holder, held.path = front ++ [place] ∧ lexer.descend? front = some holder ∧
    (holder.options.slots[place]?).bind (fun slot => slot.value.subLexer?) = some held.sub

/-- What holds of the lexers that a lexer owns directly and then of it holds of all lexers. -/
theorem Lexer.ownedInduction {P : Lexer → Prop}
    (step : ∀ lexer, (∀ slot ∈ lexer.options.slots, ∀ inner,
      slot.value.subLexer? = some (.owned inner) → P inner) → P lexer) (lexer : Lexer) : P lexer :=
  @Lexer.rec P
    (fun options => ∀ slot ∈ options.slots, ∀ inner, slot.value.subLexer? = some (.owned inner) → P inner)
    (fun slots => ∀ slot ∈ slots, ∀ inner, slot.value.subLexer? = some (.owned inner) → P inner)
    (fun slot => ∀ inner, slot.value.subLexer? = some (.owned inner) → P inner)
    (fun value => ∀ inner, value.subLexer? = some (.owned inner) → P inner)
    (fun sub? => ∀ inner, sub? = some (.owned inner) → P inner)
    (fun sub => ∀ inner, sub = .owned inner → P inner)
    (fun language options state howned => step ⟨language, options, state⟩ howned)
    (fun _ howned => howned) nofun
    (fun _ _ hfirst hrest => List.forall_mem_cons.mpr ⟨hfirst, hrest⟩)
    (fun _ _ howned => howned) nofun nofun nofun (fun _ howned => howned) nofun nofun
    (fun _ howned inner hsome => howned inner (Option.some.inj hsome))
    (fun _ hlexer _ hsame => SubLexer.owned.inj hsame ▸ hlexer) nofun lexer

section Lists

variable {held : HeldLexer} {place : Nat} {slots : List (OptionSlot Lexer)}

theorem HeldLexer.mem_inValue (value : OptionValue Lexer) :
    held ∈ inValue value ↔
      held.path = [] ∧ value.subLexer? = some held.sub ∨
        ∃ inner, value.subLexer? = some (.owned inner) ∧ held ∈ inLexer inner := by
  obtain ⟨path, sub⟩ := held
  cases value with
  | lexer sub? =>
    rcases sub? with _ | ⟨lexer | handle⟩
    · simp [inValue, OptionValue.subLexer?]
    · simp [inValue, OptionValue.subLexer?, eq_comm]
    · simp [inValue, OptionValue.subLexer?, eq_comm]
  | _ => simp [inValue, OptionValue.subLexer?]

theorem HeldLexer.mem_inSlots :
    held ∈ inSlots place slots ↔ ∃ offset rest slot, held.path = (place + offset) :: rest ∧
      slots[offset]? = some slot ∧ ⟨rest, held.sub⟩ ∈ inValue slot.value := by
  induction slots generalizing place with
  | nil => simp [inSlots]
  | cons slot slots ih =>
    rw [inSlots, List.mem_append, ih, List.mem_map]
    constructor
    · rintro (⟨inside, hinside, rfl⟩ | ⟨offset, rest, found, hpath, hfound, hmem⟩)
      · exact ⟨0, inside.path, slot, rfl, rfl, hinside⟩
      · refine ⟨offset + 1, rest, found, ?_, hfound, hmem⟩
        rw [hpath, Nat.add_assoc, Nat.add_comm 1]
    · rintro ⟨offset, rest, found, hpath, hfound, hmem⟩
      cases offset with
      | zero =>
        obtain rfl := Option.some.inj hfound
        refine Or.inl ⟨⟨rest, held.sub⟩, hmem, ?_⟩
        rw [Nat.add_zero] at hpath
        rw [below, ← hpath]
      | succ offset =>
        refine Or.inr ⟨offset, rest, found, ?_, hfound, hmem⟩
        rw [hpath, Nat.add_assoc, Nat.add_comm 1]

theorem HeldLexer.mem_inLexer_cons {lexer : Lexer} {rest : List Nat} {sub : SubLexer Lexer} :
    ⟨place :: rest, sub⟩ ∈ inLexer lexer ↔
      ∃ slot, lexer.options.slots[place]? = some slot ∧ ⟨rest, sub⟩ ∈ inValue slot.value := by
  obtain ⟨language, ⟨slots⟩, state⟩ := lexer
  rw [inLexer, mem_inSlots]
  constructor
  · rintro ⟨offset, rest', slot, hpath, hslot, hmem⟩
    obtain ⟨rfl, rfl⟩ := List.cons.inj hpath
    rw [Nat.zero_add]
    exact ⟨slot, hslot, hmem⟩
  · rintro ⟨slot, hslot, hmem⟩
    exact ⟨place, rest, slot, by rw [Nat.zero_add], hslot, hmem⟩

/-- The first place of a path leads to the option itself, or to the lexer that holds it. -/
theorem Lexer.holds_cons {lexer : Lexer} {rest : List Nat} {sub : SubLexer Lexer} :
    lexer.Holds ⟨place :: rest, sub⟩ ↔ ∃ slot, lexer.options.slots[place]? = some slot ∧
      (rest = [] ∧ slot.value.subLexer? = some sub ∨
        ∃ inner, slot.value.subLexer? = some (.owned inner) ∧ inner.Holds ⟨rest, sub⟩) := by
  constructor
  · rintro ⟨front, last, holder, hpath, hdescend, hsub⟩
    cases front with
    | nil =>
      obtain ⟨rfl, rfl⟩ := List.cons.inj hpath
      cases hdescend
      obtain ⟨slot, hslot, hvalue⟩ := Option.bind_eq_some_iff.mp hsub
      exact ⟨slot, hslot, .inl ⟨rfl, hvalue⟩⟩
    | cons first front =>
      obtain ⟨rfl, rfl⟩ := List.cons.inj hpath
      rw [descend?] at hdescend
      split at hdescend
      case h_2 => cases hdescend
      case h_1 inner hinner =>
        obtain ⟨slot, hslot, hvalue⟩ := Option.bind_eq_some_iff.mp hinner
        exact ⟨slot, hslot, .inr ⟨inner, hvalue, front, last, holder, rfl, hdescend, hsub⟩⟩
  · rintro ⟨slot, hslot, ⟨rfl, hvalue⟩ | ⟨inner, hvalue, front, last, holder, hpath, hdescend, hsub⟩⟩
    · exact ⟨[], place, lexer, rfl, rfl, Option.bind_eq_some_iff.mpr ⟨slot, hslot, hvalue⟩⟩
    · refine ⟨place :: front, last, holder, congrArg (place :: ·) hpath, ?_, hsub⟩
      rw [descend?, hslot, Option.bind_some, hvalue]
      exact hdescend

/-- All lexers that are held are in the list, and nothing else is. -/
theorem HeldLexer.mem_inLexer (lexer : Lexer) (held : HeldLexer) :
    held ∈ inLexer lexer ↔ lexer.Holds held := by
  obtain ⟨path, sub⟩ := held
  -- Along the path, from the lexer at hand to the one that holds the option.
  induction path generalizing lexer with
  | nil =>
    constructor
    · intro hmem
      obtain ⟨language, ⟨slots⟩, state⟩ := lexer
      rw [inLexer, mem_inSlots] at hmem
      obtain ⟨_, _, _, hpath, -⟩ := hmem
      cases hpath
    · rintro ⟨front, last, holder, hpath, -⟩
      exact absurd hpath.symm (List.append_ne_nil_of_right_ne_nil front (List.cons_ne_nil last []))
  | cons place rest ih =>
    rw [mem_inLexer_cons, Lexer.holds_cons]
    apply exists_congr
    intro slot
    rw [mem_inValue]
    simp only [ih]

theorem HeldLexer.inSlots_ordered
    (hinner : ∀ slot ∈ slots, (inValue slot.value).Pairwise (fun first second => first.path < second.path)) :
    (inSlots place slots).Pairwise (fun first second => first.path < second.path) := by
  induction slots generalizing place with
  | nil => exact List.Pairwise.nil
  | cons slot slots ih =>
    obtain ⟨hslot, hslots⟩ := List.forall_mem_cons.mp hinner
    rw [inSlots, List.pairwise_append, List.pairwise_map]
    refine ⟨hslot.imp (fun hless => List.cons_lt_cons_iff.mpr (.inr ⟨rfl, hless⟩)), ih hslots, ?_⟩
    intro first hfirst second hsecond
    obtain ⟨inside, -, rfl⟩ := List.mem_map.mp hfirst
    obtain ⟨offset, rest, -, hpath, -⟩ := mem_inSlots.mp hsecond
    rw [hpath]
    exact List.cons_lt_cons_iff.mpr (.inl (by omega))

theorem HeldLexer.inLexer_ordered (lexer : Lexer) :
    (inLexer lexer).Pairwise (fun first second => first.path < second.path) := by
  induction lexer using Lexer.ownedInduction with
  | step lexer ih =>
    obtain ⟨language, ⟨slots⟩, state⟩ := lexer
    rw [inLexer]
    apply inSlots_ordered
    intro slot hslot
    have hinner := ih slot hslot
    cases hvalue : slot.value with
    | lexer sub? =>
      rcases sub? with _ | ⟨inner | handle⟩
      · exact List.Pairwise.nil
      · rw [inValue, List.pairwise_cons]
        refine ⟨?_, hinner inner (by rw [hvalue]; rfl)⟩
        intro entry hentry
        obtain ⟨front, last, -, hpath, -⟩ := (mem_inLexer inner entry).mp hentry
        rw [hpath]
        cases front <;> exact List.nil_lt_cons _ _
      · exact List.pairwise_singleton _ _
    | _ => exact List.Pairwise.nil

end Lists

section Release

variable {host : Host}

/-- What becomes of the lexers that are held, in the order of a list: all that resolve are met, and those
that are owned are finalised and give up their texts. -/
def releaseAll (host : Host) (held : List HeldLexer) : Released where
  texts := ((ownedLexers held).map (·.options.ownedTexts)).sum
  subLexers := (ownedLexers held).length
  seen := held.filterMap (·.sub.language? host)
  finalized := (ownedLexers held).map Lexer.language

theorem releaseAll_append (first second : List HeldLexer) :
    releaseAll host (first ++ second) = releaseAll host first ++ releaseAll host second := by
  change _ = Released.append _ _
  simp [releaseAll, ownedLexers, Released.append]

theorem releaseAll_below (place : Nat) (held : List HeldLexer) :
    releaseAll host (held.map (HeldLexer.below place)) = releaseAll host held := by
  have howned : HeldLexer.owned? ∘ HeldLexer.below place = HeldLexer.owned? := rfl
  simp only [releaseAll, ownedLexers, List.filterMap_map, howned]
  rfl

def Lexer.ownRelease (lexer : Lexer) : Released where
  texts := lexer.options.ownedTexts
  finalized := [lexer.language]

theorem Released.gather (texts more : Nat) (first second : Released) :
    ({ texts := texts } ++ first) ++ ({ texts := more } ++ second) =
      ({ texts := texts + more } ++ (first ++ second) : Released) := by
  change Released.append (.append _ _) (.append _ _) = Released.append _ (.append _ _)
  simp only [Released.append, Released.mk.injEq, List.nil_append, Nat.zero_add, and_true]
  omega

/-- An owned lexer is met, and then gives up what is its own and what it holds. -/
theorem Lexer.releaseValue_eq {value : OptionValue Lexer}
    (hinner : ∀ inner, value.subLexer? = some (.owned inner) →
      inner.destroy host = inner.ownRelease ++ releaseAll host (HeldLexer.inLexer inner)) :
    releaseValue host value = { texts := if value.isOwnedText then 1 else 0 } ++
      releaseAll host (HeldLexer.inValue value) := by
  cases value with
  | lexer sub? =>
    rcases sub? with _ | ⟨inner | handle⟩
    · rfl
    · rw [releaseValue, hinner inner rfl, HeldLexer.inValue]
      change Released.append _ (.append _ _) = Released.append _ _
      simp [Released.append, releaseAll, ownedLexers, HeldLexer.owned?, ownRelease,
        OptionValue.isOwnedText, SubLexer.language?, Nat.add_comm]
    · rw [releaseValue, HeldLexer.inValue]
      change _ = Released.append _ _
      have hseen : [HeldLexer.mk [] (.borrowed handle)].filterMap (fun entry => entry.sub.language? host) =
          (host handle).toList := by
        cases hhandle : host handle <;> simp [SubLexer.language?, hhandle]
      have hnone : ownedLexers [HeldLexer.mk [] (.borrowed handle)] = [] := rfl
      simp [Released.append, releaseAll, OptionValue.isOwnedText, hseen, hnone]
  | text text => cases text <;> rfl
  | _ => rfl

theorem Lexer.releaseSlots_eq {slots : List (OptionSlot Lexer)} (place : Nat)
    (hinner : ∀ slot ∈ slots, ∀ inner, slot.value.subLexer? = some (.owned inner) →
      inner.destroy host = inner.ownRelease ++ releaseAll host (HeldLexer.inLexer inner)) :
    releaseSlots host slots = { texts := slots.countP (·.value.isOwnedText) } ++
      releaseAll host (HeldLexer.inSlots place slots) := by
  induction slots generalizing place with
  | nil => rfl
  | cons slot slots ih =>
    obtain ⟨hslot, hslots⟩ := List.forall_mem_cons.mp hinner
    rw [releaseSlots, releaseValue_eq hslot, ih (place + 1) hslots, Released.gather, HeldLexer.inSlots,
      releaseAll_append, releaseAll_below, List.countP_cons, Nat.add_comm]

theorem Lexer.destroy_eq (host : Host) (lexer : Lexer) :
    lexer.destroy host = lexer.ownRelease ++ releaseAll host (HeldLexer.inLexer lexer) := by
  induction lexer using Lexer.ownedInduction with
  | step lexer ih =>
    obtain ⟨language, ⟨slots⟩, state⟩ := lexer
    rw [destroy, releaseSlots_eq 0 ih, HeldLexer.inLexer]
    change Released.append _ (.append _ _) = Released.append _ _
    simp [Released.append, ownRelease, OptionSet.ownedTexts]

/-- What is finalised is what is owned, whatever the host lends out. -/
theorem Lexer.destroy_finalized (host host' : Host) (lexer : Lexer) :
    (lexer.destroy host).finalized = (lexer.destroy host').finalized := by
  rw [destroy_eq, destroy_eq]
  rfl

end Release

/-- The lexers that a lexer and those it owns hold, each once and in the order of a walk that goes through
the options of a lexer one by one and from each into the lexer that it owns. -/
structure Lexer.Lists (lexer : Lexer) (held : List HeldLexer) : Prop where
  complete : ∀ entry, entry ∈ held ↔ lexer.Holds entry
  ordered : held.Pairwise (fun first second => first.path < second.path)

/-- Destroying a lexer accounts for all lexers that are held: those that can be reached are met one after
the other, and the lexer and those that are owned, whatever their depth, are finalised once and give up
their texts; lexers that are borrowed are not. -/
theorem Lexer.destroy_accounts (host : Host) (lexer : Lexer) :
    ∃ held, lexer.Lists held ∧
      (lexer.destroy host).texts =
        ((lexer :: ownedLexers held).map (fun owned => owned.options.ownedTexts)).sum ∧
      (lexer.destroy host).subLexers = (ownedLexers held).length ∧
      (lexer.destroy host).finalized = (lexer :: ownedLexers held).map Lexer.language ∧
      (lexer.destroy host).seen = held.filterMap (fun entry => entry.sub.language? host) := by
  refine ⟨HeldLexer.inLexer lexer,
    ⟨HeldLexer.mem_inLexer lexer, HeldLexer.inLexer_ordered lexer⟩, ?_⟩
  rw [destroy_eq]
  change (Released.append _ _).texts = _ ∧ (Released.append _ _).subLexers = _ ∧
    (Released.append _ _).finalized = _ ∧ (Released.append _ _).seen = _
  simp [Released.append, ownRelease, releaseAll]

end Highlighting

import Highlighting.Proofs.Session.Changes
import Mathlib.Data.List.Nodup

/-! No lexer refers to itself. Lexers that are kept have handles of their own, which no other lexer ever
has; a lexer that moves into an option gives its handle up, so a reference that still resolves leads to
a lexer that is kept, and never to one that is owned. What remains is a kept lexer with a reference to
its own handle, and the call that sets an option turns that down and nothing else. -/
namespace Highlighting

def Lexer.descend? : Lexer → List Nat → Option Lexer
  | lexer, [] => some lexer
  | lexer, place :: rest =>
    match (lexer.options.slots[place]?).bind (fun slot => slot.value.subLexer?) with
    | some (.owned inner) => inner.descend? rest
    | _ => none

def Lexer.Unborrowed (lexer : Lexer) : Prop :=
  ∀ slot ∈ lexer.options.slots, ∀ self?, Lexer.refersTo self? slot.value = false

section Making

variable {catalog : Catalog} {self? : Option LexerHandle} {lexer changed made : Lexer}
  {name text : String} {previous value : OptionValue Lexer}

theorem Lexer.setOption_not_refersTo
    (hset : lexer.setOption self? name value = .ok (previous, changed)) :
    Lexer.refersTo self? value = false := by
  unfold setOption at hset
  split at hset
  case h_1 => cases hset
  case h_2 =>
    split at hset
    case isTrue => cases hset
    case isFalse hrefers => exact Bool.eq_false_iff.mpr hrefers

theorem OptionDeclaration.read_not_refersTo {declaration : OptionDeclaration} {lexers : LexerValues}
    (hread : declaration.read catalog text lexers = .ok value) :
    Lexer.refersTo self? value = false := by
  unfold OptionDeclaration.read at hread
  dsimp only at hread
  split at hread
  case h_1 | h_2 | h_4 =>
    split at hread
    · cases hread
      rfl
    · cases hread
  case h_3 =>
    cases hread
    rfl
  case h_5 =>
    split at hread
    case h_1 => cases hread
    case h_2 =>
      split at hread
      · cases hread
        rfl
      · cases hread

theorem Lexer.create_unborrowed (catalog : Catalog) (id : LanguageId) :
    (Lexer.create catalog id).Unborrowed := by
  intro slot hslot self?
  obtain ⟨declaration, -, rfl⟩ := List.mem_map.mp hslot
  cases declaration.default <;> rfl

theorem Lexer.Unborrowed.configure {pairs : List (String × String)} {lifetimes : Lifetimes}
    (h : lexer.Unborrowed) (hmade : (lexer.configure catalog lifetimes pairs).result = .ok made) :
    made.Unborrowed := by
  induction pairs generalizing lexer lifetimes with
  | nil =>
    cases hmade
    exact h
  | cons pair rest ih =>
    unfold Lexer.configure at hmade
    dsimp only at hmade
    split at hmade
    case h_1 => cases hmade
    case h_2 previous configured hset =>
      obtain ⟨value, ⟨declaration, -, hread⟩, hvalue⟩ := Lexer.setOptionText_eq_ok hset
      obtain ⟨options, rfl, hreplaced⟩ := Lexer.setOption_eq_ok hvalue
      refine ih ?_ hmade
      exact hreplaced.forall_slots (fun _ _ self? => OptionDeclaration.read_not_refersTo hread) h

theorem LexerSpec.make_unborrowed {spec : LexerSpec}
    (hmade : (spec.make catalog).result = .ok made) : made.Unborrowed := by
  cases spec with
  | query text =>
    unfold LexerSpec.make LexerRegistry.createFromQuery at hmade
    dsimp only at hmade
    split at hmade
    case h_1 => cases hmade
    case h_2 id _ => exact (Lexer.create_unborrowed catalog id).configure hmade
  | language id =>
    cases hmade
    exact Lexer.create_unborrowed catalog id

/-- Setting a declared option to a value of its type is refused for one reason only. -/
theorem Lexer.setOption_of_declared (self? : Option LexerHandle) {declaration : OptionDeclaration}
    (hdeclared : lexer.options.declaration? name = some declaration)
    (hkind : value.kind = declaration.kind) :
    ∃ previous, lexer.options.get? name = some previous ∧
      lexer.options.Replaced name previous value
        ⟨OptionSet.store name value lexer.options.slots⟩ ∧
      lexer.setOption self? name value =
        if Lexer.refersTo self? value then .error (.invalidOption name)
        else .ok (previous,
          { lexer with options := ⟨OptionSet.store name value lexer.options.slots⟩ }) := by
  obtain ⟨slot, hslot, rfl⟩ := Option.map_eq_some_iff.mp hdeclared
  have hreplace : lexer.options.replace name value =
      .ok (slot.value, ⟨OptionSet.store name value lexer.options.slots⟩) := by
    simp only [OptionSet.replace, hslot]
    exact if_pos hkind
  refine ⟨slot.value, ?_, OptionSet.replace_eq_ok hreplace, ?_⟩
  · simp only [OptionSet.get?, hslot, Option.map_some]
  · simp only [setOption, hreplace]

end Making

namespace Session

section Keeping

variable {catalog : Catalog} {session after : Session} {slot : String} {kept : KeptLexer}

/-- The names and handles of the lexers that a session keeps tell them apart, and no handle is one that is
still to be given. -/
structure Keyed (session : Session) : Prop where
  names : (session.lexers.map Prod.fst).Nodup
  handles : (session.lexers.map (fun entry => entry.2.handle)).Nodup
  serials : ∀ entry ∈ session.lexers, entry.2.handle.serial < session.nextSerial

structure Selfless (session : Session) : Prop extends Keyed session where
  referring : ∀ entry ∈ session.lexers, ∀ slot ∈ entry.2.lexer.options.slots,
    Lexer.refersTo (some entry.2.handle) slot.value = false

theorem mem_lexers_of_lexer? (hslot : session.lexer? slot = some kept) :
    (slot, kept) ∈ session.lexers := by
  obtain ⟨front, back, hsplit, -⟩ := List.lookup_eq_some_iff.mp hslot
  rw [hsplit]
  exact List.mem_append_right _ List.mem_cons_self

theorem updateLexer_lexers (session : Session) (slot : String) (lexer : Lexer) :
    (session.updateLexer slot lexer).lexers = session.lexers.map (fun entry =>
      (entry.1, ⟨entry.2.handle, if entry.1 = slot then lexer else entry.2.lexer⟩)) := by
  apply List.map_congr_left
  intro entry hentry
  by_cases hname : entry.1 = slot <;> simp [hname]

namespace Keyed

theorem eraseLexer (h : session.Keyed) (slot : String) : (session.eraseLexer slot).Keyed := by
  have hsublist : ((session.eraseLexer slot).lexers).Sublist session.lexers := List.filter_sublist
  constructor
  case names => exact h.names.sublist (hsublist.map _)
  case handles => exact h.handles.sublist (hsublist.map _)
  case serials => exact fun entry hentry => h.serials entry (hsublist.subset hentry)

theorem keepLexer (h : session.Keyed) (slot : String) (lexer : Lexer) :
    (session.keepLexer slot lexer).Keyed := by
  have herased := h.eraseLexer slot
  constructor
  case names =>
    refine List.nodup_cons.mpr ⟨?_, herased.names⟩
    intro hmem
    obtain ⟨entry, hentry, hname⟩ := List.mem_map.mp hmem
    have hother := (List.mem_filter.mp hentry).2
    simp [hname] at hother
  case handles =>
    -- The handle is new: all that are in use have smaller numbers.
    refine List.nodup_cons.mpr ⟨?_, herased.handles⟩
    intro hmem
    obtain ⟨entry, hentry, hhandle⟩ := List.mem_map.mp hmem
    have hless := herased.serials entry hentry
    rw [hhandle] at hless
    exact Nat.lt_irrefl _ hless
  case serials =>
    refine List.forall_mem_cons.mpr ⟨Nat.lt_succ_self _, ?_⟩
    intro entry hentry
    exact Nat.lt_succ_of_lt (herased.serials entry hentry)

theorem updateLexer (h : session.Keyed) (slot : String) (lexer : Lexer) :
    (session.updateLexer slot lexer).Keyed := by
  have hlexers := updateLexer_lexers session slot lexer
  constructor
  case names =>
    rw [hlexers, List.map_map]
    exact h.names
  case handles =>
    rw [hlexers, List.map_map]
    exact h.handles
  case serials =>
    intro entry hentry
    rw [hlexers] at hentry
    obtain ⟨before, hbefore, rfl⟩ := List.mem_map.mp hentry
    exact h.serials before hbefore

end Keyed

namespace Selfless

theorem eraseLexer (h : session.Selfless) (slot : String) : (session.eraseLexer slot).Selfless := by
  refine ⟨h.toKeyed.eraseLexer slot, ?_⟩
  exact fun entry hentry => h.referring entry (List.filter_sublist.subset hentry)

theorem keepLexer (h : session.Selfless) (slot : String) {lexer : Lexer}
    (hlexer : ∀ slot ∈ lexer.options.slots,
      Lexer.refersTo (some ⟨session.nextSerial⟩) slot.value = false) :
    (session.keepLexer slot lexer).Selfless := by
  refine ⟨h.toKeyed.keepLexer slot lexer, ?_⟩
  exact List.forall_mem_cons.mpr ⟨hlexer, (h.eraseLexer slot).referring⟩

theorem updateLexer (h : session.Selfless) (hslot : session.lexer? slot = some kept) {lexer : Lexer}
    (hlexer : ∀ slot ∈ lexer.options.slots,
      Lexer.refersTo (some kept.handle) slot.value = false) :
    (session.updateLexer slot lexer).Selfless := by
  refine ⟨h.toKeyed.updateLexer slot lexer, ?_⟩
  intro entry hentry
  rw [updateLexer_lexers session slot lexer] at hentry
  obtain ⟨before, hbefore, rfl⟩ := List.mem_map.mp hentry
  dsimp only
  split
  case isTrue hname =>
    have hsame : before = (slot, kept) := by
      apply List.inj_on_of_nodup_map h.names hbefore (mem_lexers_of_lexer? hslot)
      exact hname
    rw [hsame]
    exact hlexer
  case isFalse => exact h.referring before hbefore

theorem change (h : session.Selfless) (hchange : Change catalog session after) :
    after.Selfless := by
  cases hchange with
  | aside hlexers hserial =>
    obtain ⟨⟨hnames, hhandles, hserials⟩, hreferring⟩ := h
    refine ⟨⟨?_, ?_, ?_⟩, ?_⟩
    all_goals rw [hlexers]
    · exact hnames
    · exact hhandles
    · rw [hserial]
      exact hserials
    · exact hreferring
  | erase slot => exact h.eraseLexer slot
  | keep slot hmade =>
    apply h.keepLexer slot
    exact fun entry hentry => LexerSpec.make_unborrowed hmade entry hentry _
  | set hslot hset =>
    obtain ⟨options, rfl, hreplaced⟩ := Lexer.setOption_eq_ok hset
    apply h.updateLexer hslot
    have hvalue := Lexer.setOption_not_refersTo hset
    exact hreplaced.forall_slots (fun _ _ => hvalue) (h.referring _ (mem_lexers_of_lexer? hslot))
  | restate hslot hstate =>
    apply h.updateLexer hslot
    obtain ⟨-, hoptions, -⟩ := Lexer.mk.inj hstate
    rw [hoptions]
    exact h.referring _ (mem_lexers_of_lexer? hslot)

theorem changes (h : session.Selfless) (hchanges : Changes catalog session after) :
    after.Selfless := by
  induction hchanges with
  | refl => exact h
  | tail _ hchange ih => exact ih.change hchange

end Selfless

end Keeping

section Instances

/-- Where an instance is: the handle of the lexer that is kept, and the places of the options that lead
from it to the instance, each of which owns the next lexer. -/
structure Address where
  root : LexerHandle
  path : List Nat
  deriving DecidableEq, Repr

def kept? (session : Session) (handle : LexerHandle) : Option Lexer :=
  (session.lexers.find? (fun entry => entry.2.handle == handle)).map (fun entry => entry.2.lexer)

def instance? (session : Session) (address : Address) : Option Lexer :=
  (session.kept? address.root).bind (fun lexer => lexer.descend? address.path)

/-- The address of the instance to which a reference resolves that the instance at an address holds in
the option at a place. A reference to a lexer that is no longer kept does not resolve. -/
def target? (session : Session) (address : Address) (place : Nat) :
    SubLexer Lexer → Option Address
  | .owned _ => some ⟨address.root, address.path ++ [place]⟩
  | .borrowed handle => (session.host handle).map (fun _ => ⟨handle, []⟩)

/-- The instance at an address holds a reference that resolves to that very instance. -/
def SelfReferring (session : Session) (address : Address) : Prop :=
  ∃ lexer place slot sub, session.instance? address = some lexer ∧
    lexer.options.slots[place]? = some slot ∧ slot.value.subLexer? = some sub ∧
    session.target? address place sub = some address

variable {session : Session} {slot : String} {kept : KeptLexer}

theorem host_eq (session : Session) (handle : LexerHandle) :
    session.host handle = (session.kept? handle).map Lexer.language := by
  simp [host, hostExcept, kept?, Function.comp_def]

theorem Selfless.not_selfReferring (h : session.Selfless) (address : Address) :
    ¬ session.SelfReferring address := by
  rintro ⟨lexer, place, slot, sub, hinstance, hslot, hsub, htarget⟩
  cases sub with
  | owned inner =>
    have hlength := congrArg (fun address => address.path.length) (Option.some.inj htarget)
    simp at hlength
  | borrowed handle =>
    obtain ⟨language, -, rfl⟩ := Option.map_eq_some_iff.mp htarget
    obtain ⟨root, hroot, hdescend⟩ := Option.bind_eq_some_iff.mp hinstance
    cases hdescend
    obtain ⟨entry, hfound, rfl⟩ := Option.map_eq_some_iff.mp hroot
    have hhandle : entry.2.handle = handle := by
      have hmatch := List.find?_some (p := fun entry : String × KeptLexer =>
        entry.2.handle == handle) hfound
      exact beq_iff_eq.mp hmatch
    have hvalue : slot.value = .lexer (some (.borrowed handle)) := by
      cases hkind : slot.value with
      | lexer value =>
        rw [hkind] at hsub
        exact congrArg OptionValue.lexer hsub
      | _ =>
        rw [hkind] at hsub
        cases hsub
    have hself := h.referring entry (List.mem_of_find?_eq_some hfound) slot
      (List.mem_of_getElem? hslot)
    rw [hvalue, hhandle] at hself
    simp [Lexer.refersTo] at hself

/-- Handles tell kept lexers apart. -/
theorem kept?_eq (hhandles : (session.lexers.map (fun entry => entry.2.handle)).Nodup)
    (hslot : session.lexer? slot = some kept) : session.kept? kept.handle = some kept.lexer := by
  have hmem := mem_lexers_of_lexer? hslot
  unfold kept?
  cases hfound : session.lexers.find? (fun entry => entry.2.handle == kept.handle) with
  | none =>
    have hnone := List.find?_eq_none.mp hfound (slot, kept) hmem
    simp at hnone
  | some entry =>
    have hmatch := List.find?_some (p := fun entry : String × KeptLexer =>
      entry.2.handle == kept.handle) hfound
    have hsame : entry = (slot, kept) := by
      apply List.inj_on_of_nodup_map hhandles (List.mem_of_find?_eq_some hfound) hmem
      exact beq_iff_eq.mp hmatch
    rw [hsame]
    rfl

theorem eq_borrowed_of_refersTo {self? : Option LexerHandle} {value : OptionValue Lexer}
    (hrefers : Lexer.refersTo self? value = true) :
    ∃ handle, self? = some handle ∧ value = .lexer (some (.borrowed handle)) := by
  unfold Lexer.refersTo at hrefers
  split at hrefers
  case h_1 handle => exact ⟨handle, beq_iff_eq.mp hrefers, rfl⟩
  case h_2 => cases hrefers

/-- A lexer that stands where a reference of its own leads refers to itself. -/
theorem Keyed.selfReferring (h : session.Keyed) (hslot : session.lexer? slot = some kept)
    {held : OptionSlot Lexer} (hmem : held ∈ kept.lexer.options.slots)
    (hrefers : Lexer.refersTo (some kept.handle) held.value = true) :
    session.SelfReferring ⟨kept.handle, []⟩ := by
  obtain ⟨handle, hhandle, hvalue⟩ := eq_borrowed_of_refersTo hrefers
  obtain rfl := Option.some.inj hhandle
  obtain ⟨place, hplace⟩ := List.mem_iff_getElem?.mp hmem
  have hkept := kept?_eq h.handles hslot
  refine ⟨kept.lexer, place, held, .borrowed kept.handle, ?_, hplace, ?_, ?_⟩
  · simp only [instance?, hkept]
    rfl
  · rw [hvalue]
    rfl
  · simp only [target?, host_eq, hkept]
    rfl

theorem Selfless.selfReferring_of_refersTo (h : session.Selfless)
    (hslot : session.lexer? slot = some kept) {name : String} {previous value : OptionValue Lexer}
    {options : OptionSet Lexer} (hreplaced : kept.lexer.options.Replaced name previous value options)
    (hrefers : Lexer.refersTo (some kept.handle) value = true) :
    (session.updateLexer slot { kept.lexer with options := options }).SelfReferring
      ⟨kept.handle, []⟩ := by
  obtain ⟨front, changed, back, -, -, -, -, -, hafter⟩ := hreplaced
  have hchanged : (session.updateLexer slot { kept.lexer with options := options }).lexer? slot =
      some { kept with lexer := { kept.lexer with options := options } } :=
    (session.updateLexer_lexer? hslot _).trans (if_pos rfl)
  have hmem : { changed with value := value } ∈ options.slots := by simp [hafter]
  apply (h.toKeyed.updateLexer slot _).selfReferring hchanged hmem
  exact hrefers

theorem resolve_borrowed {catalog : Catalog} {given : GivenValue} {handle : LexerHandle}
    {taken : Session}
    (hresolve : session.resolve catalog given = (.ok (.lexer (some (.borrowed handle))), taken)) :
    taken = session := by
  cases given with
  | plain value => exact (Prod.mk.inj hresolve).2.symm
  | own spec =>
    unfold resolve at hresolve
    dsimp only at hresolve
    split at hresolve <;> cases hresolve
  | move slot =>
    unfold resolve at hresolve
    dsimp only at hresolve
    split at hresolve <;> cases hresolve
  | borrow slot =>
    unfold resolve at hresolve
    dsimp only at hresolve
    split at hresolve
    · exact (Prod.mk.inj hresolve).2.symm
    · cases hresolve

/-- Setting a declared option of a lexer to a value of its type is refused exactly if the lexer would then
refer to itself; the session is then as it was. Every other such call stores the value and hands back the
one before. -/
theorem Selfless.setOption (h : session.Selfless) {catalog : Catalog} {name : String}
    {given : GivenValue} {value : OptionValue Lexer} {taken : Session}
    {declaration : OptionDeclaration} (hresolve : session.resolve catalog given = (.ok value, taken))
    (hnone : taken.formatter? slot = none) (hslot : taken.lexer? slot = some kept)
    (hdeclared : kept.lexer.options.declaration? name = some declaration)
    (hkind : value.kind = declaration.kind) :
    let stored := taken.updateLexer slot
      { kept.lexer with options := ⟨OptionSet.store name value kept.lexer.options.slots⟩ }
    ((∃ address, stored.SelfReferring address) →
      session.setOption catalog slot name given = (.refused (.invalidOption name), session)) ∧
    ((∀ address, ¬ stored.SelfReferring address) →
      ∃ previous, kept.lexer.options.get? name = some previous ∧
        session.setOption catalog slot name given = (.previous previous, stored)) := by
  have htaken : taken.Selfless := by
    have hchanges := h.changes (session.resolve_changes catalog given)
    rw [hresolve] at hchanges
    exact hchanges
  obtain ⟨previous, hprevious, hreplaced, hset⟩ :=
    Lexer.setOption_of_declared (some kept.handle) hdeclared hkind
  cases hrefers : Lexer.refersTo (some kept.handle) value with
  | true =>
    have hself := htaken.selfReferring_of_refersTo hslot hreplaced hrefers
    refine ⟨fun _ => ?_, fun hother => absurd hself (hother _)⟩
    obtain ⟨handle, -, rfl⟩ := eq_borrowed_of_refersTo hrefers
    rw [if_pos hrefers] at hset
    have hsame := resolve_borrowed hresolve
    simp only [Session.setOption, hresolve, assign, hnone, hslot, hset]
    rw [hsame]
  | false =>
    have hstored : (taken.updateLexer slot { kept.lexer with
        options := ⟨OptionSet.store name value kept.lexer.options.slots⟩ }).Selfless := by
      apply htaken.updateLexer hslot
      exact hreplaced.forall_slots (fun _ _ => hrefers)
        (htaken.referring _ (mem_lexers_of_lexer? hslot))
    refine ⟨fun ⟨address, hself⟩ => absurd hself (hstored.not_selfReferring address), fun _ => ?_⟩
    refine ⟨previous, hprevious, ?_⟩
    rw [if_neg (ne_true_of_eq_false hrefers)] at hset
    simp only [Session.setOption, hresolve, assign, hnone, hslot, hset]

end Instances

end Session

end Highlighting

import Highlighting.Grammar.Json.Keys
import Mathlib.Data.List.Chain

/-! The structure of JSON values, and the parser for member names on it. Names and scalars are left
open: the parser goes by kinds and structural characters alone. -/
namespace Highlighting.Json

inductive Structural where
  | openObject
  | closeObject
  | openArray
  | closeArray
  | colon
  | comma
  deriving DecidableEq, Repr

def Structural.byte : Structural → UInt8
  | .openObject => 0x7B
  | .closeObject => 0x7D
  | .openArray => 0x5B
  | .closeArray => 0x5D
  | .colon => 0x3A
  | .comma => 0x2C

inductive Value (Name Scalar : Type) where
  | scalar (scalar : Scalar)
  | array (elements : List (Value Name Scalar))
  | object (members : List (Name × Value Name Scalar))

inductive Part (Name Scalar : Type) where
  | name (name : Name)
  | scalar (scalar : Scalar)
  | structural (mark : Structural)

variable {Name Scalar : Type}

namespace Value

def separated : List (List (Part Name Scalar)) → List (Part Name Scalar)
  | [] => []
  | [last] => last
  | first :: second :: rest => first ++ .structural .comma :: separated (second :: rest)

mutual

def parts : Value Name Scalar → List (Part Name Scalar)
  | .scalar leaf => [.scalar leaf]
  | .array elements =>
    .structural .openArray :: (separated (elementParts elements) ++ [.structural .closeArray])
  | .object members =>
    .structural .openObject :: (separated (memberParts members) ++ [.structural .closeObject])

def elementParts : List (Value Name Scalar) → List (List (Part Name Scalar))
  | [] => []
  | value :: rest => value.parts :: elementParts rest

def namedParts : Name × Value Name Scalar → List (Part Name Scalar)
  | (name, value) => .name name :: .structural .colon :: value.parts

def memberParts : List (Name × Value Name Scalar) → List (List (Part Name Scalar))
  | [] => []
  | member :: rest => namedParts member :: memberParts rest

end

theorem elementParts_eq_map (elements : List (Value Name Scalar)) :
    elementParts elements = elements.map parts := by
  induction elements with
  | nil => rfl
  | cons value rest ih => rw [elementParts, ih, List.map_cons]

theorem memberParts_eq_map (members : List (Name × Value Name Scalar)) :
    memberParts members = members.map namedParts := by
  induction members with
  | nil => rfl
  | cons member rest ih => rw [memberParts, ih, List.map_cons]

/-- What passes from the parts of a container to the container holds of all values. -/
@[induction_eliminator, elab_as_elim]
theorem nestedInduction {P : Value Name Scalar → Prop} (scalar : ∀ leaf, P (.scalar leaf))
    (array : ∀ elements, (∀ value ∈ elements, P value) → P (.array elements))
    (object : ∀ members, (∀ member ∈ members, P member.2) → P (.object members))
    (value : Value Name Scalar) : P value :=
  @Value.rec Name Scalar P (fun elements => ∀ value ∈ elements, P value)
    (fun members => ∀ member ∈ members, P member.2) (fun member => P member.2)
    scalar array object
    nofun (fun _ _ hfirst hrest => List.forall_mem_cons.mpr ⟨hfirst, hrest⟩)
    nofun (fun _ _ hfirst hrest => List.forall_mem_cons.mpr ⟨hfirst, hrest⟩)
    (fun _ _ hvalue => hvalue) value

end Value

structure Fed where
  kind : TokenKind
  text : List UInt8
  isName : Bool

def scalarKinds : List TokenKind :=
  [.stringDouble, .numberDecimal, .numberFloat, .keywordConstant]

structure Spelling (Name Scalar : Type) where
  name : Name → List UInt8
  scalar : Scalar → TokenKind × List UInt8
  scalar_kind : ∀ leaf, (scalar leaf).1 ∈ scalarKinds

def Spelling.fed (spelling : Spelling Name Scalar) : Part Name Scalar → Fed
  | .name name => ⟨.stringDouble, spelling.name name, true⟩
  | .scalar leaf => ⟨(spelling.scalar leaf).1, (spelling.scalar leaf).2, false⟩
  | .structural mark => ⟨.punctuation, [mark.byte], false⟩

namespace KeyState

/-- Going from one state to another over tokens, without an error, and taking exactly the member names
for such. -/
inductive Reads : KeyState → List Fed → KeyState → Prop
  | nil {state : KeyState} : Reads state [] state
  | cons {state next after : KeyState} {fed : Fed} {rest : List Fed}
      (hnext : state.next fed.kind fed.text = (next, .proceed))
      (hkey : state.isKey fed.kind = fed.isName) (hrest : Reads next rest after) :
      Reads state (fed :: rest) after

variable {state next after : KeyState} {first second : List Fed}

theorem Reads.append (hfirst : Reads state first next) (hsecond : Reads next second after) :
    Reads state (first ++ second) after := by
  induction hfirst with
  | nil => exact hsecond
  | cons hnext hkey _ ih => exact .cons hnext hkey (ih hsecond)

theorem takesKey_of_takesValue (h : state.takesValue = true) : state.takesKey = false := by
  rcases state with ⟨containers, expect⟩
  cases expect <;> simp_all [takesValue, takesKey]

theorem next_scalar {kind : TokenKind} (hkind : kind ∈ scalarKinds) (text : List UInt8)
    (h : state.takesValue = true) :
    state.next kind text = (state.afterValue, .proceed) ∧ state.isKey kind = false := by
  have hkey := takesKey_of_takesValue h
  simp only [scalarKinds, List.mem_cons, List.not_mem_nil, or_false] at hkind
  rcases hkind with rfl | rfl | rfl | rfl <;> simp [next, scalar, isKey, h, hkey]

theorem afterValue_eq {container : Container} {outer : List Container}
    (hcontainers : state.containers = container :: outer) :
    state.afterValue = ⟨container :: outer, .commaOrClose⟩ := by
  simp [afterValue, hcontainers]

def begins (state : KeyState) : Container → Bool
  | .object => state.takesKey
  | .array => state.takesValue

end KeyState

def Structural.opening : Container → Structural
  | .object => .openObject
  | .array => .openArray

def Structural.closing : Container → Structural
  | .object => .closeObject
  | .array => .closeArray

section Reading

open KeyState

variable (spelling : Spelling Name Scalar)

def IsPartOf (container : Container) (item : List (Part Name Scalar)) : Prop :=
  ∀ (state : KeyState) (outer : List Container), state.containers = container :: outer →
    state.begins container = true →
      Reads state (item.map spelling.fed) ⟨container :: outer, .commaOrClose⟩

variable {spelling}

theorem separated_reads {container : Container} {items : List (List (Part Name Scalar))}
    (hitems : ∀ item ∈ items, IsPartOf spelling container item) (hsome : items ≠ [])
    {state : KeyState} {outer : List Container} (hcontainers : state.containers = container :: outer)
    (hbegins : state.begins container = true) :
    Reads state ((Value.separated items).map spelling.fed) ⟨container :: outer, .commaOrClose⟩ := by
  induction items generalizing state with
  | nil => exact absurd rfl hsome
  | cons first rest ih =>
    obtain ⟨hfirst, hrest⟩ := List.forall_mem_cons.mp hitems
    cases rest with
    | nil => exact hfirst state outer hcontainers hbegins
    | cons second rest =>
      have hread := hfirst state outer hcontainers hbegins
      rw [Value.separated, List.map_append, List.map_cons]
      refine hread.append ?_
      cases container with
      | object => exact .cons rfl rfl (ih hrest (List.cons_ne_nil _ _) rfl rfl)
      | array => exact .cons rfl rfl (ih hrest (List.cons_ne_nil _ _) rfl rfl)

theorem next_opening (container : Container) {state : KeyState} (h : state.takesValue = true) :
    ∃ inside : KeyState,
      state.next .punctuation [(Structural.opening container).byte] = (inside, .proceed) ∧
        inside.containers = container :: state.containers ∧ inside.begins container = true ∧
        inside.takesClose container = true := by
  cases container with
  | object => exact ⟨⟨.object :: state.containers, .keyOrClose⟩, if_pos h, rfl, rfl, rfl⟩
  | array => exact ⟨⟨.array :: state.containers, .valueOrClose⟩, if_pos h, rfl, rfl, rfl⟩

/-- The bracket that fits closes a container, which is a value of the one around it. -/
theorem next_closing {container : Container} {outer : List Container} {inside : KeyState}
    (hcontainers : inside.containers = container :: outer)
    (hclose : inside.takesClose container = true) (state : KeyState) (houter : state.containers = outer) :
    inside.next .punctuation [(Structural.closing container).byte] = (state.afterValue, .proceed) := by
  have hleave : inside.leave container = (state.afterValue, .proceed) := by
    simp [leave, hclose, hcontainers, afterValue, houter]
  cases container with
  | object => exact hleave
  | array => exact hleave

/-- A container is read from one bracket to the other. -/
theorem container_reads (container : Container) {items : List (List (Part Name Scalar))}
    (hitems : ∀ item ∈ items, IsPartOf spelling container item) {state : KeyState}
    (h : state.takesValue = true) :
    Reads state
      ((.structural (.opening container) ::
        (Value.separated items ++ [.structural (.closing container)])).map spelling.fed)
      state.afterValue := by
  obtain ⟨inside, hopen, hcontainers, hbegins, hclose⟩ := next_opening container h
  rw [List.map_cons, List.map_append]
  refine .cons hopen rfl ?_
  by_cases hsome : items = []
  · rw [hsome]
    exact .cons (next_closing hcontainers hclose state rfl) rfl .nil
  · have hread := separated_reads hitems hsome hcontainers hbegins
    have hready : KeyState.takesClose ⟨container :: state.containers, .commaOrClose⟩ container = true := by
      cases container <;> rfl
    exact hread.append (.cons (next_closing rfl hready state rfl) rfl .nil)

/-- The parser follows a value wherever one may come, to where one has come. -/
theorem parts_reads (value : Value Name Scalar) {state : KeyState} (h : state.takesValue = true) :
    Reads state (value.parts.map spelling.fed) state.afterValue := by
  -- The state stays general: the parts of a container begin inside of it.
  induction value generalizing state with
  | scalar leaf =>
    obtain ⟨hnext, hkey⟩ := next_scalar (spelling.scalar_kind leaf) (spelling.scalar leaf).2 h
    exact .cons hnext hkey .nil
  | array elements ih =>
    refine container_reads .array ?_ h
    rw [Value.elementParts_eq_map, List.forall_mem_map]
    intro value hvalue state outer hcontainers hbegins
    rw [← afterValue_eq hcontainers]
    exact ih value hvalue hbegins
  | object members ih =>
    refine container_reads .object ?_ h
    rw [Value.memberParts_eq_map, List.forall_mem_map]
    rintro ⟨name, value⟩ hmember state outer hcontainers hbegins
    have hname : state.next .stringDouble (spelling.name name) =
        ({ state with expect := .colon }, .proceed) := if_pos hbegins
    have hkey : state.isKey .stringDouble = true := hbegins
    have hread : Reads ⟨state.containers, .value⟩ (value.parts.map spelling.fed)
        state.afterValue := ih _ hmember rfl
    rw [← afterValue_eq hcontainers]
    exact .cons hname hkey (.cons rfl rfl hread)

end Reading

section Neighbours

def Part.isStructural : Part Name Scalar → Bool
  | .structural _ => true
  | _ => false

def Part.Apart (first second : Part Name Scalar) : Prop :=
  first.isStructural = true ∨ second.isStructural = true

/-- Lexemes that keep names and scalars apart as long as a structural character follows. -/
def KeepsApart (item : List (Part Name Scalar)) : Prop :=
  ∀ rest, rest.IsChain Part.Apart → (∀ part ∈ rest.head?, part.isStructural = true) →
    (item ++ rest).IsChain Part.Apart

theorem structural_isChain (mark : Structural) {rest : List (Part Name Scalar)}
    (hrest : rest.IsChain Part.Apart) : (.structural mark :: rest).IsChain Part.Apart :=
  List.isChain_cons.mpr ⟨fun _ _ => .inl rfl, hrest⟩

theorem separated_keepsApart {items : List (List (Part Name Scalar))}
    (hitems : ∀ item ∈ items, KeepsApart item) : KeepsApart (Value.separated items) := by
  induction items with
  | nil => exact fun rest hrest _ => hrest
  | cons first rest ih =>
    obtain ⟨hfirst, hrest⟩ := List.forall_mem_cons.mp hitems
    cases rest with
    | nil => exact hfirst
    | cons second rest =>
      intro tail htail hhead
      rw [Value.separated, List.append_assoc, List.cons_append]
      refine hfirst _ (structural_isChain _ (ih hrest tail htail hhead)) ?_
      rintro part ⟨⟩
      rfl

theorem container_keepsApart (first last : Structural) {items : List (List (Part Name Scalar))}
    (hitems : ∀ item ∈ items, KeepsApart item) :
    KeepsApart (.structural first :: (Value.separated items ++ [.structural last])) := by
  intro rest hrest _
  rw [List.cons_append, List.append_assoc]
  refine structural_isChain _ (separated_keepsApart hitems _ (structural_isChain _ hrest) ?_)
  rintro part ⟨⟩
  rfl

/-- No two names or scalars of a value are neighbours. -/
theorem parts_keepsApart (value : Value Name Scalar) : KeepsApart value.parts := by
  induction value with
  | scalar leaf =>
    intro rest hrest hhead
    exact List.isChain_cons.mpr ⟨fun part hpart => .inr (hhead part hpart), hrest⟩
  | array elements ih =>
    refine container_keepsApart _ _ ?_
    rw [Value.elementParts_eq_map, List.forall_mem_map]
    exact ih
  | object members ih =>
    refine container_keepsApart _ _ ?_
    rw [Value.memberParts_eq_map, List.forall_mem_map]
    rintro ⟨name, value⟩ hmember rest hrest hhead
    have hvalue := structural_isChain .colon (ih _ hmember rest hrest hhead)
    refine List.isChain_cons.mpr ⟨?_, hvalue⟩
    rintro part ⟨⟩
    exact .inr rfl

end Neighbours

section Fed

variable {state next : KeyState} {kind : TokenKind} {text : List UInt8} {verdict : Verdict}

def keyParserAt (state : KeyState) : RunningParser :=
  ⟨keyParser, state⟩

theorem relabel_last (pending : Array Span) (span : Span) (kind : TokenKind) :
    Relabelling.apply (pending.push span) ⟨pending.size, kind⟩ = pending.push (span.relabel kind) := by
  apply Array.ext
  · simp [Relabelling.apply]
  · intro i hi _
    rw [Relabelling.apply, Array.size_modify, Array.size_push] at hi
    simp only [Relabelling.apply]
    rw [Array.getElem_modify, Array.getElem_push, Array.getElem_push]
    by_cases hlast : i < pending.size
    · simp [hlast, Nat.ne_of_gt hlast]
    · simp [show i = pending.size by omega]

/-- The parser moves on and names the span of a member name, which is the last one. -/
theorem keyParser_feed (hnext : state.next kind text = (next, verdict)) (pending : Array Span)
    (span : Span) :
    RunningParser.feed (keyParserAt state) kind text.toArray (pending.push span) =
      (keyParserAt next,
        pending.push (if state.isKey kind then span.relabel .nameTag else span), verdict) := by
  simp only [RunningParser.feed, keyParserAt, keyParser, hnext]
  cases hkey : state.isKey kind with
  | false => rfl
  | true => simp [Relabelling.applyAll, relabel_last]

end Fed

end Highlighting.Json

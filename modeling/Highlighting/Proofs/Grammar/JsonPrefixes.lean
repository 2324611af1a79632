import Highlighting.Language.Feeding
import Highlighting.Proofs.Grammar.JsonValue
import Mathlib.Data.List.Infix

/-! The parser for member names accepts exactly the beginnings of JSON values. What it has read leads
from the outermost container down to where it stands: of each container that is open, the complete parts
and what comes before the value in which the next container lies. From there a value can always be
completed, and the parser has read a whole one exactly where it expects nothing more. -/
namespace Highlighting.Json

variable {Name Scalar : Type}

section Positions

def led (items : List (List (Part Name Scalar))) : List (Part Name Scalar) :=
  items.flatMap (fun item => item ++ [.structural .comma])

theorem separated_concat (items : List (List (Part Name Scalar))) (item : List (Part Name Scalar)) :
    Value.separated (items ++ [item]) = led items ++ item := by
  induction items with
  | nil => rfl
  | cons first rest ih =>
    cases rest with
    | nil => simp [Value.separated, led]
    | cons second rest =>
      -- Another part follows, so the first one has a comma behind it on both sides.
      rw [List.cons_append, List.cons_append, Value.separated, ← List.cons_append, ih]
      simp [led]

/-- An open container in which a value comes next: its complete parts, and in an object the name of
the value. -/
inductive Layer (Name Scalar : Type) where
  | array (elements : List (Value Name Scalar))
  | object (members : List (Name × Value Name Scalar)) (name : Name)

namespace Layer

def container : Layer Name Scalar → Container
  | .array _ => .array
  | .object _ _ => .object

def front : Layer Name Scalar → List (Part Name Scalar)
  | .array elements => .structural .openArray :: led (Value.elementParts elements)
  | .object members name =>
    .structural .openObject ::
      (led (Value.memberParts members) ++ [.name name, .structural .colon])

def filled : Layer Name Scalar → Value Name Scalar → Value Name Scalar
  | .array elements, value => .array (elements ++ [value])
  | .object members name, value => .object (members ++ [(name, value)])

theorem filled_parts (layer : Layer Name Scalar) (value : Value Name Scalar) :
    (layer.filled value).parts =
      layer.front ++ value.parts ++ [.structural (.closing layer.container)] := by
  cases layer with
  | array elements =>
    simp only [filled, Value.parts, Value.elementParts_eq_map, List.map_append, List.map_cons,
      List.map_nil, separated_concat, front, container, Structural.closing, List.cons_append]
  | object members name =>
    simp only [filled, Value.parts, Value.memberParts_eq_map, List.map_append, List.map_cons,
      List.map_nil, separated_concat, front, container, Structural.closing, List.cons_append]
    simp [Value.namedParts]

end Layer

/-- What stands before the value in the innermost of some open containers, the innermost first. -/
def fronts : List (Layer Name Scalar) → List (Part Name Scalar)
  | [] => []
  | layer :: outer => fronts outer ++ layer.front

theorem fronts_isPrefix (layers : List (Layer Name Scalar)) (value : Value Name Scalar) :
    ∃ whole : Value Name Scalar, fronts layers ++ value.parts <+: whole.parts := by
  -- The value completes the innermost container, which is a value of the one around it.
  induction layers generalizing value with
  | nil => exact ⟨value, List.prefix_refl _⟩
  | cons layer outer ih =>
    obtain ⟨whole, hwhole⟩ := ih (layer.filled value)
    refine ⟨whole, List.IsPrefix.trans ?_ hwhole⟩
    refine ⟨[.structural (.closing layer.container)], ?_⟩
    rw [fronts, layer.filled_parts]
    simp only [List.append_assoc]

inductive Stands : List (Part Name Scalar) → KeyState → Prop
  | value (layers : List (Layer Name Scalar)) :
      Stands (fronts layers) ⟨layers.map Layer.container, .value⟩
  | firstElement (layers : List (Layer Name Scalar)) :
      Stands (fronts (.array [] :: layers)) ⟨.array :: layers.map Layer.container, .valueOrClose⟩
  | firstName (layers : List (Layer Name Scalar)) :
      Stands (fronts layers ++ [.structural .openObject])
        ⟨.object :: layers.map Layer.container, .keyOrClose⟩
  | name (layers : List (Layer Name Scalar)) (members : List (Name × Value Name Scalar)) :
      Stands (fronts layers ++ .structural .openObject :: led (Value.memberParts members))
        ⟨.object :: layers.map Layer.container, .key⟩
  | colon (layers : List (Layer Name Scalar)) (members : List (Name × Value Name Scalar))
      (name : Name) :
      Stands
        (fronts layers ++ .structural .openObject :: (led (Value.memberParts members) ++ [.name name]))
        ⟨.object :: layers.map Layer.container, .colon⟩
  | part (layers : List (Layer Name Scalar)) (layer : Layer Name Scalar)
      (value : Value Name Scalar) :
      Stands (fronts (layer :: layers) ++ value.parts)
        ⟨layer.container :: layers.map Layer.container, .commaOrClose⟩
  | whole (value : Value Name Scalar) : Stands value.parts ⟨[], .nothing⟩

theorem stands_afterValue (layers : List (Layer Name Scalar)) (value : Value Name Scalar)
    {read : List (Part Name Scalar)} (hread : read = fronts layers ++ value.parts)
    {state : KeyState} (hcontainers : state.containers = layers.map Layer.container) :
    Stands read state.afterValue := by
  unfold KeyState.afterValue
  rw [hread, hcontainers]
  cases layers with
  | nil => exact .whole value
  | cons layer outer => exact .part outer layer value

/-- Wherever the parser stands, what it has read is the beginning of a value. -/
theorem Stands.isPrefix {read : List (Part Name Scalar)} {state : KeyState} (h : Stands read state)
    (someName : Name) (someScalar : Scalar) :
    ∃ value : Value Name Scalar, read <+: value.parts := by
  have hvalue (layers : List (Layer Name Scalar)) {read : List (Part Name Scalar)}
      (hread : read <+: fronts layers) : ∃ value : Value Name Scalar, read <+: value.parts := by
    obtain ⟨value, hfronts⟩ := fronts_isPrefix layers (.scalar someScalar)
    exact ⟨value, hread.trans ((List.prefix_append _ _).trans hfronts)⟩
  -- An open object goes on with a name and a colon, if they are not there yet.
  have hobject (layers : List (Layer Name Scalar)) (members : List (Name × Value Name Scalar))
      (name : Name) :
      fronts layers ++ .structural .openObject :: (led (Value.memberParts members) ++ [.name name])
        <+: fronts (.object members name :: layers) :=
    ⟨[.structural .colon], by simp [fronts, Layer.front]⟩
  cases h with
  | value layers => exact hvalue layers (List.prefix_refl _)
  | firstElement layers => exact hvalue (.array [] :: layers) (List.prefix_refl _)
  | firstName layers =>
    refine hvalue (.object [] someName :: layers) (List.IsPrefix.trans ?_ (hobject layers [] someName))
    exact ⟨[.name someName], by simp [led, Value.memberParts]⟩
  | name layers members =>
    refine hvalue (.object members someName :: layers)
      (List.IsPrefix.trans ?_ (hobject layers members someName))
    exact ⟨[.name someName], by simp⟩
  | colon layers members name => exact hvalue _ (hobject layers members name)
  | part layers layer value => exact fronts_isPrefix (layer :: layers) value
  | whole value => exact ⟨value, List.prefix_refl _⟩

theorem Stands.eq_whole {read : List (Part Name Scalar)} {state : KeyState} (h : Stands read state)
    (hexpect : state.expect = .nothing) : ∃ value : Value Name Scalar, read = value.parts := by
  cases h with
  | whole value => exact ⟨value, rfl⟩
  | _ => cases hexpect

end Positions

structure ScalarToken where
  kind : TokenKind
  text : List UInt8
  kind_mem : kind ∈ scalarKinds

/-- Lexemes as they are fed: any text of a string is a name, and any token of a kind of scalars is a
scalar. -/
def asFed : Spelling (List UInt8) ScalarToken where
  name text := text
  scalar leaf := (leaf.kind, leaf.text)
  scalar_kind leaf := leaf.kind_mem

section Steps

variable {state next after : KeyState} {kind : TokenKind} {text : List UInt8}

inductive Taken (state : KeyState) : Part (List UInt8) ScalarToken → KeyState → Prop
  | name (name : List UInt8) (h : state.takesKey = true) :
      Taken state (.name name) { state with expect := .colon }
  | scalar (leaf : ScalarToken) (h : state.takesValue = true) :
      Taken state (.scalar leaf) state.afterValue
  | openObject (h : state.takesValue = true) :
      Taken state (.structural .openObject) ⟨.object :: state.containers, .keyOrClose⟩
  | openArray (h : state.takesValue = true) :
      Taken state (.structural .openArray) ⟨.array :: state.containers, .valueOrClose⟩
  | closing (container : Container) (h : state.takesClose container = true)
      (hhead : state.containers.head? = some container) :
      Taken state (.structural (.closing container))
        (KeyState.afterValue { state with containers := state.containers.tail })
  | colon (h : state.expect = .colon) :
      Taken state (.structural .colon) { state with expect := .value }
  | comma (h : state.expect = .commaOrClose) :
      Taken state (.structural .comma)
        { state with
          expect := if state.containers.head? = some .object then .key else .value }

theorem enter_proceeds {container : Container}
    (henter : state.enter container = (next, .proceed)) :
    Taken state (.structural (.opening container)) next := by
  unfold KeyState.enter at henter
  split at henter
  case isFalse => cases henter
  case isTrue h =>
    cases henter
    cases container with
    | object => exact .openObject h
    | array => exact .openArray h

theorem leave_proceeds {container : Container}
    (hleave : state.leave container = (next, .proceed)) :
    Taken state (.structural (.closing container)) next := by
  unfold KeyState.leave at hleave
  split at hleave
  case isFalse => cases hleave
  case isTrue h =>
    dsimp only at hleave
    split at hleave
    case isFalse => cases hleave
    case isTrue hhead =>
      cases hleave
      exact .closing container h hhead

theorem scalar_proceeds (leaf : ScalarToken) (hscalar : state.scalar = (next, .proceed)) :
    Taken state (.scalar leaf) next := by
  unfold KeyState.scalar at hscalar
  split at hscalar
  case isFalse => cases hscalar
  case isTrue h =>
    cases hscalar
    exact .scalar leaf h

theorem punctuation_proceeds (hpunctuation : state.punctuation text = (next, .proceed)) :
    ∃ mark : Structural, text = [mark.byte] ∧ Taken state (.structural mark) next := by
  unfold KeyState.punctuation at hpunctuation
  split at hpunctuation
  case h_1 => exact ⟨.openObject, rfl, enter_proceeds hpunctuation⟩
  case h_2 => exact ⟨.openArray, rfl, enter_proceeds hpunctuation⟩
  case h_3 => exact ⟨.closeObject, rfl, leave_proceeds hpunctuation⟩
  case h_4 => exact ⟨.closeArray, rfl, leave_proceeds hpunctuation⟩
  case h_5 =>
    unfold KeyState.colon at hpunctuation
    split at hpunctuation
    case isFalse => cases hpunctuation
    case isTrue h =>
      cases hpunctuation
      exact ⟨.colon, rfl, .colon h⟩
  case h_6 =>
    unfold KeyState.comma at hpunctuation
    split at hpunctuation
    case isFalse => cases hpunctuation
    case isTrue h =>
      cases hpunctuation
      exact ⟨.comma, rfl, .comma h⟩
  case h_7 => cases hpunctuation

/-- A token that is no error is a lexeme, which is a name exactly where the parser takes it for one. -/
theorem next_proceeds (hkind : kind ≠ .ignorable)
    (hnext : state.next kind text = (next, .proceed)) :
    ∃ part, asFed.fed part = ⟨kind, text, state.isKey kind⟩ ∧ Taken state part next := by
  unfold KeyState.next at hnext
  split at hnext
  case h_1 => exact absurd rfl hkind
  case h_2 =>
    obtain ⟨mark, rfl, htaken⟩ := punctuation_proceeds hnext
    exact ⟨.structural mark, rfl, htaken⟩
  case h_3 =>
    split at hnext
    case isTrue hkey =>
      cases hnext
      refine ⟨.name text, ?_, .name text hkey⟩
      simp [Spelling.fed, asFed, KeyState.isKey, hkey]
    case isFalse hkey =>
      refine ⟨_, ?_, scalar_proceeds ⟨.stringDouble, text, by decide⟩ hnext⟩
      simp [Spelling.fed, asFed, KeyState.isKey, hkey]
  case h_4 => exact ⟨_, rfl, scalar_proceeds ⟨.numberDecimal, text, by decide⟩ hnext⟩
  case h_5 => exact ⟨_, rfl, scalar_proceeds ⟨.numberFloat, text, by decide⟩ hnext⟩
  case h_6 => exact ⟨_, rfl, scalar_proceeds ⟨.keywordConstant, text, by decide⟩ hnext⟩
  case h_7 => cases hnext

variable {read : List (Part (List UInt8) ScalarToken)} {part : Part (List UInt8) ScalarToken}

/-- The parser keeps track: after a lexeme it stands where that lexeme leads. -/
theorem Stands.taken (h : Stands read state) (htaken : Taken state part next) :
    Stands (read ++ [part]) next := by
  cases htaken with
  | name name hkey =>
    cases h with
    | firstName layers => simpa [led, Value.memberParts] using Stands.colon layers [] name
    | name layers members => simpa using Stands.colon layers members name
    | _ => cases hkey
  | scalar leaf hvalue =>
    cases h with
    | value layers => exact stands_afterValue layers (.scalar leaf) rfl rfl
    | firstElement layers => exact stands_afterValue (.array [] :: layers) (.scalar leaf) rfl rfl
    | _ => cases hvalue
  | openObject hvalue =>
    cases h with
    | value layers => exact .firstName layers
    | firstElement layers => exact .firstName (.array [] :: layers)
    | _ => cases hvalue
  | openArray hvalue =>
    cases h with
    | value layers => exact .firstElement layers
    | firstElement layers => exact .firstElement (.array [] :: layers)
    | _ => cases hvalue
  | closing container hclose hhead =>
    -- The container with its bracket is a value of the container around it.
    cases h with
    | firstElement layers =>
      cases hhead
      exact stands_afterValue layers (.array []) (List.append_assoc _ _ _) rfl
    | firstName layers =>
      cases hhead
      exact stands_afterValue layers (.object []) (List.append_assoc _ _ _) rfl
    | part layers layer value =>
      cases hhead
      refine stands_afterValue layers (layer.filled value) ?_ rfl
      rw [layer.filled_parts, fronts]
      simp only [List.append_assoc]
    | whole value => cases hhead
    | _ => cases container <;> cases hclose
  | colon hcolon =>
    cases h with
    | colon layers members name =>
      simpa [fronts, Layer.front, Layer.container] using Stands.value (.object members name :: layers)
    | _ => cases hcolon
  | comma hcomma =>
    cases h with
    | part layers layer value =>
      cases layer with
      | array elements =>
        have hvalue := Stands.value (.array (elements ++ [value]) :: layers)
        simpa [fronts, Layer.front, Layer.container, Value.elementParts_eq_map, led] using hvalue
      | object members name =>
        have hname := Stands.name layers (members ++ [(name, value)])
        simpa [fronts, Layer.front, Layer.container, Value.memberParts_eq_map, Value.namedParts, led]
          using hname
    | _ => cases hcomma

theorem KeyState.Reads.stands {tokens : List Fed} (h : state.Reads tokens after)
    (htokens : ∀ fed ∈ tokens, fed.kind ≠ .ignorable) (hstands : Stands read state) :
    ∃ parts, tokens = parts.map asFed.fed ∧ Stands (read ++ parts) after := by
  induction h generalizing read with
  | nil => exact ⟨[], rfl, by simpa using hstands⟩
  | cons hnext hkey hrest ih =>
    obtain ⟨hfirst, hmore⟩ := List.forall_mem_cons.mp htokens
    obtain ⟨part, hpart, htaken⟩ := next_proceeds hfirst hnext
    obtain ⟨parts, rfl, hafter⟩ := ih hmore (hstands.taken htaken)
    refine ⟨part :: parts, ?_, by simpa using hafter⟩
    rw [List.map_cons, hpart, hkey]

theorem KeyState.Reads.unique {tokens : List Fed} {other : KeyState} (h : state.Reads tokens after)
    (hother : state.Reads tokens other) : after = other := by
  induction h with
  | nil =>
    cases hother
    rfl
  | cons hnext hkey hrest ih =>
    cases hother with
    | cons hnext' hkey' hrest' =>
      rw [hnext] at hnext'
      cases hnext'
      exact ih hrest'

def Fed.isLexeme (fed : Fed) : Bool :=
  fed.kind != .ignorable

theorem KeyState.Reads.filter {tokens : List Fed} (h : state.Reads tokens after) :
    state.Reads (tokens.filter Fed.isLexeme) after := by
  induction h with
  | nil => exact .nil
  | @cons state next after fed rest hnext hkey hrest ih =>
    by_cases hblank : fed.kind = .ignorable
    · rw [hblank] at hnext
      cases hnext
      rw [List.filter_cons_of_neg (by simp [Fed.isLexeme, hblank])]
      exact ih
    · rw [List.filter_cons_of_pos (by simp [Fed.isLexeme, hblank])]
      exact .cons hnext hkey ih

end Steps

section Feeding

abbrev TokenValue : Type :=
  Value (List UInt8) ScalarToken

def Fed.token (fed : Fed) : TokenKind × List UInt8 :=
  (fed.kind, fed.text)

def tokensOf (value : TokenValue) : List (TokenKind × List UInt8) :=
  value.parts.map (fun part => (asFed.fed part).token)

def lexemes (tokens : List FeedToken) : List (TokenKind × List UInt8) :=
  (tokens.filter (fun token => token.kind != .ignorable)).map
    (fun token => (token.kind, token.text.toList))

def fedOf (marked : FeedToken × Bool) : Fed :=
  ⟨marked.1.kind, marked.1.text.toList, marked.2⟩

/-- Marks that tokens have as lexemes of a value: the member names of the value are marked, and no
other token is. -/
structure MarkedAs (value : TokenValue) (tokens : List FeedToken)
    (marked : List (FeedToken × Bool)) : Prop where
  tokens : marked.map Prod.fst = tokens
  lexemes : (marked.map fedOf).filter Fed.isLexeme <+: value.parts.map asFed.fed
  ignored : ∀ token ∈ marked, token.1.kind = .ignorable → token.2 = false

def spanKinds (marked : FeedToken × Bool) : TokenKind × TokenKind :=
  (marked.1.kind, if marked.2 then .nameTag else marked.1.kind)

namespace KeyState

def nextAll (state : KeyState) (tokens : List FeedToken) : KeyState :=
  tokens.foldl (fun state token => (state.next token.kind token.text.toList).1) state

def verdicts : KeyState → List FeedToken → List Verdict
  | _, [] => []
  | state, token :: rest =>
    let (next, verdict) := state.next token.kind token.text.toList
    verdict :: verdicts next rest

def marks : KeyState → List FeedToken → List (FeedToken × Bool)
  | _, [] => []
  | state, token :: rest =>
    (token, state.isKey token.kind) :: marks (state.next token.kind token.text.toList).1 rest

variable {state after : KeyState}

/-- There is no error if the tokens with their marks can be read. -/
theorem verdicts_proceed_iff (tokens : List FeedToken) :
    (∀ verdict ∈ state.verdicts tokens, verdict = .proceed) ↔
      state.Reads ((state.marks tokens).map fedOf) (state.nextAll tokens) := by
  induction tokens generalizing state with
  | nil => exact ⟨fun _ => .nil, fun _ => nofun⟩
  | cons token rest ih =>
    rcases hnext : state.next token.kind token.text.toList with ⟨next, verdict⟩
    have hrest := @ih next
    simp only [verdicts, marks, nextAll, hnext, List.forall_mem_cons, List.map_cons, List.foldl_cons]
    constructor
    · rintro ⟨rfl, hmore⟩
      exact .cons hnext rfl (hrest.mp hmore)
    · intro hreads
      cases hreads with
      | cons hfirst hkey hmore =>
        have hsame : (next, verdict) = (_, Verdict.proceed) := hnext.symm.trans hfirst
        cases hsame
        exact ⟨rfl, hrest.mpr hmore⟩

theorem marks_of_isPrefix {sequence : List Fed} (h : state.Reads sequence after)
    {tokens : List FeedToken} (hbegins : lexemes tokens <+: sequence.map Fed.token) :
    state.Reads ((state.marks tokens).map fedOf) (state.nextAll tokens) ∧
      ((state.marks tokens).map fedOf).filter Fed.isLexeme <+: sequence := by
  induction tokens generalizing state sequence with
  | nil => exact ⟨.nil, List.nil_prefix⟩
  | cons token rest ih =>
    by_cases hblank : token.kind = .ignorable
    · -- What may be ignored is neither a lexeme nor marked, and the parser stays where it is.
      have hnext : state.next token.kind token.text.toList = (state, .proceed) := by
        rw [hblank]
        rfl
      have hkey : state.isKey token.kind = false := by
        rw [hblank]
        rfl
      have hless : lexemes rest <+: sequence.map Fed.token := by
        simpa [lexemes, hblank] using hbegins
      obtain ⟨hreads, hmarks⟩ := ih h hless
      simp only [marks, nextAll, hnext, hkey, List.map_cons, List.foldl_cons]
      refine ⟨.cons hnext hkey hreads, ?_⟩
      rw [List.filter_cons_of_neg (by simp [Fed.isLexeme, fedOf, hblank])]
      exact hmarks
    · -- A lexeme is the next one of the sequence, so it is read and marked as there.
      have hmore : (token.kind, token.text.toList) :: lexemes rest <+: sequence.map Fed.token := by
        simpa [lexemes, hblank] using hbegins
      cases h with
      | nil => simp at hmore
      | @cons _ next _ fed others hnext hkey hrest =>
        obtain ⟨hfed, hothers⟩ := List.cons_prefix_cons.mp hmore
        obtain ⟨hkind, htext⟩ := Prod.mk.inj hfed
        obtain ⟨hreads, hmarks⟩ := ih hrest hothers
        rw [← hkind, ← htext] at hnext
        rw [← hkind] at hkey
        have hsame : fedOf (token, state.isKey token.kind) = fed := by
          rw [fedOf, hkey, hkind, htext]
        simp only [marks, nextAll, hnext, List.map_cons, List.foldl_cons]
        refine ⟨.cons hnext rfl hreads, ?_⟩
        rw [List.filter_cons_of_pos (by simp [Fed.isLexeme, fedOf, hblank]), hsame]
        exact List.cons_prefix_cons.mpr ⟨rfl, hmarks⟩

theorem marks_ignored {tokens : List FeedToken} :
    ∀ token ∈ state.marks tokens, token.1.kind = .ignorable → token.2 = false := by
  induction tokens generalizing state with
  | nil => exact nofun
  | cons token rest ih =>
    refine List.forall_mem_cons.mpr ⟨fun hblank => ?_, ih⟩
    have hkind : token.kind = .ignorable := hblank
    simp [isKey, hkind]

theorem marks_tokens (state : KeyState) (tokens : List FeedToken) :
    (state.marks tokens).map Prod.fst = tokens := by
  induction tokens generalizing state with
  | nil => rfl
  | cons token rest ih => rw [marks, List.map_cons, ih]

theorem marks_lexemes (state : KeyState) (tokens : List FeedToken) :
    (((state.marks tokens).map fedOf).filter Fed.isLexeme).map Fed.token = lexemes tokens := by
  have hlexemes : lexemes tokens =
      (((state.marks tokens).map Prod.fst).filter (fun token => token.kind != .ignorable)).map
        (fun token => (token.kind, token.text.toList)) := by
    rw [marks_tokens]
    rfl
  rw [hlexemes, List.filter_map, List.map_map, List.filter_map, List.map_map]
  rfl

end KeyState

variable {state : KeyState} {feeding : Feeding}

/-- Feeding one token: the parser moves on, and if the token is not detached its span is queued and
named if it is a member name. -/
theorem feed_keyParser (hparser : feeding.parser = keyParserAt state) (token : FeedToken) :
    (feeding.feed token).parser = keyParserAt (state.next token.kind token.text.toList).1 ∧
      (feeding.feed token).verdicts =
        feeding.verdicts.push (state.next token.kind token.text.toList).2 ∧
      (feeding.feed token).spans.toList.map (fun span => (span.defaultKind, span.kind)) =
        feeding.spans.toList.map (fun span => (span.defaultKind, span.kind)) ++
          ([(token, state.isKey token.kind)].filter (fun marked => !marked.1.detached)).map
            spanKinds := by
  cases hdetached : token.detached with
  | true =>
    -- The token has no span, so the parser has nothing to name.
    simp only [Feeding.feed, hdetached, if_true, hparser]
    refine ⟨rfl, rfl, ?_⟩
    simp [hdetached]
  | false =>
    have hfeed := keyParser_feed (rfl : state.next token.kind token.text.toList = (_, _)) feeding.spans
      (Span.ofLexer feeding.offset (feeding.offset + token.text.size) token.kind)
    rw [Array.toArray_toList] at hfeed
    simp only [Feeding.feed, hdetached, Bool.false_eq_true, if_false, hparser, hfeed]
    refine ⟨rfl, rfl, ?_⟩
    simp only [Array.toList_push, List.map_append]
    cases hkey : state.isKey token.kind <;> simp [spanKinds, hdetached, Span.ofLexer, Span.relabel]

theorem foldl_feed (hparser : feeding.parser = keyParserAt state) (tokens : List FeedToken) :
    (tokens.foldl Feeding.feed feeding).parser = keyParserAt (state.nextAll tokens) ∧
      (tokens.foldl Feeding.feed feeding).verdicts.toList =
        feeding.verdicts.toList ++ state.verdicts tokens ∧
      (tokens.foldl Feeding.feed feeding).spans.toList.map
          (fun span => (span.defaultKind, span.kind)) =
        feeding.spans.toList.map (fun span => (span.defaultKind, span.kind)) ++
          ((state.marks tokens).filter (fun marked => !marked.1.detached)).map spanKinds := by
  induction tokens generalizing feeding state with
  | nil => exact ⟨hparser, (List.append_nil _).symm, (List.append_nil _).symm⟩
  | cons token rest ih =>
    obtain ⟨hfirst, hverdict, hspan⟩ := feed_keyParser hparser token
    obtain ⟨hlast, hverdicts, hspans⟩ := ih hfirst
    refine ⟨hlast, ?_, ?_⟩
    · rw [List.foldl_cons, hverdicts, hverdict, Array.toList_push, List.append_assoc]
      rfl
    · rw [List.foldl_cons, hspans, hspan, List.append_assoc, ← List.map_append, ← List.filter_append]
      rfl

theorem ofTokens_eq (tokens : List FeedToken) :
    (Feeding.ofTokens keyParser tokens).parser = keyParserAt (KeyState.nextAll {} tokens) ∧
      (Feeding.ofTokens keyParser tokens).verdicts.toList = KeyState.verdicts {} tokens ∧
      (Feeding.ofTokens keyParser tokens).spans.toList.map
          (fun span => (span.defaultKind, span.kind)) =
        ((KeyState.marks {} tokens).filter (fun marked => !marked.1.detached)).map spanKinds :=
  foldl_feed (rfl : Feeding.parser { parser := keyParser.running } = keyParserAt {}) tokens

theorem value_reads (value : TokenValue) :
    KeyState.Reads {} (value.parts.map asFed.fed) ⟨[], .nothing⟩ :=
  parts_reads value rfl

theorem tokensOf_eq (value : TokenValue) :
    tokensOf value = (value.parts.map asFed.fed).map Fed.token := by
  rw [tokensOf, List.map_map]
  rfl

theorem no_error_iff (tokens : List FeedToken) :
    (∀ verdict ∈ (Feeding.ofTokens keyParser tokens).verdicts, verdict = .proceed) ↔
      KeyState.Reads {} ((KeyState.marks {} tokens).map fedOf) (KeyState.nextAll {} tokens) := by
  rw [← KeyState.verdicts_proceed_iff, ← (ofTokens_eq tokens).2.1]
  simp only [Array.mem_toList_iff]

/-- Without an error, the lexemes that were fed are those of a position in a value. -/
theorem stands_of_reads {tokens : List FeedToken}
    (h : KeyState.Reads {} ((KeyState.marks {} tokens).map fedOf) (KeyState.nextAll {} tokens)) :
    ∃ parts : List (Part (List UInt8) ScalarToken),
      lexemes tokens = (parts.map asFed.fed).map Fed.token ∧
        Stands parts (KeyState.nextAll {} tokens) := by
  have hlexemes (fed : Fed) (hfed : fed ∈ ((KeyState.marks {} tokens).map fedOf).filter Fed.isLexeme) :
      fed.kind ≠ .ignorable := by
    simpa [Fed.isLexeme] using (List.mem_filter.mp hfed).2
  obtain ⟨parts, hparts, hstands⟩ := h.filter.stands hlexemes (.value [])
  refine ⟨parts, ?_, hstands⟩
  rw [← hparts, KeyState.marks_lexemes]

end Feeding

/-- The parser for member names reports no error on tokens exactly if they are, but for what may be
ignored, the beginning of the tokens of a JSON value. It then has no container open and expects nothing
exactly if they are all tokens of a value. And of the spans that are queued it names those of the member
names of the value, and no others. -/
theorem keyParser_accepts_beginnings (tokens : List FeedToken) :
    ((∀ verdict ∈ (Feeding.ofTokens keyParser tokens).verdicts, verdict = .proceed) ↔
      ∃ value : TokenValue, lexemes tokens <+: tokensOf value) ∧
    ((∀ verdict ∈ (Feeding.ofTokens keyParser tokens).verdicts, verdict = .proceed) ∧
        (Feeding.ofTokens keyParser tokens).parser = keyParserAt ⟨[], .nothing⟩ ↔
      ∃ value : TokenValue, lexemes tokens = tokensOf value) ∧
    (∀ value : TokenValue, lexemes tokens <+: tokensOf value →
      ∃ marked, MarkedAs value tokens marked ∧
        (Feeding.ofTokens keyParser tokens).spans.toList.map
            (fun span => (span.defaultKind, span.kind)) =
          (marked.filter (fun token => !token.1.detached)).map spanKinds) := by
  obtain ⟨hparser, -, hspans⟩ := ofTokens_eq tokens
  have hmarks (value : TokenValue) (hbegins : lexemes tokens <+: tokensOf value) :=
    KeyState.marks_of_isPrefix (value_reads value) (tokensOf_eq value ▸ hbegins)
  refine ⟨?_, ?_, ?_⟩
  · rw [no_error_iff]
    constructor
    · intro hreads
      obtain ⟨parts, hparts, hstands⟩ := stands_of_reads hreads
      -- Where a name or a value is missing, any will do.
      obtain ⟨value, hvalue⟩ := hstands.isPrefix [] ⟨.keywordConstant, [], by decide⟩
      refine ⟨value, ?_⟩
      rw [hparts, tokensOf_eq]
      exact (hvalue.map _).map _
    · rintro ⟨value, hbegins⟩
      exact (hmarks value hbegins).1
  · rw [no_error_iff, hparser]
    constructor
    · rintro ⟨hreads, hstate⟩
      obtain ⟨parts, hparts, hstands⟩ := stands_of_reads hreads
      have hend : KeyState.nextAll {} tokens = ⟨[], .nothing⟩ := eq_of_heq (RunningParser.mk.inj hstate).2
      obtain ⟨value, rfl⟩ := hstands.eq_whole (congrArg KeyState.expect hend)
      exact ⟨value, hparts.trans (tokensOf_eq value).symm⟩
    · rintro ⟨value, hwhole⟩
      obtain ⟨hreads, hmarked⟩ := hmarks value (hwhole ▸ List.prefix_refl _)
      refine ⟨hreads, congrArg keyParserAt ?_⟩
      -- All of the value was read, so the parser is where the value leads.
      have hall : ((KeyState.marks {} tokens).map fedOf).filter Fed.isLexeme =
          value.parts.map asFed.fed := by
        apply hmarked.eq_of_length
        have hlength := congrArg List.length hwhole
        rw [← KeyState.marks_lexemes {} tokens, tokensOf_eq, List.length_map, List.length_map] at hlength
        exact hlength
      have hfiltered := hreads.filter
      rw [hall] at hfiltered
      exact hfiltered.unique (value_reads value)
  · intro value hbegins
    refine ⟨KeyState.marks {} tokens, ⟨KeyState.marks_tokens {} tokens, (hmarks value hbegins).2, ?_⟩, hspans⟩
    exact KeyState.marks_ignored

def brokenOff : List FeedToken :=
  [⟨.punctuation, Bytes.ofText "\x7b", false⟩, ⟨.ignorable, Bytes.ofText " ", false⟩,
    ⟨.stringDouble, Bytes.ofText "\"k\"", false⟩, ⟨.punctuation, Bytes.ofText ":", false⟩,
    ⟨.punctuation, Bytes.ofText "[", false⟩, ⟨.stringDouble, Bytes.ofText "\"s\"", false⟩,
    ⟨.punctuation, Bytes.ofText ",", false⟩]

def mended : TokenValue :=
  .object [((Bytes.ofText "\"k\"").toList,
    .array [.scalar ⟨.stringDouble, (Bytes.ofText "\"s\"").toList, by decide⟩,
      .scalar ⟨.numberDecimal, (Bytes.ofText "1").toList, by decide⟩])]

theorem keyParser_accepts_broken_off :
    lexemes brokenOff <+: tokensOf mended ∧
      (∀ verdict ∈ (Feeding.ofTokens keyParser brokenOff).verdicts, verdict = .proceed) ∧
      ∃ marked, MarkedAs mended brokenOff marked ∧
        (Feeding.ofTokens keyParser brokenOff).spans.toList.map
            (fun span => (span.defaultKind, span.kind)) =
          (marked.filter (fun token => !token.1.detached)).map spanKinds := by
  have hbegins : lexemes brokenOff <+: tokensOf mended := by decide +kernel
  obtain ⟨hviable, -, hnames⟩ := keyParser_accepts_beginnings brokenOff
  exact ⟨hbegins, hviable.mpr ⟨mended, hbegins⟩, hnames mended hbegins⟩

def overclosed : List FeedToken :=
  [⟨.numberDecimal, Bytes.ofText "1", false⟩, ⟨.punctuation, Bytes.ofText "\x7d", false⟩]

/-- A token that is refused can leave the parser where a value left it. -/
theorem keyParser_ends_after_error :
    Verdict.syntaxError ∈ (Feeding.ofTokens keyParser overclosed).verdicts ∧
      (Feeding.ofTokens keyParser overclosed).parser = keyParserAt ⟨[], .nothing⟩ ∧
      ¬ ∃ value : TokenValue, lexemes overclosed = tokensOf value := by
  refine ⟨by decide +kernel, by rw [(ofTokens_eq overclosed).1]; rfl, ?_⟩
  rintro ⟨value, hsame⟩
  cases value with
  | scalar leaf => cases congrArg List.length hsame
  | array elements => cases congrArg List.head? hsame
  | object members => cases congrArg List.head? hsame

end Highlighting.Json

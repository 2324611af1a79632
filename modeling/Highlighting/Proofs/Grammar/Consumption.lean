import Highlighting.Lexer.Instance

/-! The languages of the library use up what they are given: a scan call with bytes left moves forward
over at least one of them, in any state and with any options, and a scan call with none left is done. -/
namespace Highlighting

def LanguageId.IsBuiltIn : LanguageId → Prop
  | .custom _ => False
  | _ => True

namespace ScanContext

variable {w : Window} (cx : ScanContext w)

theorem atEnd_eq_false_iff : cx.atEnd = false ↔ cx.cursor < w.limit := by
  simp [atEnd]

theorem peek_eq_none_iff : cx.peek = none ↔ cx.atEnd = true := by
  have hsize := w.limit_le_size
  simp only [peek, peekAt, Nat.add_zero, atEnd, decide_eq_true_eq]
  split
  case isTrue hmore =>
    rw [Array.getElem?_eq_none_iff]
    omega
  case isFalse => simp; omega

theorem cursor_lt_of_peek {b : UInt8} (hpeek : cx.peek = some b) : cx.cursor < w.limit := by
  rw [← atEnd_eq_false_iff, ← Bool.not_eq_true, ← peek_eq_none_iff, hpeek]
  exact Option.some_ne_none b

theorem advance_cursor_lt {count : Nat} (hmore : cx.cursor < w.limit) (hcount : 0 < count) :
    cx.cursor < (cx.advance count).cursor := by
  simp only [advance]
  omega

theorem advance_cursor_le (count : Nat) : cx.cursor ≤ (cx.advance count).cursor := by
  have := cx.cursor_le_limit
  simp only [advance]
  omega

theorem advanceLine_cursor_lt (hmore : cx.cursor < w.limit) :
    cx.cursor < cx.advanceLine.2.cursor := by
  -- The line may begin with its own terminator, so all the progress may be in that.
  have hstop : cx.cursor ≤ (cx.advanceWhile (fun b => !Bytes.isLineBreak b)).cursor :=
    cx.advance_cursor_le _
  unfold advanceLine
  dsimp only
  generalize cx.advanceWhile (fun b => !Bytes.isLineBreak b) = stop at hstop
  split
  case h_1 hpeek =>
    have hbump : stop.cursor < stop.bump.cursor :=
      stop.advance_cursor_lt (stop.cursor_lt_of_peek hpeek) Nat.one_pos
    have hagain : stop.bump.cursor ≤ stop.bump.bump.cursor := stop.bump.advance_cursor_le 1
    dsimp only
    split <;> omega
  case h_2 hpeek =>
    have hbump : stop.cursor < stop.bump.cursor :=
      stop.advance_cursor_lt (stop.cursor_lt_of_peek hpeek) Nat.one_pos
    exact Nat.lt_of_le_of_lt hstop hbump
  case h_3 hpeek =>
    have hend := (stop.peek_eq_none_iff).mp hpeek
    simp only [atEnd, decide_eq_true_eq] at hend
    dsimp only
    omega

inductive Consumes : ScanEvent → ScanContext w → Prop
  | done {after : ScanContext w} (hend : w.limit ≤ cx.cursor) (hstay : after.cursor = cx.cursor) :
      Consumes .done after
  | token {after : ScanContext w} (kind : TokenKind) (hmore : cx.cursor < after.cursor) :
      Consumes (.token kind) after
  | within {after : ScanContext w} (delegation : Delegation) (hmode : delegation.mode = .within)
      (htarget : delegation.target.IsBuiltIn) (hmore : cx.cursor < after.cursor) :
      Consumes (.delegate delegation) after

end ScanContext

namespace PlainText

theorem scan_consumes {w : Window} (cx : ScanContext w) : cx.Consumes (scan cx).1 (scan cx).2 := by
  unfold scan
  split
  case isTrue hend => exact .done (of_decide_eq_true hend) rfl
  case isFalse hmore =>
    rw [Bool.not_eq_true, cx.atEnd_eq_false_iff] at hmore
    exact .token .text (cx.advance_cursor_lt hmore (Nat.sub_pos_of_lt hmore))

end PlainText

namespace Json

/-- A scanner finds something exactly where bytes remain. -/
def Scanner.FindsAll (next? : Scanner) : Prop :=
  ∀ (w : Window) (cx : ScanContext w), next? w cx = none ↔ cx.atEnd = true

theorem scanner_findsAll : scanner.FindsAll := by
  intro w cx
  rw [← cx.peek_eq_none_iff]
  exact Option.map_eq_none_iff

theorem scan_consumes {next? : Scanner} (hnext : next?.FindsAll) {w : Window}
    (cx : ScanContext w) : cx.Consumes (scan next? cx).1 (scan next? cx).2 := by
  unfold scan
  split
  case h_1 hnone => exact .done (of_decide_eq_true ((hnext w cx).mp hnone)) rfl
  case h_2 found hsome =>
    have hmore : cx.cursor < w.limit := by
      rw [← cx.atEnd_eq_false_iff, ← Bool.not_eq_true, ← hnext w cx, hsome]
      exact Option.some_ne_none found
    exact .token found.kind (cx.advance_cursor_lt hmore (Nat.lt_of_lt_of_le Nat.one_pos
      (Nat.le_max_left 1 found.length)))

end Json

namespace Diff

/-- Whatever the condition is, a scan call goes over a marker, a body or a line. -/
theorem scan_consumes {content? : Option LanguageId}
    (hcontent : ∀ target, content? = some target → target.IsBuiltIn) {w : Window}
    (cx : ScanContext w) : cx.Consumes (scan content? cx).1 (scan content? cx).2 := by
  unfold scan
  split
  case isTrue hend => exact .done (of_decide_eq_true hend) rfl
  case isFalse hmore =>
    rw [Bool.not_eq_true, cx.atEnd_eq_false_iff] at hmore
    have hline := cx.advanceLine_cursor_lt hmore
    split
    case isTrue =>
      unfold scanBody
      cases content? with
      | none => exact .token _ hline
      | some target => exact .within _ rfl (hcontent target rfl) hline
    case isFalse =>
      split
      case h_1 body _ => exact .token _ (cx.advance_cursor_lt hmore Nat.one_pos)
      case h_2 => exact .token _ hline

end Diff

/-- A lexer of a language of the library. Its state and its options are arbitrary, except that the
lexer that a diff hands the bodies of lines to, if there is one, is of such a language too. -/
structure Lexer.BuiltIn (host : Host) (lexer : Lexer) : Prop where
  language : lexer.language.IsBuiltIn
  content : lexer.language = .diff → ∀ target,
    Settings.language? ⟨lexer.options, host⟩ "content" = some target → target.IsBuiltIn

theorem Lexer.create_builtIn (catalog : Catalog) (host : Host) {id : LanguageId}
    (hid : id.IsBuiltIn) : (Lexer.create catalog id).BuiltIn host := by
  refine ⟨hid, ?_⟩
  intro hdiff target htarget
  have hsame : id = .diff := hdiff
  subst hsame
  cases htarget

theorem Lexer.BuiltIn.scan_consumes {catalog : Catalog} (hscanner : catalog.jsonScanner.FindsAll)
    {host : Host} {lexer : Lexer} (h : lexer.BuiltIn host) {w : Window} (cx : ScanContext w) :
    cx.Consumes
      ((catalog.language lexer.language).grammar.scan ⟨lexer.options, host⟩ w cx).1
      ((catalog.language lexer.language).grammar.scan ⟨lexer.options, host⟩ w cx).2 := by
  cases hlanguage : lexer.language with
  | diff => exact Diff.scan_consumes (h.content hlanguage) cx
  | json => exact Json.scan_consumes hscanner cx
  | text => exact PlainText.scan_consumes cx
  | custom number =>
    have hcustom := h.language
    rw [hlanguage] at hcustom
    exact hcustom.elim

end Highlighting

import Highlighting.Proofs.Engine.JsonKeys
import Highlighting.Proofs.Registry.ShebangLines

/-! Where a shebang line ends. The search for its end in the whole input, the move over a line in a window,
the place where a run over the rest starts and the text that is scored for a guess all agree. -/
namespace Highlighting

def Bytes.firstLine (input : Bytes) (state : ScanState) :
    Bool × ScanContext (Window.clamp input 0 input.size) :=
  (ScanContext.opening _ state).advanceLine

theorem Bytes.firstLine_eq (input : Bytes) (state : ScanState) :
    (input.firstLine state).1 = decide (input.lineBreak input.size 0 < input.size) ∧
      (input.firstLine state).2.cursor = input.lineEnd input.size 0 := by
  have hfirst : (ScanContext.opening (Window.clamp input 0 input.size) state).cursor = 0 :=
    Nat.zero_min _
  have hlimit : (Window.clamp input 0 input.size).limit = input.size := Nat.min_self _
  obtain ⟨hflag, hcursor, -⟩ := (ScanContext.opening (Window.clamp input 0 input.size) state).advanceLine_eq
  rw [hfirst, hlimit] at hflag hcursor
  exact ⟨hflag, hcursor⟩

theorem ScanContext.setCursor_eq_self {w : Window} (cx : ScanContext w) {position : Nat}
    (hposition : position = cx.cursor) : cx.setCursor position = cx := by
  obtain ⟨cursor, state, hstart, hlimit⟩ := cx
  subst hposition
  simp only [setCursor, mk.injEq, and_true]
  omega

namespace Job

variable (job : Job)

def callFrom (lexer : Lexer) (start : Nat) :
    ScanEvent × ScanContext (Window.clamp job.input start job.input.size) :=
  (job.catalog.language lexer.language).grammar.scan ⟨lexer.options, job.host⟩ _
    (ScanContext.opening _ lexer.state)

def BeginsAt (config : EngineConfig) (lexer : Lexer) (others : List Lexer) (start : Nat) : Prop :=
  (job.start config lexer others).prepare.scan job =
    some ((job.callFrom lexer start).1,
      (job.start config lexer others).prepare.follow (job.callFrom lexer start).2)

theorem beginsAt_of_passedThrough (config : EngineConfig) (lexer : Lexer) (others : List Lexer)
    {first : Nat} (hfirst : (job.passedThrough? config).getD 0 = first)
    (hinside : first ≤ job.input.size) : job.BeginsAt config lexer others first := by
  subst hfirst
  have hcall : (job.start config lexer others).prepare.scanCall job lexer =
      job.callFrom lexer ((job.passedThrough? config).getD 0) := by
    have hstart : (job.passedThrough? config).getD 0 =
        min ((job.passedThrough? config).getD 0) (min job.input.size job.input.size) := by omega
    have hstays := ScanContext.setCursor_eq_self
      (.opening (Window.clamp job.input ((job.passedThrough? config).getD 0) job.input.size)
        lexer.state) hstart
    rw [callFrom, ← hstays]
    rfl
  refine (Run.scan_eq_some_iff job _).mpr ⟨_, job.start_get? config lexer others, ?_, ?_⟩
  · exact congrArg Prod.fst hcall
  · exact congrArg (fun call => (job.start config lexer others).prepare.follow call.2) hcall

end Job

/-- If no program that the shebang line may mean is known, the text behind the line is scored. -/
theorem LexerRegistry.guess?_of_unknown {catalog : Catalog} {registry : LexerRegistry} {source : Bytes}
    {stop : Nat} (hopens : source.stripByteOrderMark.opensWithShebang = true)
    (hstop : source.stripByteOrderMark.shebangLineEnd? = some stop)
    (hunknown : ∀ program ∈
        interpreterCandidates (Utf8.decode (source.stripByteOrderMark.extract 2 stop)).toList,
      registry.forInterpreter? catalog program = none) :
    registry.guess? catalog source =
      registry.bestScoring? catalog
        (source.stripByteOrderMark.extract stop source.stripByteOrderMark.size) := by
  have hend : shebangEnd source.stripByteOrderMark = stop := by
    rw [shebangEnd, hstop, Option.getD_some]
  have hnone : registry.forShebang? catalog source.stripByteOrderMark = none := by
    rw [forShebang?, hend]
    exact List.findSome?_eq_none_iff.mpr hunknown
  rw [guess?, if_pos hopens, hnone, hend, Option.none_or]
  rfl

/-- A text that opens with `#!` and says more than that: the end of its shebang line is where a move over
its first line stops, and there is none if the line has no terminator. If it is passed through, the first
scan call is one of the first lexer, in its own state and from the end of the line on; and if the line
names no known interpreter, a guess scores the text from there on. -/
theorem shebang_line_is_first_line (input : Bytes) (state : ScanState) (hlong : 2 < input.size)
    (hhash : input[0]? = some 0x23) (hbang : input[1]? = some 0x21) :
    (∀ stop, input.shebangLineEnd? = some stop ↔
      (input.firstLine state).1 = true ∧ (input.firstLine state).2.cursor = stop) ∧
    (input.shebangLineEnd? = none ↔ (input.firstLine state).1 = false) ∧
    ∀ stop, input.shebangLineEnd? = some stop →
      stop ≤ input.size ∧
      (∀ (catalog : Catalog) (host : Host) (config : EngineConfig) (source : Bytes) (lexer : Lexer)
          (others : List Lexer),
        config.shebang = .passThrough → (Job.ofSource catalog host config source).input = input →
          (Job.ofSource catalog host config source).BeginsAt config lexer others stop) ∧
      ∀ (catalog : Catalog) (registry : LexerRegistry) (source : Bytes),
        source.stripByteOrderMark = input →
        (∀ program ∈ interpreterCandidates (Utf8.decode (input.extract 2 stop)).toList,
          registry.forInterpreter? catalog program = none) →
        registry.guess? catalog source =
          registry.bestScoring? catalog (input.extract stop input.size) := by
  have hopens : input.opensWithShebang = true := by
    have hfirst : 0 < input.size := by omega
    have hsecond : 1 < input.size := by omega
    rw [Bytes.opensWithShebang, Bytes.startsWith, Bytes.shebang, Bytes.matchesAt, Bytes.matchesAt,
      Bytes.matchesAt, hhash, hbang]
    simp [hfirst, hsecond, hlong]
  obtain ⟨hflag, hcursor⟩ := input.firstLine_eq state
  have hline := Bytes.shebangLineEnd?_eq hopens
  refine ⟨?_, ?_, ?_⟩
  · intro stop
    rw [hline, hflag, hcursor, decide_eq_true_eq, Option.ite_none_right_eq_some, Option.some.injEq]
  · rw [hline, hflag, decide_eq_false_iff_not, ite_eq_right_iff]
    exact ⟨fun hnone hbroken => Option.some_ne_none _ (hnone hbroken), fun hnot hbroken => absurd hbroken hnot⟩
  · intro stop hstop
    have hinside : stop ≤ input.size := by
      rw [hline, Option.ite_none_right_eq_some] at hstop
      obtain ⟨-, hend⟩ := hstop
      rw [← Option.some.inj hend]
      exact Bytes.lineEnd_le (Nat.zero_le _)
    refine ⟨hinside, ?_, ?_⟩
    · intro catalog host config source lexer others hpass hinput
      apply Job.beginsAt_of_passedThrough
      · rw [Job.passedThrough?, hpass, hinput]
        dsimp only
        rw [hstop, Option.getD_some]
      · rw [hinput]
        exact hinside
    · rintro catalog registry source rfl hunknown
      exact LexerRegistry.guess?_of_unknown hopens hstop hunknown

def Bytes.pairedShebang : Bytes :=
  Bytes.ofText "#!/bin/sh\r\n[]"

def Bytes.markedShebang : Bytes :=
  Bytes.ofText "\ufeff#!/bin/sh\r\n[]"

theorem paired_shebang_is_first_line :
    2 < Bytes.pairedShebang.size ∧ Bytes.pairedShebang[0]? = some 0x23 ∧
    Bytes.pairedShebang[1]? = some 0x21 ∧
    (Bytes.pairedShebang.firstLine {}).1 = true ∧ (Bytes.pairedShebang.firstLine {}).2.cursor = 11 ∧
    (Job.ofSource .relay (fun _ => none) {} .markedShebang).BeginsAt {} (Lexer.create .relay .json) [] 11 ∧
    LexerRegistry.builtin.guess? .relay .markedShebang =
      LexerRegistry.builtin.bestScoring? .relay (Bytes.ofText "[]") := by
  have hlong : 2 < Bytes.pairedShebang.size := by decide +kernel
  have hhash : Bytes.pairedShebang[0]? = some 0x23 := by decide +kernel
  have hbang : Bytes.pairedShebang[1]? = some 0x21 := by decide +kernel
  have hstop : Bytes.pairedShebang.shebangLineEnd? = some 11 := by decide +kernel
  obtain ⟨hend, -, hbehind⟩ := shebang_line_is_first_line .pairedShebang {} hlong hhash hbang
  obtain ⟨hfound, hcursor⟩ := (hend 11).mp hstop
  obtain ⟨-, hbegins, hguess⟩ := hbehind 11 hstop
  have hrest : Bytes.pairedShebang.extract 11 Bytes.pairedShebang.size = Bytes.ofText "[]" := by
    decide +kernel
  rw [← hrest]
  exact ⟨hlong, hhash, hbang, hfound, hcursor, hbegins _ _ _ _ _ _ rfl (by decide +kernel),
    hguess _ _ _ (by decide +kernel) (by decide +kernel)⟩

end Highlighting

import Highlighting.Proofs.Format.Document

/-! The plain format can be read back. Each run of a document is a line of its own, with the name of the
kind in front and the text behind it; neither holds a line break, and a name holds no colon, so that
lines, names and texts can be told apart, and escaping a text can be undone. -/
namespace Highlighting

def Call.runText : List Call → List UInt8
  | .write text :: rest => text.toList ++ runText rest
  | _ => []

/-- The runs of a sequence of calls: the kind of each, and the texts written in it put together. -/
def Call.runs : List Call → List (TokenKind × List UInt8)
  | [] => []
  | .startToken kind :: rest => (kind, runText rest) :: runs rest
  | _ :: rest => runs rest

namespace Call

variable {rest : List Call}

theorem runText_append (hrest : ∀ call ∈ rest.head?, call.isWrite = false) (calls : List Call) :
    runText (calls ++ rest) = runText calls := by
  induction calls with
  | nil =>
    cases rest with
    | nil => rfl
    | cons call more =>
      have hcall := hrest call rfl
      cases call with
      | write => cases hcall
      | _ => rfl
  | cons call calls ih =>
    cases call with
    | write text => simp only [List.cons_append, runText, ih]
    | _ => rfl

theorem runs_append (hrest : ∀ call ∈ rest.head?, call.isWrite = false) (calls : List Call) :
    runs (calls ++ rest) = runs calls ++ runs rest := by
  induction calls with
  | nil => rfl
  | cons call calls ih =>
    cases call with
    | startToken kind => simp only [List.cons_append, runs, runText_append hrest, ih]
    | _ => exact ih

theorem runs_run (kind : TokenKind) (texts : List Bytes) :
    runs (Call.run kind texts) = [(kind, texts.flatMap Array.toList)] := by
  have htext : runText (texts.map .write ++ [.endToken kind]) = texts.flatMap Array.toList := by
    induction texts with
    | nil => rfl
    | cons text texts ih => simp only [List.map_cons, List.cons_append, runText, ih, List.flatMap_cons]
  have hnone : runs (texts.map .write ++ [.endToken kind]) = [] := by
    clear htext
    induction texts with
    | nil => rfl
    | cons text texts ih => exact ih
  rw [Call.run, runs, htext, hnone]

end Call

namespace Plain

def escapeText (text : List UInt8) : List UInt8 :=
  text.flatMap (fun b => (escape b).toList)

def header (kind : TokenKind) : List UInt8 :=
  (Bytes.ofText kind.canonicalName).toList

def line (run : TokenKind × List UInt8) : List UInt8 :=
  header run.1 ++ [0x3A, 0x20] ++ escapeText run.2

def page (runs : List (TokenKind × List UInt8)) : List UInt8 :=
  runs.flatMap (fun run => (Call.run run.1 [run.2.toArray]).flatMap (fun call => (render call).toList))

def kind? (name : List UInt8) : Option TokenKind :=
  TokenKind.all.find? (fun kind => header kind == name)

def hexValue? (b : UInt8) : Option UInt8 :=
  if 0x30 ≤ b ∧ b ≤ 0x39 then some (b - 0x30)
  else if 0x41 ≤ b ∧ b ≤ 0x46 then some (b - 0x37)
  else none

def unescape : List UInt8 → Option (List UInt8)
  | [] => some []
  | b :: rest =>
    if b ≠ 0x5C then (unescape rest).map (b :: ·)
    else
      match rest with
      | 0x6E :: rest => (unescape rest).map (0x0A :: ·)
      | 0x72 :: rest => (unescape rest).map (0x0D :: ·)
      | 0x74 :: rest => (unescape rest).map (0x09 :: ·)
      | 0x5C :: rest => (unescape rest).map (0x5C :: ·)
      | 0x78 :: high :: low :: rest =>
        match hexValue? high, hexValue? low with
        | some high, some low => (unescape rest).map ((16 * high + low) :: ·)
        | _, _ => none
      | _ => none

def readLine? (line : List UInt8) : Option (TokenKind × List UInt8) :=
  match line.dropWhile (· != 0x3A) with
  | 0x3A :: 0x20 :: text =>
    match kind? (line.takeWhile (· != 0x3A)), unescape text with
    | some kind, some text => some (kind, text)
    | _, _ => none
  | _ => none

/-- Reads all lines. What follows the last line break is no line. -/
def decode (output : List UInt8) : Option (List (TokenKind × List UInt8)) :=
  (output.splitOn 0x0A).dropLast.mapM readLine?

theorem header_reads (kind : TokenKind) :
    kind? (header kind) = some kind ∧ ∀ b ∈ header kind, b ≠ 0x3A ∧ b ≠ 0x0A := by
  have hall : ∀ kind ∈ TokenKind.all,
      kind? (header kind) = some kind ∧ ∀ b ∈ header kind, b ≠ 0x3A ∧ b ≠ 0x0A := by
    decide +kernel
  exact hall kind kind.mem_all

theorem hexValue?_digit :
    ∀ n < 16, hexValue? (Bytes.code (Text.hexDigit 'A' n)) = some n.toUInt8 := by
  decide

theorem unescape_cons {b : UInt8} (hb : b ≠ 0x5C) (rest : List UInt8) :
    unescape (b :: rest) = (unescape rest).map (b :: ·) := by
  rw [unescape.eq_def]
  exact if_pos hb

theorem unescape_escape (b : UInt8) (rest : List UInt8) :
    unescape ((escape b).toList ++ rest) = (unescape rest).map (b :: ·) := by
  by_cases hfeed : b = 0x0A
  · simp [escape, unescape, hfeed]
  by_cases hreturn : b = 0x0D
  · simp [escape, unescape, hreturn]
  by_cases htab : b = 0x09
  · simp [escape, unescape, htab]
  by_cases hbackslash : b = 0x5C
  · simp [escape, unescape, hbackslash]
  by_cases hprintable : 0x20 ≤ b ∧ b ≤ 0x7E
  · simp [escape, hfeed, hreturn, htab, hbackslash, hprintable, unescape_cons hbackslash]
  · -- The two digits are those of the byte's value.
    have hhigh := hexValue?_digit (b.toNat / 16) (by have := b.toNat_lt; omega)
    have hlow := hexValue?_digit (b.toNat % 16) (Nat.mod_lt _ (by decide))
    have hvalue : 16 * (b.toNat / 16).toUInt8 + (b.toNat % 16).toUInt8 = b := by
      apply UInt8.toNat_inj.mp
      have := b.toNat_lt
      simp
      omega
    simp [escape, unescape, hexEscape, hfeed, hreturn, htab, hbackslash, hprintable, hhigh, hlow, hvalue]

theorem unescape_escapeText (text : List UInt8) : unescape (escapeText text) = some text := by
  induction text with
  | nil => rfl
  | cons b text ih =>
    rw [escapeText, List.flatMap_cons, unescape_escape]
    change (unescape (escapeText text)).map (b :: ·) = _
    rw [ih]
    rfl

theorem hexDigit_ne_feed : ∀ n < 16, Bytes.code (Text.hexDigit 'A' n) ≠ 0x0A := by
  decide

theorem feed_not_mem_escape (b : UInt8) : 0x0A ∉ (escape b).toList := by
  by_cases hfeed : b = 0x0A
  · subst hfeed
    decide
  unfold escape
  rw [if_neg (by simpa using hfeed)]
  split
  · decide
  split
  · decide
  split
  · decide
  split
  · simpa using Ne.symm hfeed
  · have hhigh := hexDigit_ne_feed (b.toNat / 16) (by have := b.toNat_lt; omega)
    have hlow := hexDigit_ne_feed (b.toNat % 16) (Nat.mod_lt _ (by decide))
    simp [hexEscape, hhigh.symm, hlow.symm]

theorem feed_not_mem_line (run : TokenKind × List UInt8) : 0x0A ∉ line run := by
  intro hfeed
  rcases List.mem_append.mp hfeed with hfront | htext
  · rcases List.mem_append.mp hfront with hheader | hcolon
    · exact ((header_reads run.1).2 0x0A hheader).2 rfl
    · revert hcolon
      decide
  · obtain ⟨b, -, hb⟩ := List.mem_flatMap.mp htext
    exact feed_not_mem_escape b hb

theorem readLine?_line (run : TokenKind × List UInt8) : readLine? (line run) = some run := by
  have hheader : ∀ b ∈ header run.1, (b != 0x3A) = true :=
    fun b hb => bne_iff_ne.mpr ((header_reads run.1).2 b hb).1
  have hsplit : line run = header run.1 ++ 0x3A :: 0x20 :: escapeText run.2 := by simp [line]
  have hname : (line run).takeWhile (· != 0x3A) = header run.1 := by
    rw [hsplit, List.takeWhile_append_of_pos hheader]
    simp
  have htext : (line run).dropWhile (· != 0x3A) = 0x3A :: 0x20 :: escapeText run.2 := by
    rw [hsplit, List.dropWhile_append_of_pos hheader]
    simp
  simp only [readLine?, htext, hname, (header_reads run.1).1, unescape_escapeText]

theorem page_cons (run : TokenKind × List UInt8) (rest : List (TokenKind × List UInt8)) :
    page (run :: rest) = line run ++ 0x0A :: page rest := by
  simp [page, line, Call.run, render, header, escapeText]

/-- Broken at line breaks, a page is the lines of its runs and nothing behind them. -/
theorem splitOn_page (runs : List (TokenKind × List UInt8)) :
    (page runs).splitOn 0x0A = runs.map line ++ [[]] := by
  induction runs with
  | nil => rfl
  | cons run rest ih =>
    have hclean : ∀ b ∈ line run, (b == 0x0A) = false := by
      intro b hb
      refine beq_eq_false_iff_ne.mpr ?_
      rintro rfl
      exact feed_not_mem_line run hb
    have hbreak := List.splitOnP_append_cons_of_forall_mem hclean 0x0A rfl (page rest)
    rw [page_cons, List.map_cons, List.cons_append, ← ih]
    exact hbreak

/-- Runs are read back from their page. -/
theorem decode_page (runs : List (TokenKind × List UInt8)) : decode (page runs) = some runs := by
  rw [decode, splitOn_page, List.dropLast_concat]
  induction runs with
  | nil => rfl
  | cons run rest ih => simp [List.mapM_cons, readLine?_line, ih]

theorem page_append (first second : List (TokenKind × List UInt8)) :
    page (first ++ second) = page first ++ page second :=
  List.flatMap_append

theorem render_run (kind : TokenKind) (texts : List Bytes) :
    (Call.run kind texts).flatMap (fun call => (render call).toList) =
      page [(kind, texts.flatMap Array.toList)] := by
  have hwrites : (texts.map .write).flatMap (fun call => (render call).toList) =
      escapeText (texts.flatMap Array.toList) := by
    induction texts with
    | nil => rfl
    | cons text texts ih =>
      rw [List.map_cons, List.flatMap_cons, ih]
      simp [render, escapeText]
  rw [page_cons, Call.run, List.flatMap_cons, List.flatMap_append, hwrites]
  simp [render, line, header, page]

/-- What stands between the ends of a document is written as the page of its runs. -/
theorem render_body {depth : Nat} {last : Option TokenKind} {body : List Call}
    (h : Body depth last body) :
    body.flatMap (fun call => (render call).toList) = page (Call.runs body) := by
  induction h with
  | empty => rfl
  | @run depth last before kind texts hbefore hkind htexts ih =>
    have hstart : ∀ call ∈ (Call.run kind texts).head?, call.isWrite = false := by
      simp [Call.run, Call.isWrite]
    rw [List.flatMap_append, ih, render_run, Call.runs_append hstart, Call.runs_run, page_append]
  | @delegate depth last final before inner name hbefore hinner ihbefore ihinner =>
    -- The ends of a delegate are written as nothing, but they keep the runs on either side apart.
    have hstart : ∀ call ∈ (Call.startLexing name :: (inner ++ [.endLexing name])).head?,
        call.isWrite = false := by
      simp [Call.isWrite]
    have hend : ∀ call ∈ [Call.endLexing name].head?, call.isWrite = false := by
      simp [Call.isWrite]
    rw [Call.runs_append hstart, Call.runs, Call.runs_append hend, page_append, page_append,
      ← ihbefore, ← ihinner]
    · simp [render, Call.runs, page]
    · intro kind hcall
      cases hcall

end Plain

/-- The plain output of a run that succeeds can be read back: decoding it gives the runs of the document,
each with its kind and its text. Its lines are those of the runs, one for each, and no two lists of
runs are written in the same way. -/
theorem plain_output_decodes (fuel : Nat) (catalog : Catalog) (host : Host) (config : EngineConfig)
    (source : Bytes) (lexers : List Lexer) (highlighted : Highlighted) (options : OptionSet Lexer)
    (output : Bytes) (hrun : highlight fuel catalog host config source lexers = some highlighted)
    (hrender : highlighted.render ⟨Plain.format, options⟩ = .ok output) :
    ∃ calls, highlighted.outcome = .ok calls ∧
      output.toList = Plain.page (Call.runs calls.toList) ∧
      Plain.decode output.toList = some (Call.runs calls.toList) ∧
      output.toList.splitOn 0x0A = (Call.runs calls.toList).map Plain.line ++ [[]] ∧
      (∀ run, 0x0A ∉ Plain.line run) ∧ Function.Injective Plain.page := by
  obtain ⟨calls, hok, hdocument, houtput⟩ := render_eq_ok hrun hrender
  have hpage : output.toList = Plain.page (Call.runs calls.toList) := by
    obtain ⟨last, body, hbody, hcalls⟩ := hdocument
    have hend : ∀ call ∈ [Call.endDocument].head?, call.isWrite = false := by
      simp [Call.isWrite]
    rw [houtput, hcalls, Call.runs, Call.runs_append hend, Plain.page_append, ← Plain.render_body hbody]
    · simp [Plain.format, Plain.render, Call.runs, Plain.page]
    · intro kind hcall
      cases hcall
  refine ⟨calls, hok, hpage, ?_, ?_, Plain.feed_not_mem_line, ?_⟩
  · rw [hpage, Plain.decode_page]
  · rw [hpage, Plain.splitOn_page]
  · -- What can be decoded was written in one way only.
    intro first second hsame
    have hdecoded := congrArg Plain.decode hsame
    rw [Plain.decode_page, Plain.decode_page] at hdecoded
    exact Option.some.inj hdecoded

/-- A source that looks like a line of the format, with a line break and a backslash of its own. -/
theorem plain_output_decodes_forgery :
    ∃ highlighted output calls,
      highlight 64 .relay (fun _ => none) {} (Bytes.ofText "+a\nTEXT: \\n\n")
        [Lexer.create .relay .diff] = some highlighted ∧
      highlighted.render ⟨Plain.format, ⟨[]⟩⟩ = .ok output ∧ highlighted.outcome = .ok calls ∧
      output = Bytes.ofText "GENERIC_INSERTED: +a\\n\nIGNORABLE: TEXT: \\\\n\\n\n" ∧
      Plain.decode output.toList = some (Call.runs calls.toList) := by
  have hrendered : (highlight 64 .relay (fun _ => none) {} (Bytes.ofText "+a\nTEXT: \\n\n")
      [Lexer.create .relay .diff]).map
        (fun highlighted => (highlighted.render ⟨Plain.format, ⟨[]⟩⟩).toOption) =
      some (some (Bytes.ofText "GENERIC_INSERTED: +a\\n\nIGNORABLE: TEXT: \\\\n\\n\n")) := by
    decide +kernel
  obtain ⟨highlighted, hrun, hsome⟩ := Option.map_eq_some_iff.mp hrendered
  cases hrender : highlighted.render ⟨Plain.format, ⟨[]⟩⟩ with
  | error error =>
    rw [hrender] at hsome
    cases hsome
  | ok output =>
    rw [hrender] at hsome
    cases hsome
    obtain ⟨calls, hok, -, hdecode, -⟩ :=
      plain_output_decodes 64 .relay (fun _ => none) {} _ _ highlighted ⟨[]⟩ _ hrun hrender
    exact ⟨highlighted, _, calls, hrun, hrender, hok, rfl, hdecode⟩

end Highlighting

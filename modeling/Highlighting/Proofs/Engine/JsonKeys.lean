import Highlighting.Proofs.Engine.Attempts
import Highlighting.Proofs.Engine.Invariant
import Highlighting.Proofs.Engine.Labels
import Highlighting.Proofs.Grammar.JsonScanner
import Highlighting.Proofs.Grammar.JsonText

/-! JSON from end to end: a lexer for JSON that looks for member names writes every lexeme of a JSON
text under its kind, member names under that of tag names, whatever the size of the queue is. -/
namespace Highlighting

namespace LiveLexers

theorem get?_update {live : LiveLexers} {id : LanguageId} {element : Element}
    (hget : live.get? id = some element) (change : Element → Element)
    (hchange : ∀ element, (change element).language = element.language) :
    (live.update id change).get? id = some (change element) := by
  have hlanguage := language_of_get? hget
  -- A change keeps the language, so the look-up ends at the same element.
  have hsame : (fun element : Element => element.language == id) ∘
      (fun element => if element.language == id then change element else element) =
      fun element => element.language == id := by
    funext other
    by_cases hid : other.language = id
    · simp [hid, hchange]
    · simp [hid]
  have hfound : live.table.find? (fun element => element.language == id) = some element := hget
  rw [get?, update, List.find?_map, hsame, hfound, Option.map_some, hlanguage, beq_self_eq_true]
  rfl

end LiveLexers

namespace Run

open Json

/-- A run at the boundary of two tokens of a JSON text: the outermost lexer is one for JSON and active,
and its parser is in a given state. -/
structure Follows (job : Job) (state : KeyState) (run : Run) : Prop where
  active : run.active = .json
  frames : run.frames = []
  bridge : run.bridge = true
  idle : run.accumulating = false
  limit : run.limit = job.input.size
  parser : ∃ element, run.live.get? .json = some element ∧
    element.parser? = some (keyParserAt state)
  tracks : run.emitter.Tracks

variable {job : Job} {run : Run} {state next : KeyState} {kind : TokenKind} {text rest : List UInt8}

theorem Follows.follow (h : run.Follows job state) {w : Window} (after : ScanContext w) :
    (run.prepare.follow after).Follows job state := by
  obtain ⟨element, hget, hparser⟩ := h.parser
  have hupdated := LiveLexers.get?_update hget (Element.setState · after.state) (fun _ => rfl)
  refine ⟨h.active, h.frames, h.bridge, rfl, h.limit, ⟨element.setState after.state, ?_, hparser⟩, h.tracks⟩
  rw [← hupdated, ← h.active]
  rfl

def jsonContext (job : Job) (run : Run) (lexer : Lexer) :
    ScanContext (Window.clamp job.input run.text run.limit) :=
  (ScanContext.opening _ lexer.state).setCursor run.cursor

theorem Follows.scan_eq (h : run.Follows job state) :
    ∃ lexer : Lexer, run.prepare.scan job =
      some ((Json.scan job.catalog.jsonScanner (run.prepare.jsonContext job lexer)).1,
        run.prepare.follow
          (Json.scan job.catalog.jsonScanner (run.prepare.jsonContext job lexer)).2) := by
  obtain ⟨element, hget, -⟩ := h.parser
  have hlanguage : element.lexer.language = .json := LiveLexers.language_of_get? hget
  have hcall : run.prepare.scanCall job element.lexer =
      Json.scan job.catalog.jsonScanner (run.prepare.jsonContext job element.lexer) := by
    unfold Run.scanCall
    rw [hlanguage]
    rfl
  refine ⟨element.lexer, (scan_eq_some_iff job run.prepare).mpr ⟨element, ?_, ?_, ?_⟩⟩
  · rw [← hget, ← h.active]
    rfl
  · rw [hcall]
  · rw [hcall]

theorem Follows.context (h : run.Follows job state) (hcursor : run.cursor ≤ job.input.size)
    (lexer : Lexer) :
    (run.prepare.jsonContext job lexer).cursor = run.cursor ∧
      (Window.clamp job.input run.prepare.text run.prepare.limit).limit = job.input.size := by
  have htext : run.prepare.text = run.cursor := prepare_text_of_idle run h.idle
  have hlimit : run.prepare.limit = job.input.size := h.limit
  have hstays : run.prepare.cursor = run.cursor := rfl
  simp only [jsonContext, ScanContext.setCursor, Window.clamp, htext, hlimit, hstays]
  omega

theorem Follows.scan_token (h : run.Follows job state)
    (hscanner : job.catalog.jsonScanner.TakesLongest)
    (hrest : (job.input.extract run.cursor job.input.size).toList = text ++ rest)
    (hlongest : LongestMatch kind text rest) :
    ∃ (w : Window) (after : ScanContext w),
      run.prepare.scan job = some (.token kind, run.prepare.follow after) ∧
        after.cursor = run.cursor + text.length := by
  obtain ⟨b, tail, htext, -⟩ := hlongest.pattern.opens
  have hsize := congrArg List.length hrest
  simp only [Array.length_toList, Array.size_extract, Nat.min_self, List.length_append] at hsize
  have hsome : 0 < text.length := by
    rw [htext]
    exact Nat.succ_pos _
  obtain ⟨lexer, hscan⟩ := h.scan_eq
  obtain ⟨hcursor, hlimit⟩ := h.context (by omega) lexer
  have hview : (run.prepare.jsonContext job lexer).rest.toList = text ++ rest := by
    rw [ScanContext.rest, hcursor, hlimit]
    exact hrest
  have hfound := hscanner.longest _ _ kind text rest hview hlongest
  simp only [Json.scan, hfound] at hscan
  refine ⟨_, _, hscan, ?_⟩
  simp only [ScanContext.advance, hcursor, hlimit]
  omega

theorem Follows.scan_done (h : run.Follows job state)
    (hscanner : job.catalog.jsonScanner.TakesLongest) (hend : run.cursor = job.input.size) :
    ∃ (w : Window) (after : ScanContext w),
      run.prepare.scan job = some (.done, run.prepare.follow after) ∧ after.cursor = run.cursor := by
  obtain ⟨lexer, hscan⟩ := h.scan_eq
  obtain ⟨hcursor, hlimit⟩ := h.context (Nat.le_of_eq hend) lexer
  have hatEnd : (run.prepare.jsonContext job lexer).atEnd = true := by
    rw [ScanContext.atEnd, hcursor, hlimit, hend]
    exact decide_eq_true (Nat.le_refl _)
  have hnone := hscanner.exhausted _ _ hatEnd
  simp only [Json.scan, hnone] at hscan
  exact ⟨_, _, hscan, hcursor⟩

theorem Follows.consultParser (h : run.Follows job state)
    (htext : job.input.extract run.text run.cursor = text.toArray)
    (hnext : state.next kind text = (next, .proceed)) :
    ((run.queue kind).consultParser job kind).Follows job next ∧
      ((run.queue kind).consultParser job kind).pending =
        run.pending.push ⟨run.text, run.cursor, kind, if state.isKey kind then .nameTag else kind⟩ := by
  obtain ⟨element, hget, hparser⟩ := h.parser
  have hasked : (if (run.queue kind).bridge then
      ((run.queue kind).live.get? (run.queue kind).active).bind Element.parser? else none) =
        some (keyParserAt state) := by
    have hlive : (run.queue kind).live.get? (run.queue kind).active = some element := by
      rw [← hget, ← h.active]
      rfl
    have hbridge : (run.queue kind).bridge = true := h.bridge
    rw [if_pos hbridge, hlive, Option.bind_some, hparser]
  have hfeed := keyParser_feed hnext run.pending (Span.ofLexer run.text run.cursor kind)
  rw [← htext] at hfeed
  have hspan : (if state.isKey kind then (Span.ofLexer run.text run.cursor kind).relabel .nameTag
      else Span.ofLexer run.text run.cursor kind) =
        ⟨run.text, run.cursor, kind, if state.isKey kind then .nameTag else kind⟩ := by
    split <;> rfl
  have hupdated := LiveLexers.get?_update hget (Element.setParser · (keyParserAt next)) (fun _ => rfl)
  have heq : (run.queue kind).consultParser job kind =
      { run with
        live := run.live.update run.active (Element.setParser · (keyParserAt next))
        pending := run.pending.push
          ⟨run.text, run.cursor, kind, if state.isKey kind then .nameTag else kind⟩ } := by
    unfold Run.consultParser
    rw [hasked]
    simp only [queue, hfeed, hspan]
  rw [heq]
  refine ⟨⟨h.active, h.frames, h.bridge, h.idle, h.limit, ?_, h.tracks⟩, rfl⟩
  refine ⟨element.setParser (keyParserAt next), ?_, rfl⟩
  rw [← hupdated, ← h.active]

theorem Follows.flushIfFull (h : run.Follows job state) : (run.flushIfFull job).Follows job state := by
  have htracks := flushIfFull_tracks job h.tracks
  unfold Run.flushIfFull at htracks ⊢
  split
  · exact ⟨h.active, h.frames, h.bridge, h.idle, h.limit, h.parser, by simpa [*] using htracks⟩
  · exact h

/-- A token is written under its kind, and the parser has seen it. -/
theorem Follows.token (h : run.Follows job state) (hstop : run.text < run.cursor)
    (htext : job.input.extract run.text run.cursor = text.toArray) (hsome : text ≠ [])
    (hnext : state.next kind text = (next, .proceed)) :
    (run.token job kind).Follows job next ∧ (run.token job kind).cursor = run.cursor ∧
      (run.token job kind).labelled job = (run.labelled job).push
        (some (if state.isKey kind then .nameTag else kind), text.toArray) := by
  obtain ⟨hconsulted, hpending⟩ := h.consultParser htext hnext
  have htoken : run.token job kind = ((run.queue kind).consultParser job kind).flushIfFull job :=
    if_neg (Nat.not_le.mpr hstop)
  have hcursor := congrArg Place.cursor (token_place job run kind)
  refine ⟨htoken ▸ hconsulted.flushIfFull, hcursor, ?_⟩
  have hwritten : job.input.extract run.text run.cursor ≠ #[] := by
    rw [htext]
    exact fun hempty => hsome (congrArg Array.toList hempty)
  rw [htoken, flushIfFull_labelled, ← htext]
  exact push_labelled job h.tracks (consultParser_emitter job (run.queue kind) kind) hpending hwritten

theorem Follows.step_token (h : run.Follows job state)
    (hscanner : job.catalog.jsonScanner.TakesLongest)
    (hrest : (job.input.extract run.cursor job.input.size).toList = text ++ rest)
    (hlongest : LongestMatch kind text rest) (hnext : state.next kind text = (next, .proceed)) :
    ∃ after, run.step job = .running after ∧ after.Follows job next ∧
      after.cursor = run.cursor + text.length ∧
      after.labelled job = (run.labelled job).push
        (some (if state.isKey kind then .nameTag else kind), text.toArray) := by
  obtain ⟨w, found, hscan, hcursor⟩ := h.scan_token hscanner hrest hlongest
  have hstart : (run.prepare.follow found).text = run.cursor := prepare_text_of_idle run h.idle
  have hstop : (run.prepare.follow found).cursor = run.cursor + text.length := hcursor
  have hsome : text ≠ [] := by
    obtain ⟨b, tail, rfl, -⟩ := hlongest.pattern.opens
    exact List.cons_ne_nil b tail
  have hforward : run.cursor < run.cursor + text.length :=
    Nat.lt_add_of_pos_right (List.length_pos_iff.mpr hsome)
  have htext : job.input.extract (run.prepare.follow found).text (run.prepare.follow found).cursor =
      text.toArray := by
    rw [hstart, hstop]
    exact Array.toList_inj.mp (Bytes.extract_eq_append hrest).1
  obtain ⟨hfollows, hsettled, hlabelled⟩ :=
    (h.follow found).token (by rw [hstart, hstop]; exact hforward) htext hsome hnext
  rw [hstop] at hsettled
  refine ⟨_, step_of_token hscan (hstop.symm ▸ hforward), ?_, hsettled, hlabelled⟩
  exact ⟨hfollows.active, hfollows.frames, hfollows.bridge, hfollows.idle, hfollows.limit,
    hfollows.parser, hfollows.tracks⟩

theorem Follows.step_done (h : run.Follows job state)
    (hscanner : job.catalog.jsonScanner.TakesLongest) (hend : run.cursor = job.input.size) :
    ∃ last, run.step job = .finished last ∧
      Call.labelled (last.document job) = run.labelled job := by
  obtain ⟨w, found, hscan, hcursor⟩ := h.scan_done hscanner hend
  exact step_of_closed_labelled job hscan h.frames h.idle hcursor h.tracks

/-- A whole run over what is left of a text. -/
theorem Follows.drive (hscanner : job.catalog.jsonScanner.TakesLongest) {tokens : List Token}
    {final : KeyState} {fuel : Nat} (h : run.Follows job state) (hcursor : run.cursor ≤ job.input.size)
    (hrest : (job.input.extract run.cursor job.input.size).toList = tokens.flatMap Token.text)
    (hlongest : LongestMatches tokens) (hreads : state.Reads (tokens.map Token.fed) final)
    (hfuel : tokens.length < fuel) :
    ∃ last, drive job fuel run = some (.ok (), last) ∧
      Call.labelled (last.document job) = run.labelled job ++
        (tokens.map (fun token => (some token.kind, token.text.toArray))).toArray := by
  -- Each token takes one step, and the end takes one more.
  induction tokens generalizing run state fuel with
  | nil =>
    have hend : run.cursor = job.input.size := by
      have hsize := congrArg List.length hrest
      simp only [Array.length_toList, Array.size_extract, List.flatMap_nil, List.length_nil] at hsize
      omega
    obtain ⟨last, hstep, hdocument⟩ := h.step_done hscanner hend
    obtain ⟨fuel, rfl⟩ := Nat.exists_eq_add_one.mpr hfuel
    refine ⟨last, ?_, by simpa using hdocument⟩
    simp only [Run.drive, hstep]
  | cons token tokens ih =>
    obtain ⟨fuel, rfl⟩ := Nat.exists_eq_add_one.mpr (Nat.zero_lt_of_lt hfuel)
    cases hreads with
    | cons hnext hkey hmore =>
      rw [token.fed_text] at hnext
      obtain ⟨after, hstep, hfollows, hstop, hlabelled⟩ :=
        h.step_token hscanner hrest hlongest.1 hnext
      have hbehind := (Bytes.extract_eq_append hrest).2
      rw [← hstop] at hbehind
      have hwithin : after.cursor ≤ job.input.size := by
        have hsize := congrArg List.length hrest
        simp only [Array.length_toList, Array.size_extract, Nat.min_self, List.flatMap_cons,
          List.length_append] at hsize
        omega
      obtain ⟨last, hdrive, hdocument⟩ :=
        ih hfollows hwithin hbehind hlongest.2 hmore (Nat.lt_of_succ_lt_succ hfuel)
      refine ⟨last, by simp only [Run.drive, hstep, hdrive], ?_⟩
      rw [hdocument, hlabelled, hkey, ← token.kind_eq]
      simp

end Run

section Start

theorem Job.enlist_get? (job : Job) (bridge : Bool) {live : LiveLexers} {id : LanguageId}
    {element : Element} (hget : live.get? id = some element) (entry : Lexer × Nat) :
    (job.enlist bridge live entry).get? id = some element := by
  unfold Job.enlist LiveLexers.insert
  split
  · exact hget
  split
  · exact hget
  · have hfound : live.table.find? (fun element => element.language == id) = some element := hget
    simp [LiveLexers.get?, hfound]

theorem Job.start_get? (job : Job) (config : EngineConfig) (lexer : Lexer) (others : List Lexer) :
    (job.start config lexer others).live.get? lexer.language =
      some (job.element config.parserBridge (.caller 0) lexer) := by
  have hfirst : (job.enlist config.parserBridge {} (lexer, 0)).get? lexer.language =
      some (job.element config.parserBridge (.caller 0) lexer) := by
    simp [Job.enlist, LiveLexers.isFull, lexerCapacity, LiveLexers.insert, LiveLexers.contains,
      LiveLexers.get?, Job.element, Element.language]
  have hrest (entries : List (Lexer × Nat)) (live : LiveLexers)
      (hlive : live.get? lexer.language =
        some (job.element config.parserBridge (.caller 0) lexer)) :
      (entries.foldl (job.enlist config.parserBridge) live).get? lexer.language =
        some (job.element config.parserBridge (.caller 0) lexer) := by
    induction entries generalizing live with
    | nil => exact hlive
    | cons entry entries ih => exact ih _ (job.enlist_get? config.parserBridge hlive entry)
  exact hrest (others.zipIdx 1) _ hfirst

theorem Job.start_follows (job : Job) (config : EngineConfig) (lexer : Lexer) (others : List Lexer)
    (hbridge : config.parserBridge = true) (hlexer : lexer.language = .json)
    (hkeys : lexer.options.flag "keys" = true) (hshebang : job.passedThrough? config = none) :
    (job.start config lexer others).Follows job {} ∧ (job.start config lexer others).cursor = 0 ∧
      (job.start config lexer others).labelled job = #[] := by
  have hparser : (job.element config.parserBridge (.caller 0) lexer).parser? =
      some (Json.keyParserAt {}) := by
    have hasked : (job.catalog.language lexer.language).grammar.parser? ⟨lexer.options, job.host⟩ =
        some Json.keyParser := by
      rw [hlexer]
      exact if_pos hkeys
    simp only [Job.element, hbridge, if_true, hasked]
    rfl
  have hget := job.start_get? config lexer others
  rw [hlexer] at hget
  refine ⟨⟨hlexer, rfl, hbridge, rfl, rfl, ⟨_, hget, hparser⟩, rfl⟩, ?_, ?_⟩
  · simp [Job.start, hshebang]
  · simp only [Run.labelled, Job.start, hshebang]
    rfl

/-- A source that does not begin like a byte order mark or a shebang is taken as it is. -/
theorem Job.ofSource_plain (catalog : Catalog) (host : Host) (config : EngineConfig) {source : Bytes}
    {b : UInt8} {tail : List UInt8} (hsource : source.toList = b :: tail) (hmark : b ≠ 0xEF)
    (hhash : b ≠ 0x23) :
    (Job.ofSource catalog host config source).input = source ∧
      (Job.ofSource catalog host config source).passedThrough? config = none := by
  have hstarts {first : UInt8} (hfirst : b ≠ first) (more : List UInt8) :
      source.startsWith (first :: more) = false := by
    have hb : source[0]? = some b := by
      rw [← Array.getElem?_toList, hsource]
      rfl
    simp [Bytes.startsWith, Bytes.matchesAt, hb, hfirst]
  have hinput : (Job.ofSource catalog host config source).input = source := by
    have hstrip : source.stripByteOrderMark = source := by
      rw [Bytes.stripByteOrderMark, Bytes.byteOrderMark, hstarts hmark]
      rfl
    simp only [Job.ofSource, hstrip, ite_self]
  refine ⟨hinput, ?_⟩
  unfold Job.passedThrough?
  split
  · rw [hinput, Bytes.shebangLineEnd?, Bytes.opensWithShebang, Bytes.shebang, hstarts hhash]
    simp
  · rfl

end Start

/-- A lexer for JSON that looks for member names writes a JSON text lexeme by lexeme, and each under its
kind: names of members, other strings, whole and other numbers, constants, structural characters, and
runs of whitespace. All that is assumed of the scanner is that it takes the longest match, and of the
settings that there can be a queue of the length they ask for. -/
theorem json_lexemes_labelled (fuel : Nat) (catalog : Catalog) (host : Host) (config : EngineConfig)
    (hroom : config.bufferCapacity ≤ queueLimit) (lexer : Lexer) (others : List Lexer)
    (value : Json.Value Json.StringLiteral Json.Scalar) (gap : Nat → List Json.Space)
    (hscanner : catalog.jsonScanner.TakesLongest) (hbridge : config.parserBridge = true)
    (hlexer : lexer.language = .json) (hkeys : lexer.options.flag "keys" = true)
    (hfuel : (value.text gap).size < fuel) :
    ∃ highlighted calls,
      attempt fuel catalog host config (value.text gap) (lexer :: others) =
          some (.returned highlighted) ∧
        highlighted.outcome = .ok calls ∧
        Call.labelled calls =
          ((value.tokens gap).map (fun token => (some token.kind, token.text.toArray))).toArray := by
  have hmatches := Json.tokens_longestMatches value gap
  obtain ⟨b, tail, hbytes, hopens⟩ := hmatches.head (Json.tokens_ne_nil value gap)
  have hsource : (value.text gap).toList = b :: tail := hbytes
  have hmark : b ≠ 0xEF := by
    rintro rfl
    exact hopens (by decide)
  have hhash : b ≠ 0x23 := by
    rintro rfl
    exact hopens (by decide)
  obtain ⟨hinput, hshebang⟩ := Job.ofSource_plain catalog host config hsource hmark hhash
  generalize hjob : Job.ofSource catalog host config (value.text gap) = job at hinput hshebang
  have hcatalog : job.catalog.jsonScanner.TakesLongest := by
    rw [← hjob]
    exact hscanner
  obtain ⟨hfollows, hstart, hnothing⟩ :=
    job.start_follows config lexer others hbridge hlexer hkeys hshebang
  have hrest : (job.input.extract (job.start config lexer others).cursor job.input.size).toList =
      (value.tokens gap).flatMap Json.Token.text := by
    rw [hstart, hinput, Array.extract_size]
    rfl
  have hcursor : (job.start config lexer others).cursor ≤ job.input.size := by
    rw [hstart]
    exact Nat.zero_le _
  have hlength : (value.tokens gap).length < fuel := Nat.lt_of_le_of_lt hmatches.length_le hfuel
  obtain ⟨last, hdrive, hdocument⟩ :=
    hfollows.drive hcatalog hcursor hrest hmatches (Json.tokens_reads value gap) hlength
  have hrun : highlight fuel catalog host config (value.text gap) (lexer :: others) =
      some ⟨.ok (last.document job), last.callerLexers (lexer :: others), last.finalLifetimes job⟩ := by
    simp only [highlight, hjob, hdrive]
    rfl
  refine ⟨_, _, attempt_eq_of_highlight hroom hrun, rfl, ?_⟩
  rw [hdocument, hnothing, Array.empty_append]

/-- Every span is rendered as soon as the parser has seen it. -/
theorem json_lexemes_labelled_nested :
    ∃ highlighted calls,
      attempt 64 .relay (fun _ => none) { bufferCapacity := 1 }
        (Bytes.ofText "\x7b\"k\\u00e9\" : [\"é\\\"\",-10.5E+2,0],\n\t\"n\":null\x7d\r\n")
        [Lexer.create .relay .json] = some (.returned highlighted) ∧
      highlighted.outcome = .ok calls ∧
      Call.labelled calls =
        #[(some .punctuation, Bytes.ofText "\x7b"), (some .nameTag, Bytes.ofText "\"k\\u00e9\""),
          (some .ignorable, Bytes.ofText " "), (some .punctuation, Bytes.ofText ":"),
          (some .ignorable, Bytes.ofText " "), (some .punctuation, Bytes.ofText "["),
          (some .stringDouble, Bytes.ofText "\"é\\\"\""), (some .punctuation, Bytes.ofText ","),
          (some .numberFloat, Bytes.ofText "-10.5E+2"), (some .punctuation, Bytes.ofText ","),
          (some .numberDecimal, Bytes.ofText "0"), (some .punctuation, Bytes.ofText "]"),
          (some .punctuation, Bytes.ofText ","), (some .ignorable, Bytes.ofText "\n\t"),
          (some .nameTag, Bytes.ofText "\"n\""), (some .punctuation, Bytes.ofText ":"),
          (some .keywordConstant, Bytes.ofText "null"), (some .punctuation, Bytes.ofText "\x7d"),
          (some .ignorable, Bytes.ofText "\r\n")] := by
  have hsize : (Json.nested.text Json.nestedGap).size < 64 := by decide +kernel
  obtain ⟨highlighted, calls, hrun, hok, hlabelled⟩ :=
    json_lexemes_labelled 64 .relay (fun _ => none) { bufferCapacity := 1 } (by decide)
      (Lexer.create .relay .json) [] Json.nested Json.nestedGap Json.scanner_takesLongest rfl rfl
      (by decide +kernel) hsize
  rw [Json.nested_text] at hrun
  refine ⟨highlighted, calls, hrun, hok, hlabelled.trans ?_⟩
  decide +kernel

/-- No queue is as long as a capacity can be. -/
theorem json_lexemes_unwritten :
    Catalog.relay.jsonScanner.TakesLongest ∧ (Lexer.create .relay .json).options.flag "keys" = true ∧
      ∀ fuel, attempt fuel .relay (fun _ => none) { bufferCapacity := 0xFFFFFFFFFFFFFFFF }
        (Json.nested.text Json.nestedGap) [Lexer.create .relay .json] = some .panicked := by
  refine ⟨Json.scanner_takesLongest, by decide +kernel, ?_⟩
  exact fun fuel => attempt_eq_panicked_iff.mpr ⟨List.cons_ne_nil _ _, by decide⟩

end Highlighting

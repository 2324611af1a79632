import Highlighting.Grammar.RuleTable
import Highlighting.Proofs.Engine.Ownership
import Highlighting.Proofs.Grammar.Consumption

/-! What becomes of the lexer that a diff holds for the bodies of its lines. A delegation names a
language and no lexer, so the bodies go to a live lexer of that language, and if there is none, to a new
one with every option at its default. Of the lexer in the option nothing counts but its language: it is
all the same whether the caller lists a new lexer of that language next to the diff or not.

The run without that second lexer makes one when the first body is handed over. Until then the second
lexer lies idle in the other run, and from then on the two runs differ only in whose that lexer is. -/
namespace Highlighting

/-- A diff hands over bodies and nothing else, to the language of its content. -/
theorem Diff.scan_delegates {content? : Option LanguageId} {w : Window} (cx : ScanContext w)
    {delegation : Delegation} (hevent : (scan content? cx).1 = .delegate delegation) :
    delegation.mode = .within ∧ content? = some delegation.target := by
  unfold scan at hevent
  split at hevent
  case isTrue => cases hevent
  case isFalse =>
    split at hevent
    case isTrue =>
      unfold scanBody at hevent
      cases content? with
      | none => cases hevent
      | some target =>
        cases hevent
        exact ⟨rfl, rfl⟩
    case isFalse =>
      split at hevent
      · cases hevent
      · cases hevent

namespace Run

def withLexer (spare : Element) (run : Run) : Run :=
  { run with live := run.live.insert spare }

/-- A change of what is queued and rendered and of the position, made without a look at the live
lexers, the delegations and the bridge. -/
def Aside (f : Run → Run) : Prop :=
  ∀ run live active frames bridge,
    f { run with live := live, active := active, frames := frames, bridge := bridge } =
      { f run with live := live, active := active, frames := frames, bridge := bridge }

theorem flushIfFull_aside (job : Job) : Aside (flushIfFull job) := by
  intro run live active frames bridge
  unfold flushIfFull
  dsimp only
  by_cases hfull : job.capacity ≤ run.pending.size
  · rw [if_pos hfull, if_pos hfull]
    rfl
  · rw [if_neg hfull, if_neg hfull]

def record (job : Job) (kind : TokenKind) (run : Run) : Run :=
  if run.cursor ≤ run.text then run else (run.queue kind).flushIfFull job

theorem record_aside (job : Job) (kind : TokenKind) : Aside (record job kind) := by
  intro run live active frames bridge
  unfold record
  dsimp only
  split
  · rfl
  · exact flushIfFull_aside job (run.queue kind) live active frames bridge

theorem unterminated_aside (job : Job) : Aside (unterminated job) := by
  intro run live active frames bridge
  have hflush := flushIfFull_aside job (run.queue .text) live active frames bridge
  unfold unterminated
  dsimp only
  split
  · rfl
  · exact congrArg (fun flushed => { flushed with text := run.cursor }) hflush

theorem token_eq_record (job : Job) {run : Run} (kind : TokenKind)
    (hparser : (run.live.get? run.active).bind Element.parser? = none) :
    run.token job kind = run.record job kind := by
  have hnone : (run.queue kind).consultParser job kind = run.queue kind := by
    have hconsulted : (if (run.queue kind).bridge then
        ((run.queue kind).live.get? (run.queue kind).active).bind Element.parser? else none) = none := by
      split
      · exact hparser
      · rfl
    simp only [consultParser, hconsulted]
  rw [token, hnone]
  rfl

/-- A run in which a diff has not handed anything over. The only live lexer is that of the diff, and
`spare` is such a lexer as would be made for the first body, but for its owner. -/
structure Unopened (job : Job) (spare : Element) (run : Run) : Prop where
  frames : run.frames = []
  active : run.active = .diff
  alone : ∃ element, run.live = ⟨[element], [.diff]⟩ ∧ element.language = .diff ∧
    element.parser? = none ∧
    Settings.language? ⟨element.lexer.options, job.host⟩ "content" = some spare.language
  made : job.element run.bridge .engine (Lexer.create job.catalog spare.language) = spare.disowned
  other : spare.language ≠ .diff

namespace Unopened

variable {job : Job} {spare : Element} {run : Run}

theorem aside (h : run.Unopened job spare) {f : Run → Run} (hf : Aside f) :
    (f run).Unopened job spare ∧ f (run.withLexer spare) = (f run).withLexer spare := by
  have hkept : f run = { f run with
      live := run.live, active := run.active, frames := run.frames, bridge := run.bridge } :=
    hf run run.live run.active run.frames run.bridge
  have hmore : f (run.withLexer spare) = { f run with
      live := run.live.insert spare
      active := run.active
      frames := run.frames
      bridge := run.bridge } :=
    hf run (run.live.insert spare) run.active run.frames run.bridge
  constructor
  · rw [hkept]
    exact ⟨h.frames, h.active, h.alone, h.made, h.other⟩
  · exact hmore.trans (congrArg (withLexer spare) hkept).symm

theorem withLexer_live (h : run.Unopened job spare) {element : Element}
    (hlive : run.live = ⟨[element], [.diff]⟩) (hdiff : element.language = .diff) :
    (run.withLexer spare).live = ⟨[element, spare], [.diff, spare.language]⟩ := by
  have hnew : (element.language == spare.language) = false := by
    rw [hdiff]
    exact beq_false_of_ne h.other.symm
  simp [withLexer, hlive, LiveLexers.insert, LiveLexers.contains, hnew]

/-- The lexer of the diff is found with the spare lexer live and without it. -/
theorem get?_active (h : run.Unopened job spare) :
    ∃ element, run.live = ⟨[element], [.diff]⟩ ∧ element.language = .diff ∧
      element.parser? = none ∧
      Settings.language? ⟨element.lexer.options, job.host⟩ "content" = some spare.language ∧
      run.live.get? run.active = some element ∧
      (run.withLexer spare).live.get? run.active = some element := by
  obtain ⟨element, hlive, hdiff, hparser, hcontent⟩ := h.alone
  refine ⟨element, hlive, hdiff, hparser, hcontent, ?_, ?_⟩
  · simp [hlive, h.active, LiveLexers.get?, hdiff]
  · simp [h.withLexer_live hlive hdiff, h.active, LiveLexers.get?, hdiff]

theorem token (h : run.Unopened job spare) (kind : TokenKind) :
    (run.token job kind).Unopened job spare ∧
      (run.withLexer spare).token job kind = (run.token job kind).withLexer spare := by
  obtain ⟨element, -, -, hparser, -, hget, hget'⟩ := h.get?_active
  have hrun : run.token job kind = run.record job kind := by
    apply token_eq_record
    rw [hget]
    exact hparser
  have hmore : (run.withLexer spare).token job kind = (run.withLexer spare).record job kind := by
    apply token_eq_record
    change ((run.withLexer spare).live.get? run.active).bind Element.parser? = none
    rw [hget']
    exact hparser
  rw [hrun, hmore]
  exact h.aside (record_aside job kind)

theorem fallback (h : run.Unopened job spare) {delegation : Delegation}
    (hmode : delegation.mode = .within) :
    (run.fallback job delegation).Unopened job spare ∧
      (run.withLexer spare).fallback job delegation =
        (run.fallback job delegation).withLexer spare := by
  have hwithin (run : Run) : run.fallback job delegation = run.token job delegation.fallback := by
    simp [Run.fallback, hmode]
  rw [hwithin, hwithin]
  exact h.token delegation.fallback

theorem refuses (h : run.Unopened job spare) :
    run.refuses spare.language = false ∧ (run.withLexer spare).refuses spare.language = false := by
  obtain ⟨element, hlive, hdiff, -⟩ := h.alone
  have hmore := h.withLexer_live hlive hdiff
  have hframes : (run.withLexer spare).frames = [] := h.frames
  constructor
  · simp [Run.refuses, h.frames, hlive, LiveLexers.isFull, delegationCapacity, lexerCapacity]
  · simp [Run.refuses, hframes, hmore, LiveLexers.contains, delegationCapacity]

/-- When the first body is handed over, the spare lexer comes into use in one run and a lexer like it is
made in the other. -/
theorem enter (h : run.Unopened job spare) {delegation : Delegation}
    (hmode : delegation.mode = .within) (htarget : delegation.target = spare.language) :
    (run.enter job delegation).disowned =
      ((run.withLexer spare).enter job delegation).disowned := by
  obtain ⟨element, hlive, hdiff, -⟩ := h.alone
  have hmissing : run.live.contains delegation.target = false := by
    have hne : (element.language == spare.language) = false := by
      rw [hdiff]
      exact beq_false_of_ne h.other.symm
    simp [hlive, htarget, LiveLexers.contains, hne]
  have hpresent : (run.withLexer spare).live.contains delegation.target = true := by
    simp [h.withLexer_live hlive hdiff, htarget, LiveLexers.contains]
  -- One run makes now what the other was given; only the owners tell the two lexers apart.
  have hmade : (run.live.insert
      (job.element run.bridge .engine (Lexer.create job.catalog delegation.target))).disowned =
      (run.live.insert spare).disowned := by
    rw [htarget, h.made, LiveLexers.disowned_insert, LiveLexers.disowned_insert,
      Element.disowned_disowned]
  simp only [Run.enter, hmissing, hpresent]
  simp [Run.disowned, Run.flush, Run.activate, hmade, withLexer, Frame.disowned, hmode]

/-- The spare lexer has no part in a scan call, and what is handed over goes to its language. -/
theorem scan (h : run.Unopened job spare) :
    ∃ event scanned, run.scan job = some (event, scanned) ∧
      (run.withLexer spare).scan job = some (event, scanned.withLexer spare) ∧
      scanned.Unopened job spare ∧
      ∀ delegation, event = .delegate delegation →
        delegation.mode = .within ∧ delegation.target = spare.language := by
  obtain ⟨element, hlive, hdiff, hparser, hcontent, hget, hget'⟩ := h.get?_active
  let after := (run.scanCall job element.lexer).2
  have hupdated : run.live.update run.active (Element.setState · after.state) =
      ⟨[element.setState after.state], [.diff]⟩ := by
    simp [hlive, h.active, LiveLexers.update, hdiff]
  have hscanned : (run.follow after).Unopened job spare :=
    ⟨h.frames, h.active, ⟨_, hupdated, hdiff, hparser, hcontent⟩, h.made, h.other⟩
  have hfollow : (run.withLexer spare).follow after = (run.follow after).withLexer spare := by
    -- The spare lexer is of another language, so its state is not the one that changes.
    have hleft : (run.withLexer spare).live.update run.active (Element.setState · after.state) =
        ⟨[element.setState after.state, spare], [.diff, spare.language]⟩ := by
      simp [h.withLexer_live hlive hdiff, h.active, LiveLexers.update, hdiff, h.other]
    have hright := hscanned.withLexer_live hupdated hdiff
    exact congrArg (fun live => { run with cursor := after.cursor, live := live })
      (hleft.trans hright.symm)
  refine ⟨_, run.follow after, (run.scan_eq_some_iff job).mpr ⟨element, hget, rfl, rfl⟩,
    ((run.withLexer spare).scan_eq_some_iff job).mpr ⟨element, hget', rfl, hfollow⟩, hscanned, ?_⟩
  intro delegation hevent
  have hscan : (Diff.scan (Settings.language? ⟨element.lexer.options, job.host⟩ "content")
      ((ScanContext.opening (Window.clamp job.input run.text run.limit)
        element.lexer.state).setCursor run.cursor)).1 = .delegate delegation := by
    have hgrammar : job.catalog.language element.lexer.language = Diff.language :=
      congrArg job.catalog.language hdiff
    rw [← hevent, Run.scanCall, hgrammar]
    rfl
  obtain ⟨hmode, htarget⟩ := Diff.scan_delegates _ hscan
  exact ⟨hmode, Option.some.inj (htarget.symm.trans hcontent)⟩

end Unopened

/-- The second of two runs was given a spare lexer at the beginning. The two are looked at before a
step, or after the scan call that came to an event. -/
inductive Supplied (job : Job) (spare : Element) (event? : Option ScanEvent) : Run → Run → Prop
  | idle {run : Run} (h : run.Unopened job spare)
      (hdelegates : ∀ delegation, event? = some (.delegate delegation) →
        delegation.mode = .within ∧ delegation.target = spare.language) :
      Supplied job spare event? run (run.withLexer spare)
  | used {a b : Run} (h : a.disowned = b.disowned) : Supplied job spare event? a b

theorem supplied_of_unopened {job : Job} {spare : Element} {run more : Run}
    (h : run.Unopened job spare ∧ more = run.withLexer spare) : Supplied job spare none run more := by
  obtain ⟨hunopened, rfl⟩ := h
  exact .idle hunopened nofun

theorem supplied_lockstep (job : Job) (spare : Element) :
    Lockstep job job (Supplied job spare none) (fun event => Supplied job spare (some event)) := by
  -- Once the spare lexer is in use, it does not matter whose it is.
  have hused := disowned_lockstep job
  constructor
  case scan =>
    rintro a b (⟨h, -⟩ | h)
    · obtain ⟨hprepared, -⟩ := h.aside (f := Run.prepare) (fun _ _ _ _ _ => rfl)
      obtain ⟨event, scanned, hscan, hmore, hscanned, hdelegates⟩ := hprepared.scan
      refine Or.inr ⟨event, scanned, _, hscan, hmore, .idle hscanned ?_⟩
      intro delegation hevent
      exact hdelegates delegation (Option.some.inj hevent)
    · rcases hused.scan h with ⟨ha, hb, hprepared⟩ | ⟨event, a', b', ha, hb, hscanned⟩
      · exact Or.inl ⟨ha, hb, .used hprepared⟩
      · exact Or.inr ⟨event, a', b', ha, hb, .used hscanned⟩
  constructor
  case names => exact fun _ => rfl
  case cursor =>
    rintro a b (_ | h)
    · rfl
    · exact hused.cursor h
  case stalls =>
    rintro a b (_ | h)
    · rfl
    · exact hused.stalls h
  case recount =>
    rintro a b (⟨h, -⟩ | h) stalls
    · exact supplied_of_unopened (h.aside (f := fun run => { run with stalls := stalls })
        (fun _ _ _ _ _ => rfl))
    · exact .used (hused.recount h stalls)
  case active =>
    rintro event a b (_ | h)
    · rfl
    · exact same_of_disowned h Run.active (fun _ => rfl)
  case token =>
    rintro a b kind (⟨h, -⟩ | h)
    · exact supplied_of_unopened (h.token kind)
    · exact .used (hused.token h)
  case extend =>
    rintro a b (⟨h, -⟩ | h)
    · exact supplied_of_unopened (h.aside (f := fun run => { run with accumulating := true })
        (fun _ _ _ _ _ => rfl))
    · exact .used (hused.extend h)
  case closed =>
    rintro a b (⟨h, -⟩ | h)
    · exact supplied_of_unopened (h.aside (unterminated_aside job))
    · exact .used (hused.closed h)
  case starts =>
    rintro a b (_ | h)
    · rfl
    · exact hused.starts h
  case leave =>
    rintro a b (⟨h, -⟩ | h) frame outer frame' outer' ha hb
    · rw [h.frames] at ha
      cases ha
    · exact .used (hused.leave h frame outer frame' outer' ha hb)
  case refuses =>
    rintro a b delegation (⟨h, hdelegates⟩ | h)
    · obtain ⟨-, htarget⟩ := hdelegates delegation rfl
      rw [htarget, h.refuses.1, h.refuses.2]
    · exact hused.refuses h
  case refuse =>
    rintro a b delegation (⟨h, hdelegates⟩ | h) hrefused
    · exact supplied_of_unopened (h.fallback (hdelegates delegation rfl).1)
    · exact .used (hused.refuse h hrefused)
  case enter =>
    rintro a b delegation (⟨h, hdelegates⟩ | h) haccepted
    · obtain ⟨hmode, htarget⟩ := hdelegates delegation rfl
      exact .used (h.enter hmode htarget)
    · exact .used (hused.enter h haccepted)

theorem start_supplied (job : Job) (config : EngineConfig) {diff held : Lexer}
    (hdiff : diff.language = .diff)
    (hcontent : diff.options.subLexer? "content" = some (.owned held)) :
    Supplied job
      (job.element config.parserBridge (.caller 1) (Lexer.create job.catalog held.language)) none
      (job.start config diff [])
      (job.start config diff [Lexer.create job.catalog held.language]) := by
  obtain ⟨language, options, state⟩ := diff
  change language = .diff at hdiff
  subst hdiff
  by_cases hsame : held.language = .diff
  · -- A second lexer for diffs does not become live.
    rw [hsame]
    exact .used rfl
  · have hlive : (job.start config ⟨.diff, options, state⟩ []).live =
        ⟨[job.element config.parserBridge (.caller 0) ⟨.diff, options, state⟩], [.diff]⟩ := rfl
    have hheld : Settings.language? ⟨options, job.host⟩ "content" = some held.language := by
      rw [Settings.language?, hcontent]
      rfl
    have hparser : (job.element config.parserBridge (.caller 0) ⟨.diff, options, state⟩).parser? =
        none := by
      cases hbridge : config.parserBridge with
      | false => rfl
      | true => rfl
    refine supplied_of_unopened ⟨⟨rfl, rfl, ⟨_, hlive, rfl, hparser, hheld⟩, rfl, hsame⟩, ?_⟩
    rfl

theorem Supplied.document {job : Job} {spare : Element} {event? : Option ScanEvent} {a b : Run}
    (h : Supplied job spare event? a b) : a.document job = b.document job := by
  cases h with
  | idle => rfl
  | used h => exact same_of_disowned h (Run.document job) (fun _ => rfl)

end Run

/-- The bodies of a diff are highlighted by a lexer with the language of the one held in the option and
with every option of that language at its default: listing a new such lexer next to the diff changes
nothing, whatever values the options of the held one have. -/
theorem content_highlighted_by_new_lexer (fuel : Nat) (catalog : Catalog) (host : Host)
    (config : EngineConfig) (source : Bytes) (diff held : Lexer) (hdiff : diff.language = .diff)
    (hcontent : diff.options.subLexer? "content" = some (.owned held)) :
    (highlight fuel catalog host config source [diff]).map Highlighted.outcome =
      (highlight fuel catalog host config source
        [diff, Lexer.create catalog held.language]).map Highlighted.outcome := by
  let job := Job.ofSource catalog host config source
  have hstart := Run.start_supplied job config hdiff hcontent
  simp only [highlight, Option.map_map]
  refine (Run.supplied_lockstep job _).drive_map fuel hstart ?_
  intro result a b hlast
  have hdocument := hlast.document
  exact congrArg (fun calls => result.map (fun _ => calls)) hdocument

def Lexer.keylessJson : Lexer :=
  { Lexer.create (.ofTables #[]) .json with
    options := ⟨OptionSet.store "keys" (.bool false)
      (Lexer.create (.ofTables #[]) .json).options.slots⟩ }

def Lexer.keylessDiff : Lexer :=
  { Lexer.create (.ofTables #[]) .diff with
    options := ⟨OptionSet.store "content" (.lexer (some (.owned .keylessJson)))
      (Lexer.create (.ofTables #[]) .diff).options.slots⟩ }

def Bytes.insertedObject : Bytes :=
  Bytes.ofText "+\x7b\"a\": 1\x7d\n"

theorem keyless_content_highlighted_by_new_lexer :
    Lexer.keylessDiff.options.subLexer? "content" = some (.owned .keylessJson) ∧
    (highlight 64 (.ofTables #[]) (fun _ => none) {} Bytes.insertedObject [Lexer.keylessDiff]).map
        (fun highlighted => highlighted.outcome.toOption.isSome) = some true ∧
    (highlight 64 (.ofTables #[]) (fun _ => none) {} Bytes.insertedObject [Lexer.keylessDiff]).map
        Highlighted.outcome =
      (highlight 64 (.ofTables #[]) (fun _ => none) {} Bytes.insertedObject
        [Lexer.keylessDiff, Lexer.create (.ofTables #[]) .json]).map Highlighted.outcome := by
  refine ⟨rfl, by decide +kernel, ?_⟩
  exact content_highlighted_by_new_lexer 64 (.ofTables #[]) (fun _ => none) {} _ .keylessDiff
    .keylessJson rfl rfl

def Lexer.renewed (catalog : Catalog) (lexer : Lexer) : Lexer :=
  { lexer with state := (catalog.language lexer.language).grammar.initial }

/-- The values of the options of the held lexer are not those that the bodies are highlighted with. The
key of a member is singled out although the held lexer is told not to. -/
theorem content_options_without_effect :
    ¬ ∀ (fuel : Nat) (catalog : Catalog) (host : Host) (config : EngineConfig) (source : Bytes)
      (diff held : Lexer), diff.language = .diff →
      diff.options.subLexer? "content" = some (.owned held) → held.language.IsBuiltIn →
      (highlight fuel catalog host config source [diff]).map Highlighted.outcome =
        (highlight fuel catalog host config source [diff, held.renewed catalog]).map
          Highlighted.outcome := by
  intro hall
  have hsame := hall 64 (.ofTables #[]) (fun _ => none) {} .insertedObject .keylessDiff
    .keylessJson rfl rfl trivial
  have hcalls := congrArg (Option.map Except.toOption) hsame
  simp only [Option.map_map] at hcalls
  revert hcalls
  decide +kernel

end Highlighting

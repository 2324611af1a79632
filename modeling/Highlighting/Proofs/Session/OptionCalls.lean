import Highlighting.Proofs.Engine.Attempts
import Highlighting.Proofs.Engine.Lifetimes
import Highlighting.Proofs.Options.Slots
import Highlighting.Session

/-! The options of the lexers and formatters of a session. Lexers and formatters come and go, lexers
move into options of others and are run; through all of that the options of each conform to what its
language or format declares, and a call that sets an option changes one slot or nothing. -/
namespace Highlighting

section Making

variable {catalog : Catalog}

/-- A query sets options one after the other, so what it makes conforms as a new lexer does. -/
theorem Lexer.configure_conforms {pairs : List (String × String)} {lexer made : Lexer}
    {lifetimes : Lifetimes} (hmade : (lexer.configure catalog lifetimes pairs).result = .ok made)
    (hlexer : lexer.options.Conforms (catalog.language lexer.language).options) :
    made.options.Conforms (catalog.language made.language).options := by
  induction pairs generalizing lexer lifetimes with
  | nil =>
    cases hmade
    exact hlexer
  | cons pair rest ih =>
    unfold Lexer.configure at hmade
    dsimp only at hmade
    split at hmade
    case h_1 => cases hmade
    case h_2 previous configured hset =>
      obtain ⟨value, -, hvalue⟩ := Lexer.setOptionText_eq_ok hset
      obtain ⟨options, rfl, hreplaced⟩ := Lexer.setOption_eq_ok hvalue
      exact ih hmade (hreplaced.conforms hlexer)

theorem LexerSpec.make_conforms {spec : LexerSpec} {made : Lexer}
    (hmade : (spec.make catalog).result = .ok made) :
    made.options.Conforms (catalog.language made.language).options := by
  cases spec with
  | query text =>
    unfold LexerSpec.make LexerRegistry.createFromQuery at hmade
    dsimp only at hmade
    split at hmade
    case h_1 => cases hmade
    case h_2 id _ => exact Lexer.configure_conforms hmade (Lexer.create_conforms catalog id)
  | language id =>
    cases hmade
    exact Lexer.create_conforms catalog id

structure Formatter.Conforms (formatter : Formatter) : Prop where
  conforms : formatter.options.Conforms formatter.format.options
  lexerless : formatter.options.Lexerless

theorem Formatter.create_conforms (format : Format) : (Formatter.create format).Conforms :=
  ⟨OptionSet.ofDeclarations_conforms _, OptionSet.ofDeclarations_lexerless _⟩

theorem Formatter.Conforms.replaced {formatter : Formatter} {name : String}
    {previous value : OptionValue Lexer} {options : OptionSet Lexer} (h : formatter.Conforms)
    (hreplaced : formatter.options.Replaced name previous value options)
    (hvalue : value.subLexer? = none) : Formatter.Conforms { formatter with options := options } :=
  ⟨hreplaced.conforms h.conforms, hreplaced.lexerless hvalue h.lexerless⟩

theorem Formatter.Conforms.configure {pairs : List (String × String)} {formatter made : Formatter}
    (h : formatter.Conforms) (hmade : formatter.configure catalog pairs = .ok made) :
    made.Conforms := by
  induction pairs generalizing formatter with
  | nil =>
    cases hmade
    exact h
  | cons pair rest ih =>
    unfold Formatter.configure at hmade
    split at hmade
    case h_1 => cases hmade
    case h_2 previous configured hset =>
      obtain ⟨value, options, -, rfl, hvalue, hreplaced⟩ := Formatter.setOptionText_eq_ok hset
      exact ih (h.replaced hreplaced hvalue) hmade

theorem Formatter.Conforms.setAll {host : Host} {given : List (String × OptionValue Lexer)}
    {formatter made : Formatter} (h : formatter.Conforms)
    (hmade : given.foldlM (fun formatter (name, value) =>
      (formatter.setOption catalog host name value).map Prod.snd) formatter = .ok made) :
    made.Conforms := by
  induction given generalizing formatter with
  | nil =>
    cases hmade
    exact h
  | cons option rest ih =>
    obtain ⟨name, value⟩ := option
    rw [List.foldlM_cons] at hmade
    dsimp only at hmade
    cases hset : formatter.setOption catalog host name value with
    | error error =>
      rw [hset] at hmade
      cases hmade
    | ok answer =>
      rw [hset] at hmade
      obtain ⟨previous, changed⟩ := answer
      obtain ⟨options, rfl, hvalue, hreplaced⟩ := Formatter.setOption_eq_ok hset
      exact ih (h.replaced hreplaced hvalue) hmade

theorem FormatterSpec.make_conforms {host : Host} {spec : FormatterSpec} {made : Formatter}
    (hmade : spec.make catalog host = .ok made) : made.Conforms := by
  induction spec generalizing made with
  | query text =>
    unfold FormatterSpec.make FormatRegistry.createFromQuery at hmade
    dsimp only at hmade
    split at hmade
    case h_1 => cases hmade
    case h_2 format _ => exact (Formatter.create_conforms format).configure hmade
  | format base =>
    cases hmade
    exact Formatter.create_conforms base
  | configured base options ih =>
    unfold FormatterSpec.make at hmade
    split at hmade
    case h_1 => cases hmade
    case h_2 formatter hbase => exact (ih hbase).setAll hmade

end Making

/-- Highlighting gives the lexers of the caller back in other states and with the same options. -/
theorem highlight_lexers_stateless {fuel : Nat} {catalog : Catalog} {host : Host}
    {config : EngineConfig} {source : Bytes} {lexers : List Lexer} {highlighted : Highlighted}
    (hrun : highlight fuel catalog host config source lexers = some highlighted) :
    highlighted.lexers.map Lexer.stateless = lexers.map Lexer.stateless := by
  cases lexers with
  | nil =>
    cases hrun
    rfl
  | cons lexer others =>
    obtain ⟨⟨result, last⟩, hdrive, rfl⟩ := Option.map_eq_some_iff.mp hrun
    obtain ⟨run, hreach, hend⟩ := Run.drive_eq_some hdrive
    -- The last step is not followed by a run that is reached, so the audit takes it by itself.
    have haudited := hreach.audited.step
    have hlast : (run.step (Job.ofSource catalog host config source)).run = last := by
      rcases hend with ⟨-, hstep⟩ | ⟨error, -, hstep⟩
      · rw [hstep]
        rfl
      · rw [hstep]
        rfl
    rw [hlast] at haudited
    exact Run.callerLexers_stateless haudited.given

namespace Session

section Slots

variable (session : Session) {slot other : String}

theorem lookup_filter_ne {α : Type} (entries : List (String × α)) (hother : other ≠ slot) :
    (entries.filter (fun entry => entry.1 != slot)).lookup other = entries.lookup other := by
  induction entries with
  | nil => rfl
  | cons entry rest ih =>
    obtain ⟨key, value⟩ := entry
    by_cases hslot : key = slot
    · have hmiss : (other == slot) = false := beq_eq_false_iff_ne.mpr hother
      simp [hslot, List.lookup_cons, hmiss, ih]
    · simp [hslot, List.lookup_cons, ih]

theorem keepFormatter_formatter? (formatter : Formatter) :
    (session.keepFormatter slot formatter).formatter? other =
      if other = slot then some formatter else session.formatter? other := by
  unfold keepFormatter eraseFormatter formatter?
  split
  case isTrue hsame => simp [hsame]
  case isFalse hother =>
    rw [List.lookup_cons, beq_eq_false_iff_ne.mpr hother]
    exact lookup_filter_ne _ hother

theorem lookup_map_values {α : Type} (entries : List (String × α)) (change : String → α → α) :
    (entries.map (fun entry => (entry.1, change entry.1 entry.2))).lookup other =
      (entries.lookup other).map (change other) := by
  induction entries with
  | nil => rfl
  | cons entry rest ih =>
    rw [List.map_cons, List.lookup_cons, List.lookup_cons, ih]
    cases hname : other == entry.1 with
    | false => rfl
    | true =>
      rw [eq_of_beq hname]
      rfl

theorem updateLexer_lexer? {kept : KeptLexer} (hslot : session.lexer? slot = some kept)
    (lexer : Lexer) :
    (session.updateLexer slot lexer).lexer? other =
      if other = slot then some { kept with lexer := lexer } else session.lexer? other := by
  -- Every entry keeps its name, so a look-up ends at the entry at which it ended before.
  have hvalues : (session.updateLexer slot lexer).lexers = session.lexers.map (fun entry =>
      (entry.1, if entry.1 = slot then { entry.2 with lexer := lexer } else entry.2)) := by
    apply List.map_congr_left
    intro entry hentry
    by_cases hname : entry.1 = slot <;> simp [hname]
  have hkept : session.lexers.lookup slot = some kept := hslot
  rw [lexer?, hvalues, lookup_map_values _ (fun name (kept : KeptLexer) =>
    if name = slot then { kept with lexer := lexer } else kept)]
  split
  case isTrue hsame => simp [hsame, hkept]
  case isFalse => exact Option.map_id'

end Slots

structure Conforms (catalog : Catalog) (session : Session) : Prop where
  lexers : ∀ entry ∈ session.lexers,
    entry.2.lexer.options.Conforms (catalog.language entry.2.lexer.language).options
  formatters : ∀ entry ∈ session.formatters, entry.2.Conforms

variable {catalog : Catalog} {session after : Session} {slot name : String}

theorem mem_of_lookup {α : Type} {entries : List (String × α)} {value : α}
    (hlookup : entries.lookup slot = some value) : ∃ entry ∈ entries, entry.2 = value := by
  induction entries with
  | nil => cases hlookup
  | cons entry rest ih =>
    rw [List.lookup_cons] at hlookup
    split at hlookup
    · exact ⟨entry, List.mem_cons_self, Option.some.inj hlookup⟩
    · obtain ⟨found, hfound, hvalue⟩ := ih hlookup
      exact ⟨found, List.mem_cons_of_mem _ hfound, hvalue⟩

theorem exists_of_mapM_cons {α β : Type} {f : α → Option β} {key : α} {rest : List α}
    {values : List β} (hvalues : (key :: rest).mapM f = some values) :
    ∃ first others, f key = some first ∧ rest.mapM f = some others ∧ values = first :: others := by
  rw [List.mapM_cons] at hvalues
  obtain ⟨first, hfirst, hothers⟩ := Option.bind_eq_some_iff.mp hvalues
  obtain ⟨others, hrest, hall⟩ := Option.bind_eq_some_iff.mp hothers
  exact ⟨first, others, hfirst, hrest, (Option.some.inj hall).symm⟩

theorem mem_of_mapM {α β : Type} {f : α → Option β} {keys : List α} {values : List β}
    (hvalues : keys.mapM f = some values) : ∀ value ∈ values, ∃ key ∈ keys, f key = some value := by
  induction keys generalizing values with
  | nil =>
    cases hvalues
    exact nofun
  | cons key rest ih =>
    obtain ⟨first, others, hfirst, hothers, rfl⟩ := exists_of_mapM_cons hvalues
    refine List.forall_mem_cons.mpr ⟨⟨key, List.mem_cons_self, hfirst⟩, ?_⟩
    intro value hvalue
    obtain ⟨other, hother, hfound⟩ := ih hothers value hvalue
    exact ⟨other, List.mem_cons_of_mem key hother, hfound⟩

namespace Conforms

theorem lexer? (h : session.Conforms catalog) {kept : KeptLexer}
    (hslot : session.lexer? slot = some kept) :
    kept.lexer.options.Conforms (catalog.language kept.lexer.language).options := by
  obtain ⟨entry, hentry, rfl⟩ := mem_of_lookup hslot
  exact h.lexers entry hentry

theorem formatter? (h : session.Conforms catalog) {formatter : Formatter}
    (hslot : session.formatter? slot = some formatter) : formatter.Conforms := by
  obtain ⟨entry, hentry, rfl⟩ := mem_of_lookup hslot
  exact h.formatters entry hentry

theorem eraseLexer (h : session.Conforms catalog) (slot : String) :
    (session.eraseLexer slot).Conforms catalog :=
  ⟨fun entry hentry => h.lexers entry (List.mem_filter.mp hentry).1, h.formatters⟩

theorem eraseFormatter (h : session.Conforms catalog) (slot : String) :
    (session.eraseFormatter slot).Conforms catalog :=
  ⟨h.lexers, fun entry hentry => h.formatters entry (List.mem_filter.mp hentry).1⟩

theorem keepLexer (h : session.Conforms catalog) (slot : String) {lexer : Lexer}
    (hlexer : lexer.options.Conforms (catalog.language lexer.language).options) :
    (session.keepLexer slot lexer).Conforms catalog :=
  ⟨List.forall_mem_cons.mpr ⟨hlexer, (h.eraseLexer slot).lexers⟩, h.formatters⟩

theorem keepFormatter (h : session.Conforms catalog) (slot : String) {formatter : Formatter}
    (hformatter : formatter.Conforms) : (session.keepFormatter slot formatter).Conforms catalog :=
  ⟨h.lexers, List.forall_mem_cons.mpr ⟨hformatter, (h.eraseFormatter slot).formatters⟩⟩

theorem updateLexer (h : session.Conforms catalog) (slot : String) {lexer : Lexer}
    (hlexer : lexer.options.Conforms (catalog.language lexer.language).options) :
    (session.updateLexer slot lexer).Conforms catalog := by
  refine ⟨?_, h.formatters⟩
  intro entry hentry
  obtain ⟨before, hbefore, rfl⟩ := List.mem_map.mp hentry
  dsimp only
  split
  · exact hlexer
  · exact h.lexers before hbefore

theorem record (h : session.Conforms catalog) (lifetimes : Lifetimes) :
    (session.record lifetimes).Conforms catalog :=
  ⟨h.lexers, h.formatters⟩

theorem resolve (h : session.Conforms catalog) (given : GivenValue) :
    (session.resolve catalog given).2.Conforms catalog := by
  cases given with
  | plain value => exact h
  | own spec =>
    unfold Session.resolve
    dsimp only
    split <;> exact h.record _
  | move slot =>
    unfold Session.resolve
    dsimp only
    split
    · exact h.eraseLexer slot
    · exact h
  | borrow slot =>
    unfold Session.resolve
    dsimp only
    split <;> exact h

theorem assign (h : session.Conforms catalog) (slot : String)
    {onFormatter : Formatter → Except OptionError (OptionValue Lexer × Formatter)}
    {onLexer : KeptLexer → Except OptionError (OptionValue Lexer × Lexer)}
    (hformatter : ∀ formatter previous changed, formatter.Conforms →
      onFormatter formatter = .ok (previous, changed) → changed.Conforms)
    (hlexer : ∀ kept previous changed,
      kept.lexer.options.Conforms (catalog.language kept.lexer.language).options →
      onLexer kept = .ok (previous, changed) →
      changed.options.Conforms (catalog.language changed.language).options) :
    (session.assign slot onFormatter onLexer).2.Conforms catalog := by
  unfold Session.assign
  split
  case h_1 formatter hslot =>
    split
    case h_1 previous changed hset =>
      exact h.keepFormatter slot (hformatter formatter previous changed (h.formatter? hslot) hset)
    case h_2 => exact h
  case h_2 =>
    split
    case h_1 kept hslot =>
      split
      case h_1 previous changed hset =>
        exact h.updateLexer slot (hlexer kept previous changed (h.lexer? hslot) hset)
      case h_2 => exact h
    case h_2 => exact h

theorem setOption (h : session.Conforms catalog) (slot name : String) (given : GivenValue) :
    (session.setOption catalog slot name given).2.Conforms catalog := by
  have htaken := h.resolve given
  unfold Session.setOption
  split
  case h_1 reply taken hresolve =>
    rw [hresolve] at htaken
    exact htaken
  case h_2 value taken hresolve =>
    rw [hresolve] at htaken
    apply htaken.assign
    · intro formatter previous changed hformatter hset
      obtain ⟨options, rfl, hvalue, hreplaced⟩ := Formatter.setOption_eq_ok hset
      exact hformatter.replaced hreplaced hvalue
    · intro kept previous changed hkept hset
      obtain ⟨options, rfl, hreplaced⟩ := Lexer.setOption_eq_ok hset
      exact hreplaced.conforms hkept

theorem setOptionText (h : session.Conforms catalog) (slot name text : String) :
    (session.setOptionText catalog slot name text).2.Conforms catalog := by
  apply Conforms.record
  apply h.assign
  · intro formatter previous changed hformatter hset
    obtain ⟨value, options, -, rfl, hvalue, hreplaced⟩ := Formatter.setOptionText_eq_ok hset
    exact hformatter.replaced hreplaced hvalue
  · intro kept previous changed hkept hset
    obtain ⟨value, -, hvalue⟩ := Lexer.setOptionText_eq_ok hset
    obtain ⟨options, rfl, hreplaced⟩ := Lexer.setOption_eq_ok hvalue
    exact hreplaced.conforms hkept

theorem restore (h : session.Conforms catalog) (slots : List String) {lexers : List Lexer}
    (hlexers : ∀ lexer ∈ lexers, lexer.options.Conforms (catalog.language lexer.language).options) :
    (session.restore slots lexers).Conforms catalog := by
  have hentries : ∀ entry ∈ slots.zip lexers,
      entry.2.options.Conforms (catalog.language entry.2.language).options :=
    fun entry hentry => hlexers entry.2 (List.of_mem_zip hentry).2
  unfold Session.restore
  -- A slot may be named twice; each time it is given a lexer that conforms.
  generalize slots.zip lexers = entries at hentries
  induction entries generalizing session with
  | nil => exact h
  | cons entry rest ih =>
    obtain ⟨hentry, hrest⟩ := List.forall_mem_cons.mp hentries
    exact ih (h.updateLexer entry.1 hentry) hrest

theorem highlight (h : session.Conforms catalog) (fuel : Nat) (source : Bytes)
    (slots : List String) (formatter : Sum String FormatterSpec) (config : EngineConfig) :
    (session.highlight catalog fuel source slots formatter config).2.Conforms catalog := by
  unfold Session.highlight
  dsimp only
  split
  case h_1 => exact h
  case h_2 made kept _ hslots =>
    split
    case h_1 => exact h
    case h_2 => exact h
    case h_3 highlighted hreturned =>
      have hrun := attempt_eq_returned hreturned
      have hkept : ∀ lexer ∈ kept.map KeptLexer.lexer,
          lexer.options.Conforms (catalog.language lexer.language).options := by
        intro lexer hlexer
        obtain ⟨entry, hentry, rfl⟩ := List.mem_map.mp hlexer
        obtain ⟨slot, -, hslot⟩ := mem_of_mapM hslots entry hentry
        exact h.lexer? hslot
      have hlexers : ∀ lexer ∈ highlighted.lexers,
          lexer.options.Conforms (catalog.language lexer.language).options := by
        intro lexer hlexer
        -- Up to its state, a lexer that comes back is one that was handed over.
        have hsame := List.mem_map_of_mem (f := Lexer.stateless) hlexer
        rw [highlight_lexers_stateless hrun] at hsame
        obtain ⟨before, hbefore, heq⟩ := List.mem_map.mp hsame
        have hconforms := hkept before hbefore
        obtain ⟨hlanguage, hoptions, -⟩ := Lexer.mk.inj heq
        rw [← hlanguage, ← hoptions]
        exact hconforms
      have hafter := (h.restore slots hlexers).record highlighted.lifetimes
      split <;> exact hafter
  case h_3 => exact h

theorem makeLexer (h : session.Conforms catalog) (slot : String) (spec : LexerSpec) :
    (session.makeLexer catalog slot spec).2.Conforms catalog := by
  unfold Session.makeLexer
  dsimp only
  split
  case h_1 lexer hmade => exact (h.record _).keepLexer slot (LexerSpec.make_conforms hmade)
  case h_2 => exact h.record _

theorem makeFormatter (h : session.Conforms catalog) (slot : String) (spec : FormatterSpec) :
    (session.makeFormatter catalog slot spec).2.Conforms catalog := by
  unfold Session.makeFormatter
  split
  case h_1 formatter hmade => exact h.keepFormatter slot (FormatterSpec.make_conforms hmade)
  case h_2 => exact h

theorem destroy (h : session.Conforms catalog) (slot : String) :
    (session.destroy slot).2.Conforms catalog := by
  unfold Session.destroy
  split
  · exact h.eraseFormatter slot
  · exact (h.eraseLexer slot).record _
  · exact h

theorem drop (h : session.Conforms catalog) (slot : String) :
    (session.drop slot).2.Conforms catalog := by
  unfold Session.drop
  split
  · exact h.eraseFormatter slot
  · exact h.eraseLexer slot

theorem changeState (h : session.Conforms catalog) (slot : String) (action? : Option ScanAction) :
    (session.changeState slot action?).2.Conforms catalog := by
  unfold Session.changeState
  split
  case h_1 => exact h
  case h_2 kept hslot => exact h.updateLexer slot (h.lexer? hslot)

/-- Every step keeps the options of everything as they are declared. -/
theorem perform (h : session.Conforms catalog) (fuel : Nat) (step : SessionStep) :
    (session.perform catalog fuel step).2.Conforms catalog := by
  cases step with
  | makeLexer slot spec => exact h.makeLexer slot spec
  | makeFormatter slot spec => exact h.makeFormatter slot spec
  | setOption slot option value => exact h.setOption slot option value
  | setOptionText slot option text => exact h.setOptionText slot option text
  | getOption | listOptions | subLexers => exact h
  | destroy slot => exact h.destroy slot
  | drop slot => exact h.drop slot
  | state slot action? => exact h.changeState slot action?
  | highlight source slots formatter config => exact h.highlight fuel source slots formatter config

end Conforms

def performAll (catalog : Catalog) (fuel : Nat) (session : Session) (steps : List SessionStep) :
    Session :=
  steps.foldl (fun session step => (session.perform catalog fuel step).2) session

theorem Conforms.performAll (h : session.Conforms catalog) (fuel : Nat) (steps : List SessionStep) :
    (session.performAll catalog fuel steps).Conforms catalog := by
  induction steps generalizing session with
  | nil => exact h
  | cons step rest ih => exact ih (h.perform fuel step)

/-- What a call comes to that sets the option `name` of the formatter or else the lexer in a slot to one
of the values that it `gives`. Where it is refused, whatever is kept stays as it was. -/
inductive Assigned (before : Session) (slot name : String)
    (gives : OptionSet Lexer → LexerValues → OptionValue Lexer → Prop) : SessionReply → Session → Prop
  | formatter {after : Session} (formatter : Formatter) (options : OptionSet Lexer)
      (previous value : OptionValue Lexer) (hslot : before.formatter? slot = some formatter)
      (hgives : gives formatter.options .forbidden value)
      (hreplaced : formatter.options.Replaced name previous value options)
      (hafter : ∀ other, after.formatter? other =
        if other = slot then some { formatter with options := options }
        else before.formatter? other)
      (hlexers : after.lexers = before.lexers) : Assigned before slot name gives (.previous previous) after
  | lexer {after : Session} (kept : KeptLexer) (options : OptionSet Lexer)
      (previous value : OptionValue Lexer) (hnone : before.formatter? slot = none)
      (hslot : before.lexer? slot = some kept) (hgives : gives kept.lexer.options .allowed value)
      (hreplaced : kept.lexer.options.Replaced name previous value options)
      (hafter : ∀ other, after.lexer? other =
        if other = slot then some { kept with lexer := { kept.lexer with options := options } }
        else before.lexer? other)
      (hformatters : after.formatters = before.formatters) :
      Assigned before slot name gives (.previous previous) after
  | refused {after : Session} (error : OptionError) (hlexers : after.lexers = before.lexers)
      (hformatters : after.formatters = before.formatters) :
      Assigned before slot name gives (.refused error) after
  | unanswered {after : Session} (hformatter : before.formatter? slot = none)
      (hlexer : before.lexer? slot = none) (hlexers : after.lexers = before.lexers)
      (hformatters : after.formatters = before.formatters) :
      Assigned before slot name gives .unanswered after

section Calls

variable {gives : OptionSet Lexer → LexerValues → OptionValue Lexer → Prop}
  {onFormatter : Formatter → Except OptionError (OptionValue Lexer × Formatter)}
  {onLexer : KeptLexer → Except OptionError (OptionValue Lexer × Lexer)}

theorem assign_assigned (session : Session) (slot : String)
    (hformatter : ∀ formatter previous changed, onFormatter formatter = .ok (previous, changed) →
      ∃ value options, gives formatter.options .forbidden value ∧
        changed = { formatter with options := options } ∧
        formatter.options.Replaced name previous value options)
    (hlexer : ∀ kept previous changed, onLexer kept = .ok (previous, changed) →
      ∃ value options, gives kept.lexer.options .allowed value ∧
        changed = { kept.lexer with options := options } ∧
        kept.lexer.options.Replaced name previous value options) :
    Assigned session slot name gives (session.assign slot onFormatter onLexer).1
      (session.assign slot onFormatter onLexer).2 := by
  unfold assign
  split
  case h_1 formatter hslot =>
    split
    case h_1 previous changed hset =>
      obtain ⟨value, options, hgives, rfl, hreplaced⟩ := hformatter formatter previous changed hset
      exact .formatter formatter options previous value hslot hgives hreplaced
        (fun other => session.keepFormatter_formatter? _) rfl
    case h_2 error _ => exact .refused error rfl rfl
  case h_2 hnone =>
    split
    case h_1 kept hslot =>
      split
      case h_1 previous changed hset =>
        obtain ⟨value, options, hgives, rfl, hreplaced⟩ := hlexer kept previous changed hset
        exact .lexer kept options previous value hnone hslot hgives hreplaced
          (fun other => session.updateLexer_lexer? hslot _) rfl
      case h_2 error _ => exact .refused error rfl rfl
    case h_2 hempty => exact .unanswered hnone hempty rfl rfl

/-- What is kept does not depend on the record of lifetimes. -/
theorem Assigned.record {reply : SessionReply} (h : Assigned session slot name gives reply after)
    (lifetimes : Lifetimes) : Assigned session slot name gives reply (after.record lifetimes) := by
  cases h with
  | formatter formatter options previous value hslot hgives hreplaced hafter hlexers =>
    exact .formatter formatter options previous value hslot hgives hreplaced hafter hlexers
  | lexer kept options previous value hnone hslot hgives hreplaced hafter hformatters =>
    exact .lexer kept options previous value hnone hslot hgives hreplaced hafter hformatters
  | refused error hlexers hformatters => exact .refused error hlexers hformatters
  | unanswered hformatter hlexer hlexers hformatters =>
    exact .unanswered hformatter hlexer hlexers hformatters

/-- A value takes at most one lexer out of the session, the one that is moved. -/
theorem resolve_kept (catalog : Catalog) (session : Session) (given : GivenValue) :
    (session.resolve catalog given).2.formatters = session.formatters ∧
      ((session.resolve catalog given).2.lexers = session.lexers ∨
        ∃ moved, given = .move moved ∧
          (session.resolve catalog given).2.lexers = (session.eraseLexer moved).lexers) := by
  cases given with
  | plain value => exact ⟨rfl, Or.inl rfl⟩
  | own spec =>
    unfold resolve
    dsimp only
    split <;> exact ⟨rfl, Or.inl rfl⟩
  | move moved =>
    unfold resolve
    dsimp only
    split
    · exact ⟨rfl, Or.inr ⟨moved, rfl, rfl⟩⟩
    · exact ⟨rfl, Or.inl rfl⟩
  | borrow slot =>
    unfold resolve
    dsimp only
    split <;> exact ⟨rfl, Or.inl rfl⟩

end Calls

end Session

/-- Whatever happens in a session, the options of every lexer and formatter it keeps are those declared,
in their order, each with a value of its declared type, and no formatter holds a lexer. Setting an
option by value or by text hands back what the first slot of that name held, stores the new value there
and leaves all else as it was; if it is refused, everything is as it was, but for a lexer that was moved
out of its slot to be the value. -/
theorem option_calls_keep_slots (catalog : Catalog) (fuel : Nat) (steps : List SessionStep) :
    (Session.performAll catalog fuel {} steps).Conforms catalog ∧
    (∀ slot name given,
      let session := Session.performAll catalog fuel {} steps
      let taken := (session.resolve catalog given).2
      let answer := session.setOption catalog slot name given
      (taken.formatters = session.formatters ∧ (taken.lexers = session.lexers ∨
        ∃ moved, given = .move moved ∧ taken.lexers = (session.eraseLexer moved).lexers)) ∧
      match (session.resolve catalog given).1 with
      | .ok value =>
        Session.Assigned taken slot name (fun _ _ stored => stored = value) answer.1 answer.2
      | .error reply => answer = (reply, taken)) ∧
    (∀ slot name text,
      let session := Session.performAll catalog fuel {} steps
      let answer := session.setOptionText catalog slot name text
      Session.Assigned session slot name
        (fun options lexers stored => options.Denotes catalog name text lexers stored)
        answer.1 answer.2) := by
  have hempty : Session.Conforms catalog {} := ⟨nofun, nofun⟩
  refine ⟨hempty.performAll fuel steps, ?_, ?_⟩
  · intro slot name given
    dsimp only
    refine ⟨Session.resolve_kept catalog _ given, ?_⟩
    unfold Session.setOption
    -- What becomes of the call no longer depends on where the value was taken from.
    generalize Session.resolve catalog (Session.performAll catalog fuel {} steps) given = resolved
    obtain ⟨reply | value, taken⟩ := resolved
    · rfl
    · apply Session.assign_assigned
      · intro formatter previous changed hset
        obtain ⟨options, hchanged, -, hreplaced⟩ := Formatter.setOption_eq_ok hset
        exact ⟨value, options, rfl, hchanged, hreplaced⟩
      · intro kept previous changed hset
        obtain ⟨options, hchanged, hreplaced⟩ := Lexer.setOption_eq_ok hset
        exact ⟨value, options, rfl, hchanged, hreplaced⟩
  · intro slot name text
    apply Session.Assigned.record
    apply Session.assign_assigned
    · intro formatter previous changed hset
      obtain ⟨value, options, hdenotes, hchanged, -, hreplaced⟩ :=
        Formatter.setOptionText_eq_ok hset
      exact ⟨value, options, hdenotes, hchanged, hreplaced⟩
    · intro kept previous changed hset
      obtain ⟨value, hdenotes, hvalue⟩ := Lexer.setOptionText_eq_ok hset
      obtain ⟨options, hchanged, hreplaced⟩ := Lexer.setOption_eq_ok hvalue
      exact ⟨value, options, hdenotes, hchanged, hreplaced⟩

end Highlighting

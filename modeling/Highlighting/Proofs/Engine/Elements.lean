import Highlighting.Proofs.Engine.Transition

/-! What holds of all live lexers. Steps change the states and parsers of live lexers, take lexers out
and make new ones for delegations; a property that does not look at states and at how far parsers are,
and that new lexers have, is kept by all of them. -/
namespace Highlighting

/-- A property of live lexers that neither scanning nor parsing touches. A parser that has been fed is
the parser of a live lexer of that language, in another state. -/
structure Element.Stable (P : Element → Prop) : Prop where
  setState : ∀ element state, P element → P (element.setState state)
  setParser : ∀ {element fed : Element} {running : RunningParser}, P element → P fed →
    fed.language = element.language → fed.parser? = some running →
      ∀ state, P (element.setParser ⟨running.parser, state⟩)

namespace LiveLexers

variable {P : Element → Prop} {live : LiveLexers}

def All (P : Element → Prop) (live : LiveLexers) : Prop :=
  ∀ element ∈ live.table, P element

theorem All.update (h : live.All P) (id : LanguageId) {change : Element → Element}
    (hchange : ∀ element, element.language = id → P element → P (change element)) :
    (live.update id change).All P := by
  intro element helement
  obtain ⟨before, hbefore, rfl⟩ := List.mem_map.mp helement
  split
  case isTrue hid => exact hchange before (beq_iff_eq.mp hid) (h before hbefore)
  case isFalse => exact h before hbefore

theorem All.erase (h : live.All P) (id : LanguageId) : (live.erase id).All P := by
  intro element helement
  exact h element (List.mem_filter.mp helement).1

theorem All.insert (h : live.All P) {element : Element} (hnew : P element) :
    (live.insert element).All P := by
  unfold LiveLexers.insert
  split
  · exact h
  · intro other hother
    rcases List.mem_append.mp hother with hold | hsame
    · exact h other hold
    · exact List.mem_singleton.mp hsame ▸ hnew

end LiveLexers

namespace Run

variable {P : Element → Prop} {job : Job} {run scanned after : Run} {event : ScanEvent}

theorem scan_all (hstable : Element.Stable P) (h : run.live.All P)
    (hscan : run.prepare.scan job = some (event, scanned)) : scanned.live.All P := by
  obtain ⟨element, -, -, rfl⟩ := (run.prepare.scan_eq_some_iff job).mp hscan
  exact h.update _ (fun element _ => hstable.setState element _)

theorem flushIfFull_all (h : run.live.All P) : (run.flushIfFull job).live.All P := by
  unfold flushIfFull
  split <;> exact h

theorem token_all (hstable : Element.Stable P) (h : run.live.All P) (kind : TokenKind) :
    (run.token job kind).live.All P := by
  unfold token
  split
  · exact h
  · apply flushIfFull_all
    unfold consultParser
    split
    case h_1 => exact h
    case h_2 running hrunning =>
      split at hrunning
      case isFalse => cases hrunning
      case isTrue =>
        obtain ⟨fed, hget, hparser⟩ := Option.bind_eq_some_iff.mp hrunning
        have hfed := h fed (List.mem_of_find?_eq_some hget)
        have hid := LiveLexers.language_of_get? hget
        -- The parser that moves on is that of the active language, and it goes to that language only.
        have hmoved (state : running.parser.State) := h.update run.active
          (fun element hactive helement =>
            hstable.setParser helement hfed (hid.trans hactive.symm) hparser state)
        dsimp only
        split <;> exact hmoved _

theorem unterminated_all (h : run.live.All P) : (run.unterminated job).live.All P := by
  unfold unterminated
  split
  · exact h
  · have hqueued : (run.queue .text).live.All P := h
    exact flushIfFull_all hqueued

theorem leave_all (hstable : Element.Stable P) (h : run.live.All P) (frame : Frame) :
    (run.leave job frame).live.All P := by
  unfold leave
  dsimp only
  -- Resuming sets a state, and releasing the delegate takes a lexer out.
  cases frame.resume with
  | none =>
    split
    · exact LiveLexers.All.erase h _
    · exact h
  | some condition =>
    have hresumed := LiveLexers.All.update h frame.parent
      (fun element _ => hstable.setState element (element.lexer.state.start condition))
    split
    · exact hresumed.erase _
    · exact hresumed

/-- A property that scanning and parsing do not touch is kept by a move if a lexer that is made for a
delegation has it. -/
theorem Move.all (hmove : Move job scanned event after) (hstable : Element.Stable P)
    (h : scanned.live.All P)
    (hnew : ∀ delegation, event = .delegate delegation →
      P (job.element scanned.bridge .engine (Lexer.create job.catalog delegation.target))) :
    after.live.All P := by
  cases hmove with
  | token kind => exact token_all hstable h kind
  | extend => exact h
  | leave frame outer hframes =>
    have hclosed : ({ scanned.unterminated job with frames := outer } : Run).live.All P :=
      unterminated_all h
    exact leave_all hstable hclosed frame
  | refuse delegation hrefused =>
    unfold fallback
    dsimp only
    split
    · have hclaimed : ({ scanned with cursor := scanned.limit } : Run).live.All P := h
      exact token_all hstable hclaimed _
    · exact token_all hstable h _
  | enter delegation haccepted =>
    have hready : (if scanned.live.contains delegation.target then scanned
        else scanned.activate job delegation.target).live.All P := by
      split
      · exact h
      · exact h.insert (hnew delegation rfl)
    exact hready

theorem start_all (job : Job) (config : EngineConfig) (lexer : Lexer) (others : List Lexer)
    (hnew : ∀ entry ∈ (lexer :: others).zipIdx,
      P (job.element config.parserBridge (.caller entry.2) entry.1)) :
    (job.start config lexer others).live.All P := by
  have hfold (entries : List (Lexer × Nat)) (live : LiveLexers) (hlive : live.All P)
      (hentries : ∀ entry ∈ entries,
        P (job.element config.parserBridge (.caller entry.2) entry.1)) :
      (entries.foldl (job.enlist config.parserBridge) live).All P := by
    induction entries generalizing live with
    | nil => exact hlive
    | cons entry rest ih =>
      obtain ⟨hentry, hrest⟩ := List.forall_mem_cons.mp hentries
      refine ih _ ?_ hrest
      unfold Job.enlist
      split
      · exact hlive
      · exact hlive.insert hentry
  exact hfold _ _ (fun element helement => absurd helement List.not_mem_nil) hnew

end Run

end Highlighting

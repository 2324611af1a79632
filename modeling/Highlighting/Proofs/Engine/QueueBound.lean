import Highlighting.Proofs.Engine.Consultation
import Highlighting.Proofs.Engine.Lifetimes

/-! How many spans are queued. Whoever queues a span renders the queue if that filled it, so between two
steps there is room for one more and a step never queues more than the capacity. There is one exception:
the shebang line is queued at the beginning and not looked at again, and where the capacity is one span
the next one comes on top of it. -/
namespace Highlighting

namespace Run

/-- What a run goes through in a step: the state before the scan call and after it, with the span of a
token queued, with a parser consulted about the token, with a span closed that was kept open, and after
the step. -/
inductive During (job : Job) (run : Run) : Run → Prop
  | before : During job run run.prepare
  | scanned {event : ScanEvent} {scanned : Run}
      (hscan : run.prepare.scan job = some (event, scanned)) : During job run scanned
  | queued {event : ScanEvent} {scanned claimed : Run} {kind : TokenKind}
      (hscan : run.prepare.scan job = some (event, scanned))
      (htoken : scanned.tokenOf? event = some (claimed, kind))
      (hmore : claimed.text < claimed.cursor) : During job run (claimed.queue kind)
  | consulted {event : ScanEvent} {scanned claimed : Run} {kind : TokenKind}
      (hscan : run.prepare.scan job = some (event, scanned))
      (htoken : scanned.tokenOf? event = some (claimed, kind))
      (hmore : claimed.text < claimed.cursor) :
      During job run ((claimed.queue kind).consultParser job kind)
  | closed {scanned : Run} (hscan : run.prepare.scan job = some (.done, scanned))
      (hmore : scanned.text < scanned.cursor) : During job run (scanned.queue .text)
  | after : During job run (run.step job).run

/-- There is room for another span, or else the queue is as it was at the beginning: it is filled by the
shebang line that is passed through. -/
inductive HasRoom (job : Job) (config : EngineConfig) (run : Run) : Prop
  | spare (hless : run.ranges.size < job.capacity)
  | opening (stop : Nat) (hpassed : job.passedThrough? config = some stop)
      (hcapacity : job.capacity = 1) (hranges : run.ranges = #[(0, stop)])

/-- Of two queued spans the first is the shebang line, although a single span fills the queue. -/
def Overfull (job : Job) (config : EngineConfig) (ranges : Array (Nat × Nat)) : Prop :=
  job.capacity = 1 ∧ ∃ stop range, job.passedThrough? config = some stop ∧
    ranges = #[(0, stop), range]

section Steps

variable {job : Job} {config : EngineConfig} {run scanned after : Run} {event : ScanEvent}

theorem HasRoom.of_ranges (h : run.HasRoom job config) (hranges : after.ranges = run.ranges) :
    after.HasRoom job config := by
  cases h with
  | spare hless => exact .spare (hranges ▸ hless)
  | opening stop hpassed hcapacity hopening =>
    exact .opening stop hpassed hcapacity (hranges.trans hopening)

theorem HasRoom.size_le (hpos : 0 < job.capacity) (h : run.HasRoom job config) :
    run.ranges.size ≤ job.capacity := by
  cases h with
  | spare hless => exact Nat.le_of_lt hless
  | opening stop hpassed hcapacity hranges =>
    rw [hranges]
    exact hpos

/-- One more span fits in, or it comes on top of the shebang line. -/
theorem HasRoom.push (h : run.HasRoom job config) (range : Nat × Nat) :
    (run.ranges.push range).size ≤ job.capacity ∨ Overfull job config (run.ranges.push range) := by
  cases h with
  | spare hless =>
    left
    rw [Array.size_push]
    omega
  | opening stop hpassed hcapacity hranges =>
    right
    refine ⟨hcapacity, stop, range, hpassed, ?_⟩
    rw [hranges]
    rfl

theorem hasRoom_of_empty (hpos : 0 < job.capacity) (hempty : run.ranges = #[]) :
    run.HasRoom job config := by
  apply HasRoom.spare
  rw [hempty]
  exact hpos

theorem flushIfFull_hasRoom (hpos : 0 < job.capacity) (run : Run) :
    (run.flushIfFull job).HasRoom job config := by
  unfold flushIfFull
  split
  case isTrue => exact hasRoom_of_empty hpos (flush_ranges job run)
  case isFalse hless =>
    apply HasRoom.spare
    rw [ranges, Array.size_map]
    omega

theorem HasRoom.token (hpos : 0 < job.capacity) (h : run.HasRoom job config) (kind : TokenKind) :
    (run.token job kind).HasRoom job config := by
  unfold Run.token
  split
  · exact h
  · exact flushIfFull_hasRoom hpos _

theorem HasRoom.unterminated (hpos : 0 < job.capacity) (h : run.HasRoom job config) :
    (run.unterminated job).HasRoom job config := by
  unfold Run.unterminated
  split
  · exact h
  · have hflushed : ((run.queue .text).flushIfFull job).HasRoom job config :=
      flushIfFull_hasRoom hpos _
    exact hflushed.of_ranges rfl

theorem claimed_ranges (run : Run) (delegation : Delegation) :
    (run.claimed delegation).ranges = run.ranges := by
  unfold claimed
  split <;> rfl

theorem Move.hasRoom (hpos : 0 < job.capacity) (hmove : Move job scanned event after)
    (h : scanned.HasRoom job config) : after.HasRoom job config := by
  cases hmove with
  | token kind => exact h.token hpos kind
  | extend => exact h.of_ranges rfl
  | leave frame outer hframes => exact hasRoom_of_empty hpos (leave_ranges job _ frame)
  | refuse delegation hrefused =>
    rw [fallback_eq_token]
    exact (h.of_ranges (claimed_ranges scanned delegation)).token hpos delegation.fallback
  | enter delegation haccepted => exact hasRoom_of_empty hpos (enter_ranges job scanned delegation)

theorem HasRoom.scan (h : run.HasRoom job config)
    (hscan : run.prepare.scan job = some (event, scanned)) : scanned.HasRoom job config :=
  h.of_ranges (run.prepare.scan_ranges job hscan)

theorem HasRoom.step (hpos : 0 < job.capacity) (h : run.HasRoom job config) :
    (run.step job).run.HasRoom job config := by
  have hstepped := step_stepped job run
  generalize run.step job = progress at hstepped
  cases hstepped with
  | lost hscan => exact h.of_ranges rfl
  | closed hscan hframes => exact (h.scan hscan).unterminated hpos
  | moved stalls hscan hmove => exact (hmove.hasRoom hpos (h.scan hscan)).of_ranges rfl
  | stuck stalls error hscan hmove => exact (hmove.hasRoom hpos (h.scan hscan)).of_ranges rfl

theorem start_hasRoom (hpos : 0 < job.capacity) (lexer : Lexer) (others : List Lexer) :
    (job.start config lexer others).HasRoom job config := by
  cases hpassed : job.passedThrough? config with
  | none =>
    apply hasRoom_of_empty hpos
    simp only [ranges, Job.start, hpassed, Array.map_empty]
  | some stop =>
    have hranges : (job.start config lexer others).ranges = #[(0, stop)] := by
      simp only [ranges, Job.start, hpassed, List.map_toArray, List.map_cons, List.map_nil]
      rfl
    by_cases hone : job.capacity = 1
    · exact .opening stop hpassed hone hranges
    · apply HasRoom.spare
      rw [hranges, List.size_toArray, List.length_singleton]
      omega

theorem Reaches.hasRoom (hpos : 0 < job.capacity) {lexer : Lexer} {others : List Lexer}
    (hreach : Reaches job (job.start config lexer others) run) : run.HasRoom job config := by
  refine hreach.invariant (I := HasRoom job config) (M := fun _ => HasRoom job config) ?_ ?_
    (start_hasRoom hpos lexer others)
  · intro run event scanned h hscan
    exact h.scan hscan
  · intro event scanned after stalls h hmove
    exact (hmove.hasRoom hpos h).of_ranges rfl

/-- Queueing a span is the only thing in a step that can go beyond the capacity. -/
theorem HasRoom.during (hpos : 0 < job.capacity) (h : run.HasRoom job config) {moment : Run}
    (hmoment : During job run moment) :
    moment.ranges.size ≤ job.capacity ∨ Overfull job config moment.ranges := by
  have hclaimed {event : ScanEvent} {scanned claimed : Run} {kind : TokenKind}
      (hscan : run.prepare.scan job = some (event, scanned))
      (htoken : scanned.tokenOf? event = some (claimed, kind)) :
      (claimed.queue kind).ranges.size ≤ job.capacity ∨
        Overfull job config (claimed.queue kind).ranges := by
    obtain ⟨cursor, rfl⟩ := tokenOf?_eq_some htoken
    have hroom : ({ scanned with cursor := cursor } : Run).HasRoom job config :=
      (h.scan hscan).of_ranges rfl
    rw [queue_ranges]
    exact hroom.push _
  cases hmoment with
  | before =>
    have hprepared : run.prepare.HasRoom job config := h.of_ranges rfl
    exact Or.inl (hprepared.size_le hpos)
  | scanned hscan => exact Or.inl ((h.scan hscan).size_le hpos)
  | queued hscan htoken hmore => exact hclaimed hscan htoken
  | consulted hscan htoken hmore =>
    rw [consultParser_ranges]
    exact hclaimed hscan htoken
  | closed hscan hmore =>
    rw [queue_ranges]
    exact (h.scan hscan).push _
  | after => exact Or.inl ((h.step hpos).size_le hpos)

theorem during_of_consulted? {consultation : Consultation}
    (hconsulted : run.consulted? job = some consultation) :
    ∃ moment, During job run moment ∧ consultation.queue = moment.pending := by
  obtain ⟨event, scanned, claimed, kind, hscan, htoken, hconsultation⟩ := consulted?_eq_some hconsulted
  obtain ⟨element, parser, -, -, hmore, -, rfl⟩ := consultation?_eq_some hconsultation
  exact ⟨claimed.queue kind, .queued hscan htoken hmore, rfl⟩

end Steps

end Run

/-- Between two steps at most as many spans are queued as the capacity says, and so it is at every
moment of a step, and a parser is shown no more than that; only where the capacity is a single span and a
shebang line is passed through, the first span behind that line is queued on top of it. -/
theorem queue_bounded (catalog : Catalog) (host : Host) (config : EngineConfig) (source : Bytes)
    (lexer : Lexer) (others : List Lexer) (run : Run)
    (hreach : Run.Reaches (Job.ofSource catalog host config source)
      ((Job.ofSource catalog host config source).start config lexer others) run) :
    run.pending.size ≤ max 1 config.bufferCapacity ∧
    (∀ moment, run.During (Job.ofSource catalog host config source) moment →
      moment.pending.size ≤ max 1 config.bufferCapacity ∨
        Run.Overfull (Job.ofSource catalog host config source) config moment.ranges) ∧
    ∀ consultation, run.consulted? (Job.ofSource catalog host config source) = some consultation →
      consultation.queue.size ≤ max 1 config.bufferCapacity ∨
        Run.Overfull (Job.ofSource catalog host config source) config
          (consultation.queue.map Span.range) := by
  let job := Job.ofSource catalog host config source
  have hpos : 0 < job.capacity := Nat.lt_of_lt_of_le Nat.zero_lt_one (Nat.le_max_left 1 _)
  have hroom := hreach.hasRoom hpos
  have hduring (moment : Run) (hmoment : run.During job moment) :
      moment.pending.size ≤ max 1 config.bufferCapacity ∨ Run.Overfull job config moment.ranges := by
    have hbound := hroom.during hpos hmoment
    rw [Run.ranges, Array.size_map] at hbound
    exact hbound
  refine ⟨?_, hduring, ?_⟩
  · have hbound := hroom.size_le hpos
    rw [Run.ranges, Array.size_map] at hbound
    exact hbound
  · intro consultation hconsulted
    obtain ⟨moment, hmoment, hqueue⟩ := Run.during_of_consulted? hconsulted
    rw [hqueue]
    exact hduring moment hmoment

def Bytes.scriptedList : Bytes :=
  Bytes.ofText "#!a\n[]"

theorem scripted_queue_bounded :
    ∃ run consultation,
      Run.Reaches (Job.ofSource .relay (fun _ => none) { bufferCapacity := 2 } .scriptedList)
        ((Job.ofSource .relay (fun _ => none) { bufferCapacity := 2 } .scriptedList).start
          { bufferCapacity := 2 } (Lexer.create .relay .json) []) run ∧
      run.consulted? (Job.ofSource .relay (fun _ => none) { bufferCapacity := 2 } .scriptedList) =
        some consultation ∧
      consultation.queue.size = 2 ∧ consultation.queue.size ≤ max 1 2 := by
  let job := Job.ofSource .relay (fun _ => none) { bufferCapacity := 2 } .scriptedList
  let start := job.start { bufferCapacity := 2 } (Lexer.create .relay .json) []
  have hshown : (start.consulted? job).map (fun consultation => consultation.queue.size) = some 2 := by
    decide +kernel
  obtain ⟨consultation, hconsulted, hsize⟩ := Option.map_eq_some_iff.mp hshown
  refine ⟨start, consultation, .refl, hconsulted, hsize, ?_⟩
  rcases (queue_bounded .relay (fun _ => none) { bufferCapacity := 2 } .scriptedList
    (Lexer.create .relay .json) [] start .refl).2.2 consultation hconsulted with hbound | hover
  · exact hbound
  · exact absurd hover.1 (by decide)

/-- With a queue for a single span a parser is shown two: the shebang line is still queued. -/
theorem shebang_left_in_queue :
    ¬ ∀ (catalog : Catalog) (host : Host) (config : EngineConfig) (source : Bytes)
      (lexers : List Lexer) (consultation : Consultation),
      (Job.ofSource catalog host config source).Consults config lexers consultation →
        consultation.queue.size ≤ max 1 config.bufferCapacity := by
  intro hall
  let config : EngineConfig := { bufferCapacity := 1 }
  let job := Job.ofSource .relay (fun _ => none) config .scriptedList
  let start := job.start config (Lexer.create .relay .json) []
  have hshown : (start.consulted? job).map (fun consultation => consultation.queue.size) = some 2 := by
    decide +kernel
  obtain ⟨consultation, hconsulted, hsize⟩ := Option.map_eq_some_iff.mp hshown
  have hbound := hall .relay (fun _ => none) config .scriptedList [Lexer.create .relay .json]
    consultation ⟨_, _, start, rfl, .refl, hconsulted⟩
  rw [hsize] at hbound
  exact absurd hbound (by decide)

end Highlighting

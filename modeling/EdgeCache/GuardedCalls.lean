import EdgeCache.Moves

/-!
# Calls through the breaker

`RequestHandler::fetchGuarded` asks the breaker, fetches if it is admitted, and records one
result.  A fetch takes as long as it takes, so a result may be recorded in any later state of
the breaker.  This module lets any number of such calls run against one breaker and keeps the
history of what they did to it.

**Main results.**

* The breaker counts right and is never stuck half open (`consistent_of_run`).
* An open breaker stays open for its window and is closed by a probe only, exactly if no other
  success is recorded while it is not closed (`respected_iff`).
* The breaker of every replica of the fleet is driven by such calls (`guarded_of_steps`).
-/

namespace EdgeCache

open Transition

/-! ## The calls and their history -/

/-- What a call does to the breaker. -/
inductive BreakerUse
  | allow (admitted : Bool)
  | success
  | failure
  deriving DecidableEq

/-- One use of the breaker, with the breaker's state before and after it. -/
structure Passage where
  call : ℕ
  use : BreakerUse
  before : BreakerState
  after : BreakerState
  time : ℕ
  deriving DecidableEq

/-- Where a call of `fetchGuarded` stands. -/
inductive CallStage
  | fetching
  | returned
  deriving DecidableEq

/-- A breaker, the calls that go through it, and what they did, the latest first. -/
structure Guarded where
  clock : ℕ
  breaker : CircuitBreaker
  calls : ℕ → Option CallStage
  history : List Passage

/-- What can happen next. -/
inductive GuardedAction
  /-- Time passes. -/
  | tick (d : ℕ)
  /-- A call begins with `allowRequest`. -/
  | enter (call : ℕ)
  /-- The fetch of a call succeeds, and `recordSuccess` is called. -/
  | succeed (call : ℕ)
  /-- The fetch of a call fails, and `recordFailure` is called. -/
  | fail (call : ℕ)

namespace Guarded

/-- Before the first call. -/
def initial (clock : ℕ) : Guarded where
  clock := clock
  breaker := CircuitBreaker.initial
  calls := fun _ => none
  history := []

/-- A call has used the breaker. -/
def pass (s : Guarded) (c : ℕ) (use : BreakerUse) (b : CircuitBreaker) (stage : CallStage) :
    Guarded :=
  { s with
    breaker := b
    calls := Function.update s.calls c (some stage)
    history := ⟨c, use, s.breaker.state, b.state, s.clock⟩ :: s.history }

/-- **The steps of the calls.** -/
def step (limits : BreakerLimits) (s : Guarded) : GuardedAction → Option Guarded
  | .tick d => some { s with clock := s.clock + d }
  | .enter c =>
      if (s.calls c).isNone then
        let (admitted, b) := s.breaker.allowRequest limits s.clock
        some (s.pass c (.allow admitted) b (if admitted then .fetching else .returned))
      else none
  | .succeed c =>
      if s.calls c = some .fetching then
        some (s.pass c .success s.breaker.recordSuccess .returned)
      else none
  | .fail c =>
      if s.calls c = some .fetching then
        some (s.pass c .failure (s.breaker.recordFailure limits s.clock) .returned)
      else none

end Guarded

/-! ## Reading the history -/

/-- The number of failures recorded since the last success, or since the start. -/
def failuresSince : List Passage → ℕ
  | [] => 0
  | p :: rest =>
      match p.use with
      | .success => 0
      | .failure => failuresSince rest + 1
      | .allow _ => failuresSince rest

/-- What happened since the half-open period began, if the breaker is half open. -/
def period (history : List Passage) : List Passage := history.takeWhile (·.after = .halfOpen)

/-- The number of requests admitted. -/
def admissions (passages : List Passage) : ℕ := passages.countP (·.use = .allow true)

/-- **The breaker counts right and is never stuck.** -/
structure Guarded.Sound (limits : BreakerLimits) (s : Guarded) : Prop where
  closed : s.breaker.state = .closed →
    s.breaker.consecutiveFailures < limits.failureThreshold ∧
      s.breaker.consecutiveFailures = failuresSince s.history
  halfOpen : s.breaker.state = .halfOpen →
    (∃ p ∈ period s.history, p.use = .allow true ∧ s.calls p.call = some .fetching) ∧
      (admissions (period s.history) : ℤ) ≤ max 1 limits.halfOpenMaxProbes
  opens : ∀ p rest, p :: rest <:+ s.history → p.before = .closed →
    (p.after = .opened ↔
      p.use = .failure ∧ (failuresSince (p :: rest) : ℤ) = limits.failureThreshold)

/-- **An open breaker is respected**: nothing is admitted for `openMs` after it opens, and it is
closed out of a half-open period only, by the success of a request admitted there. -/
structure Respected (limits : BreakerLimits) (history : List Passage) : Prop where
  window : ∀ q rest, q :: rest <:+ history → q.use = .allow true →
    ∀ p ∈ rest, p.before ≠ .opened → p.after = .opened →
      p.time + limits.openMs * 1000000 ≤ q.time
  closes : ∀ p rest, p :: rest <:+ history → p.before ≠ .closed → p.after = .closed →
    p.before = .halfOpen ∧ p.use = .success ∧
      ∃ q ∈ period rest, q.call = p.call ∧ q.use = .allow true

/-- **No success is recorded late**: none while the breaker is open, and while it is half open
only those of the requests admitted there. -/
def NoneLate (s : Guarded) : GuardedAction → Prop
  | .succeed c => s.breaker.state = .closed ∨
      (s.breaker.state = .halfOpen ∧ ∃ q ∈ period s.history, q.call = c ∧ q.use = .allow true)
  | _ => True

/-! ## The cases of a step -/

namespace Guarded

variable {limits : BreakerLimits} {s s' : Guarded}

/-- **The cases of a step**, by the state of the breaker. -/
inductive Turn (limits : BreakerLimits) (s : Guarded) : GuardedAction → Guarded → Prop
  | tick (d : ℕ) : Turn limits s (.tick d) { s with clock := s.clock + d }
  | proceed {c : ℕ} (unused : s.calls c = none) (closed : s.breaker.state = .closed) :
      Turn limits s (.enter c) (s.pass c (.allow true) s.breaker .fetching)
  | probe {c : ℕ} (unused : s.calls c = none) (opened : s.breaker.state = .opened)
      (elapsed : limits.openMs ≤ ((s.clock : ℤ) - s.breaker.openedAt).tdiv 1000000) :
      Turn limits s (.enter c) (s.pass c (.allow true)
        { s.breaker with state := .halfOpen, halfOpenProbes := 1 } .fetching)
  | probeMore {c : ℕ} (unused : s.calls c = none) (halfOpen : s.breaker.state = .halfOpen)
      (more : s.breaker.halfOpenProbes < limits.halfOpenMaxProbes) :
      Turn limits s (.enter c) (s.pass c (.allow true)
        { s.breaker with halfOpenProbes := s.breaker.halfOpenProbes + 1 } .fetching)
  | reject {c : ℕ} (unused : s.calls c = none) (notClosed : s.breaker.state ≠ .closed) :
      Turn limits s (.enter c) (s.pass c (.allow false) s.breaker .returned)
  | success {c : ℕ} (fetching : s.calls c = some .fetching) :
      Turn limits s (.succeed c) (s.pass c .success s.breaker.recordSuccess .returned)
  | count {c : ℕ} (fetching : s.calls c = some .fetching) (closed : s.breaker.state = .closed)
      (below : s.breaker.consecutiveFailures + 1 < limits.failureThreshold) :
      Turn limits s (.fail c) (s.pass c .failure
        { s.breaker with consecutiveFailures := s.breaker.consecutiveFailures + 1 } .returned)
  | trip {c : ℕ} (fetching : s.calls c = some .fetching) (closed : s.breaker.state = .closed)
      (reached : limits.failureThreshold ≤ s.breaker.consecutiveFailures + 1) :
      Turn limits s (.fail c) (s.pass c .failure
        { state := .opened
          consecutiveFailures := s.breaker.consecutiveFailures + 1
          halfOpenProbes := 0
          openedAt := s.clock } .returned)
  | reopen {c : ℕ} (fetching : s.calls c = some .fetching)
      (halfOpen : s.breaker.state = .halfOpen) :
      Turn limits s (.fail c) (s.pass c .failure (s.breaker.transitionToOpen s.clock) .returned)
  | late {c : ℕ} (fetching : s.calls c = some .fetching) (opened : s.breaker.state = .opened) :
      Turn limits s (.fail c) (s.pass c .failure
        { s.breaker with consecutiveFailures := s.breaker.consecutiveFailures + 1 } .returned)

/-- **Every step is one of the cases.** -/
theorem turn_of_step {a : GuardedAction} (taken : s.step limits a = some s') :
    Turn limits s a s' := by
  cases a with
  | tick d => cases taken; exact .tick d
  | enter c =>
      simp only [step, Option.isNone_iff_eq_none, Option.ite_none_right_eq_some,
        Option.some.injEq] at taken
      obtain ⟨unused, rfl⟩ := taken
      cases state : s.breaker.state with
      | closed =>
          rw [CircuitBreaker.allowRequest_of_closed state]
          exact .proceed unused state
      | opened =>
          simp only [CircuitBreaker.allowRequest, state]
          split
          · rename_i elapsed
            exact .probe unused state elapsed
          · exact .reject unused (by simp [state])
      | halfOpen =>
          simp only [CircuitBreaker.allowRequest, state]
          split
          · rename_i more
            have turn := Turn.probeMore unused state more
            simpa [state] using turn
          · exact .reject unused (by simp [state])
  | succeed c =>
      simp only [step, Option.ite_none_right_eq_some, Option.some.injEq] at taken
      obtain ⟨fetching, rfl⟩ := taken
      exact .success fetching
  | fail c =>
      simp only [step, Option.ite_none_right_eq_some, Option.some.injEq] at taken
      obtain ⟨fetching, rfl⟩ := taken
      cases state : s.breaker.state with
      | closed =>
          by_cases reached : limits.failureThreshold ≤ s.breaker.consecutiveFailures + 1
          · have turn := Turn.trip fetching state reached
            simpa [CircuitBreaker.recordFailure, CircuitBreaker.transitionToOpen, state, reached]
              using turn
          · have turn := Turn.count fetching state (not_le.mp reached)
            simpa [CircuitBreaker.recordFailure, state, reached] using turn
      | opened =>
          have turn : Turn limits s (.fail c) _ := .late fetching state
          simpa [CircuitBreaker.recordFailure, state] using turn
      | halfOpen =>
          simp only [CircuitBreaker.recordFailure, state]
          exact .reopen fetching state

@[simp] theorem pass_breaker (c : ℕ) (use : BreakerUse) (b : CircuitBreaker) (stage : CallStage) :
    (s.pass c use b stage).breaker = b := rfl

@[simp] theorem pass_clock (c : ℕ) (use : BreakerUse) (b : CircuitBreaker) (stage : CallStage) :
    (s.pass c use b stage).clock = s.clock := rfl

@[simp] theorem pass_history (c : ℕ) (use : BreakerUse) (b : CircuitBreaker) (stage : CallStage) :
    (s.pass c use b stage).history = ⟨c, use, s.breaker.state, b.state, s.clock⟩ :: s.history := rfl

@[simp] theorem pass_calls (c : ℕ) (use : BreakerUse) (b : CircuitBreaker) (stage : CallStage) :
    (s.pass c use b stage).calls = Function.update s.calls c (some stage) := rfl

end Guarded

/-! ## The breaker counts right -/

/-- The state of the breaker after the last use of it. -/
def lastState : List Passage → BreakerState
  | [] => .closed
  | p :: _ => p.after

theorem period_of_ne {history : List Passage} (other : lastState history ≠ .halfOpen) :
    period history = [] := by
  cases history with
  | nil => rfl
  | cons p rest => exact List.takeWhile_cons_of_neg (by simpa [lastState] using other)

theorem period_cons {p : Passage} (rest : List Passage) (inside : p.after = .halfOpen) :
    period (p :: rest) = p :: period rest :=
  List.takeWhile_cons_of_pos (by simp [inside])

namespace Guarded

variable {limits : BreakerLimits} {s s' : Guarded}

/-- **What the breaker keeps to.**  The requests admitted in a half-open period are all on
their way: the first result of any of them ends it. -/
structure Kept (limits : BreakerLimits) (s : Guarded) : Prop where
  last : s.breaker.state = lastState s.history
  counts : s.breaker.state = .closed →
    s.breaker.consecutiveFailures < limits.failureThreshold ∧
      s.breaker.consecutiveFailures = failuresSince s.history
  probes : s.breaker.state = .halfOpen →
    s.breaker.halfOpenProbes = admissions (period s.history) ∧
      1 ≤ s.breaker.halfOpenProbes ∧ s.breaker.halfOpenProbes ≤ max 1 limits.halfOpenMaxProbes
  out : s.breaker.state = .halfOpen →
    ∀ p ∈ period s.history, p.use = .allow true → s.calls p.call = some .fetching
  opens : ∀ p rest, p :: rest <:+ s.history → p.before = .closed →
    (p.after = .opened ↔
      p.use = .failure ∧ (failuresSince (p :: rest) : ℤ) = limits.failureThreshold)

/-- At the start. -/
theorem kept_initial (positive : 1 ≤ limits.failureThreshold) (clock : ℕ) :
    Kept limits (initial clock) where
  last := rfl
  counts := fun _ => ⟨Int.lt_of_lt_of_le one_pos positive, rfl⟩
  probes := by simp [initial, CircuitBreaker.initial]
  out := by simp [initial, CircuitBreaker.initial]
  opens := by simp [initial]

/-- What was true of the transitions so far, and is true of the next, is true of all. -/
theorem Kept.opens_cons (kept : Kept limits s) {p : Passage}
    (next : p.before = .closed → (p.after = .opened ↔
      p.use = .failure ∧ (failuresSince (p :: s.history) : ℤ) = limits.failureThreshold)) :
    ∀ q rest, q :: rest <:+ p :: s.history → q.before = .closed →
      (q.after = .opened ↔
        q.use = .failure ∧ (failuresSince (q :: rest) : ℤ) = limits.failureThreshold) := by
  intro q rest suffix closed
  rcases List.suffix_cons_iff.mp suffix with whole | earlier
  · obtain ⟨rfl, rfl⟩ := List.cons.inj whole
    exact next closed
  · exact kept.opens q rest earlier closed

/-- Outside a half-open period, no request belongs to one. -/
theorem Kept.period_nil (kept : Kept limits s) (other : s.breaker.state ≠ .halfOpen) :
    period s.history = [] := period_of_ne (kept.last ▸ other)

/-- A request admitted in the half-open period is not one that begins now. -/
theorem Kept.out_update (kept : Kept limits s) {c : ℕ} (unused : s.calls c = none)
    (stage : CallStage) (state : s.breaker.state = .halfOpen) :
    ∀ p ∈ period s.history, p.use = .allow true →
      Function.update s.calls c (some stage) p.call = some .fetching := by
  intro p mem admitted
  have out := kept.out state p mem admitted
  rwa [Function.update_of_ne (by rintro rfl; simp [unused] at out)]

/-- **Every use of the breaker keeps to it.** -/
theorem kept_of_step {a : GuardedAction} (positive : 1 ≤ limits.failureThreshold)
    (taken : s.step limits a = some s') (kept : Kept limits s) : Kept limits s' := by
  cases turn_of_step taken with
  | tick d => exact ⟨kept.last, kept.counts, kept.probes, kept.out, kept.opens⟩
  | @proceed c unused closed =>
      refine ⟨rfl, fun _ => ?_, ?_, ?_, kept.opens_cons ?_⟩
      · simpa [failuresSince] using kept.counts closed
      · simp [closed]
      · simp [closed]
      · simp [closed]
  -- The half-open period begins with this probe.
  | @probe c unused opened elapsed =>
      have none := kept.period_nil (by simp [opened])
      refine ⟨rfl, by simp, fun _ => ?_, fun _ => ?_, kept.opens_cons (by simp [opened])⟩
      · rw [pass_history, period_cons _ rfl, none]
        simp [admissions]
      · rw [pass_history, period_cons _ rfl, none]
        simp
  | @probeMore c unused halfOpen more =>
      obtain ⟨counted, least, _⟩ := kept.probes halfOpen
      refine ⟨rfl, by simp [halfOpen], fun _ => ?_, fun _ => ?_,
        kept.opens_cons (by simp [halfOpen])⟩
      · rw [pass_history, period_cons _ halfOpen]
        refine ⟨?_, ?_, ?_⟩
        · simp [admissions, counted]
        · exact le_trans least (by simp)
        · exact le_max_of_le_right (by simpa using more)
      · rw [pass_history, period_cons _ halfOpen, List.forall_mem_cons]
        exact ⟨by simp, kept.out_update unused _ halfOpen⟩
  | @reject c unused notClosed =>
      refine ⟨rfl, fun closed => absurd closed notClosed, fun halfOpen => ?_, fun halfOpen => ?_,
        kept.opens_cons (fun closed => absurd closed notClosed)⟩
      · rw [pass_history, period_cons _ halfOpen]
        simpa [admissions] using kept.probes halfOpen
      · rw [pass_history, period_cons _ halfOpen, List.forall_mem_cons]
        exact ⟨by simp, kept.out_update unused _ halfOpen⟩
  | @success c fetching =>
      have closed := CircuitBreaker.state_recordSuccess s.breaker
      refine ⟨rfl, fun _ => ⟨?_, ?_⟩, by simp [closed], by simp [closed],
        kept.opens_cons (by simp [closed])⟩
      · rw [pass_breaker, CircuitBreaker.consecutiveFailures_recordSuccess]
        exact Int.lt_of_lt_of_le one_pos positive
      · simp [CircuitBreaker.consecutiveFailures_recordSuccess, failuresSince]
  | @count c fetching closed below =>
      obtain ⟨_, counted⟩ := kept.counts closed
      refine ⟨rfl, fun _ => ⟨below, ?_⟩, by simp [closed], by simp [closed],
        kept.opens_cons fun _ => ?_⟩
      · simp [failuresSince, counted]
      · have fewer : ((failuresSince s.history + 1 : ℕ) : ℤ) ≠ limits.failureThreshold := by
          push_cast
          omega
        simpa [failuresSince, closed] using fewer
  -- The counter is below the threshold before, so it meets the threshold exactly.
  | @trip c fetching closed reached =>
      obtain ⟨below, counted⟩ := kept.counts closed
      refine ⟨rfl, by simp, by simp, by simp, kept.opens_cons fun _ => ?_⟩
      have exact_ : ((failuresSince s.history + 1 : ℕ) : ℤ) = limits.failureThreshold := by
        push_cast
        omega
      simpa [failuresSince] using exact_
  | @reopen c fetching halfOpen =>
      exact ⟨rfl, by simp [CircuitBreaker.transitionToOpen],
        by simp [CircuitBreaker.transitionToOpen], by simp [CircuitBreaker.transitionToOpen],
        kept.opens_cons (by simp [halfOpen])⟩
  | @late c fetching opened =>
      exact ⟨rfl, by simp [opened], by simp [opened], by simp [opened],
        kept.opens_cons (by simp [opened])⟩

/-- A breaker that keeps to it counts right and is never stuck. -/
theorem Kept.sound (kept : Kept limits s) : Sound limits s where
  closed := kept.counts
  halfOpen := by
    intro state
    obtain ⟨counted, least, most⟩ := kept.probes state
    refine ⟨?_, counted ▸ most⟩
    have some : 0 < admissions (period s.history) := by omega
    obtain ⟨p, mem, admitted⟩ := List.countP_pos_iff.mp some
    exact ⟨p, mem, of_decide_eq_true admitted, kept.out state p mem (of_decide_eq_true admitted)⟩
  opens := kept.opens

/-- **The breaker counts right in every run.** -/
theorem consistent_of_run (positive : 1 ≤ limits.failureThreshold) {clock : ℕ}
    {acts : List GuardedAction} (ran : run (step limits) (initial clock) acts = some s) :
    Sound limits s :=
  ((Steps.of_run (meets_true _ _ acts) ran).invariant
    (fun _ _ _ _ taken kept => kept_of_step positive taken kept)
    (kept_initial positive clock)).sound

/-- One failure opens the breaker, for ten seconds. -/
def strictLimits : BreakerLimits where
  failureThreshold := 1
  openMs := 10000
  halfOpenMaxProbes := 1

/-- A request fails, and after the window the breaker lets a probe through. -/
def probingRun : List GuardedAction := [.enter 0, .fail 0, .tick (10000 * 1000000), .enter 1]

/-- After such a run the breaker is half open. -/
theorem consistent_probingRun : ∃ s, run (step strictLimits) (initial 0) probingRun = some s ∧
    s.breaker.state = .halfOpen ∧ Sound strictLimits s := by
  obtain ⟨s, ran, state⟩ := exists_of_run
    (show (run (step strictLimits) (initial 0) probingRun).any
      (fun s => decide (s.breaker.state = .halfOpen)) = true by decide +kernel)
  exact ⟨s, ran, of_decide_eq_true state, consistent_of_run (by decide) ran⟩

end Guarded

/-! ## An open breaker stays open -/

/-- What is respected now was respected before. -/
theorem Respected.of_suffix {limits : BreakerLimits} {front back : List Passage}
    (respected : Respected limits back) (earlier : front <:+ back) : Respected limits front where
  window := fun q rest suffix => respected.window q rest (suffix.trans earlier)
  closes := fun p rest suffix => respected.closes p rest (suffix.trans earlier)

/-- What was respected so far, and is respected by the next use, is respected. -/
theorem Respected.cons {limits : BreakerLimits} {p : Passage} {history : List Passage}
    (respected : Respected limits history)
    (window : p.use = .allow true → ∀ q ∈ history, q.before ≠ .opened → q.after = .opened →
      (q.time : ℤ) + limits.openMs * 1000000 ≤ p.time)
    (closes : p.before ≠ .closed → p.after = .closed → p.before = .halfOpen ∧ p.use = .success ∧
      ∃ q ∈ period history, q.call = p.call ∧ q.use = .allow true) :
    Respected limits (p :: history) where
  window := by
    intro q rest suffix
    rcases List.suffix_cons_iff.mp suffix with whole | earlier
    · obtain ⟨rfl, rfl⟩ := List.cons.inj whole
      exact window
    · exact respected.window q rest earlier
  closes := by
    intro q rest suffix
    rcases List.suffix_cons_iff.mp suffix with whole | earlier
    · obtain ⟨rfl, rfl⟩ := List.cons.inj whole
      exact closes
    · exact respected.closes q rest earlier

namespace Guarded

variable {limits : BreakerLimits} {s s' : Guarded}

/-- The window of a transition to open has ended. -/
def Ended (limits : BreakerLimits) (s : Guarded) (p : Passage) : Prop :=
  (p.time : ℤ) + limits.openMs * 1000000 ≤ s.clock

/-- **What holds while no success comes late**: every window has ended, except perhaps that of the
transition which opened the breaker now. -/
structure Windowed (limits : BreakerLimits) (s : Guarded) : Prop where
  last : s.breaker.state = lastState s.history
  ended : ∀ p ∈ s.history, p.before ≠ .opened → p.after = .opened →
    Ended limits s p ∨ (s.breaker.state = .opened ∧ s.breaker.openedAt = p.time)
  past : s.breaker.state = .opened → s.breaker.openedAt ≤ s.clock
  respected : Respected limits s.history

/-- At the start. -/
theorem windowed_initial (limits : BreakerLimits) (clock : ℕ) :
    Windowed limits (initial clock) where
  last := rfl
  ended := by simp [initial]
  past := by simp [initial, CircuitBreaker.initial]
  respected := ⟨by simp [initial], by simp [initial]⟩

/-- While the breaker is not open, every window has ended. -/
theorem Windowed.ended_of_ne (windowed : Windowed limits s) (other : s.breaker.state ≠ .opened) :
    ∀ p ∈ s.history, p.before ≠ .opened → p.after = .opened → Ended limits s p :=
  fun p mem shut opens => (windowed.ended p mem shut opens).resolve_right fun h => other h.1

/-- A breaker that is let half open has been open for its window. -/
theorem Windowed.ended_of_elapsed (windowed : Windowed limits s)
    (opened : s.breaker.state = .opened)
    (elapsed : limits.openMs ≤ ((s.clock : ℤ) - s.breaker.openedAt).tdiv 1000000) :
    ∀ p ∈ s.history, p.before ≠ .opened → p.after = .opened → Ended limits s p := by
  intro p mem shut opens
  rcases windowed.ended p mem shut opens with ended | ⟨_, now⟩
  · exact ended
  · have past := windowed.past opened
    rw [Int.tdiv_eq_ediv_of_nonneg (by omega)] at elapsed
    simp only [Ended]
    omega

/-- A use of the breaker that is no transition to open, after which every window has ended. -/
theorem Windowed.pass_ended (windowed : Windowed limits s) {c : ℕ} {use : BreakerUse}
    {b : CircuitBreaker} {stage : CallStage} (shut : b.state ≠ .opened)
    (ended : ∀ p ∈ s.history, p.before ≠ .opened → p.after = .opened → Ended limits s p)
    (closes : s.breaker.state ≠ .closed → b.state = .closed → s.breaker.state = .halfOpen ∧
      use = .success ∧ ∃ q ∈ period s.history, q.call = c ∧ q.use = .allow true) :
    Windowed limits (s.pass c use b stage) where
  last := rfl
  ended := by
    rw [pass_history, List.forall_mem_cons]
    exact ⟨fun _ opens => absurd opens shut,
      fun p mem before opens => .inl (ended p mem before opens)⟩
  past := fun opened => absurd opened shut
  respected := windowed.respected.cons (fun _ => ended) closes

/-- A use that opens the breaker. -/
theorem Windowed.pass_opens (windowed : Windowed limits s) {c : ℕ} {use : BreakerUse}
    {b : CircuitBreaker} {stage : CallStage} (shut : s.breaker.state ≠ .opened)
    (opens : b.state = .opened) (now : b.openedAt = s.clock) (nothing : use ≠ .allow true) :
    Windowed limits (s.pass c use b stage) where
  last := rfl
  ended := by
    rw [pass_history, List.forall_mem_cons]
    exact ⟨fun _ _ => .inr ⟨opens, now⟩,
      fun p mem before opens => .inl (windowed.ended_of_ne shut p mem before opens)⟩
  past := fun _ => now.le
  respected := windowed.respected.cons (fun admitted => absurd admitted nothing)
    (fun _ closed => by simp [opens] at closed)

/-- A use that leaves an open breaker open. -/
theorem Windowed.pass_opened (windowed : Windowed limits s) {c : ℕ} {use : BreakerUse}
    {b : CircuitBreaker} {stage : CallStage} (opened : s.breaker.state = .opened)
    (still : b.state = .opened) (same : b.openedAt = s.breaker.openedAt)
    (nothing : use ≠ .allow true) : Windowed limits (s.pass c use b stage) where
  last := rfl
  ended := by
    rw [pass_history, List.forall_mem_cons]
    refine ⟨fun before => absurd opened before, fun p mem before opens => ?_⟩
    rcases windowed.ended p mem before opens with ended | ⟨_, now⟩
    · exact .inl ended
    · exact .inr ⟨still, same.trans now⟩
  past := fun _ => same ▸ windowed.past opened
  respected := windowed.respected.cons (fun admitted => absurd admitted nothing)
    (fun _ closed => by simp [still] at closed)

/-- **Every step without a late success respects the windows.** -/
theorem windowed_of_step {a : GuardedAction} (inTime : NoneLate s a)
    (taken : s.step limits a = some s') (windowed : Windowed limits s) : Windowed limits s' := by
  cases turn_of_step taken with
  | tick d =>
      refine ⟨windowed.last, fun p mem before opens => ?_, fun opened => ?_, windowed.respected⟩
      · refine (windowed.ended p mem before opens).imp_left fun ended => ?_
        simp only [Ended] at ended ⊢
        push_cast
        omega
      · have past := windowed.past opened
        push_cast
        omega
  | @proceed c unused closed =>
      exact windowed.pass_ended (by simp [closed]) (windowed.ended_of_ne (by simp [closed]))
        (fun before => absurd closed before)
  | @probe c unused opened elapsed =>
      exact windowed.pass_ended (by simp) (windowed.ended_of_elapsed opened elapsed) (by simp)
  | @probeMore c unused halfOpen more =>
      exact windowed.pass_ended (by simp [halfOpen]) (windowed.ended_of_ne (by simp [halfOpen]))
        (by simp [halfOpen])
  | @reject c unused notClosed =>
      by_cases opened : s.breaker.state = .opened
      · exact windowed.pass_opened opened opened rfl (by simp)
      · exact windowed.pass_ended opened (windowed.ended_of_ne opened)
          (fun before closed => absurd closed before)
  -- A success under an open breaker would cut the window short: it is late.
  | @success c fetching =>
      have shut : s.breaker.state ≠ .opened := by
        rcases inTime with closed | ⟨halfOpen, _⟩
        · simp [closed]
        · simp [halfOpen]
      refine windowed.pass_ended (by simp [CircuitBreaker.state_recordSuccess])
        (windowed.ended_of_ne shut) fun before _ => ?_
      obtain ⟨halfOpen, admitted⟩ := inTime.resolve_left before
      exact ⟨halfOpen, rfl, admitted⟩
  | @count c fetching closed below =>
      exact windowed.pass_ended (by simp [closed]) (windowed.ended_of_ne (by simp [closed]))
        (fun before => absurd closed before)
  | @trip c fetching closed reached =>
      exact windowed.pass_opens (by simp [closed]) rfl rfl (by simp)
  | @reopen c fetching halfOpen =>
      exact windowed.pass_opens (by simp [halfOpen]) rfl rfl (by simp)
  | @late c fetching opened =>
      exact windowed.pass_opened opened opened rfl (by simp)

/-- A run adds to the history. -/
theorem history_suffix {acts : List GuardedAction} (ran : run (step limits) s acts = some s') :
    s.history <:+ s'.history := by
  refine (Steps.of_run (meets_true _ _ acts) ran).rel (R := fun s s' => s.history <:+ s'.history)
    (fun _ => List.suffix_rfl) (fun _ _ _ => List.IsSuffix.trans) ?_
  intro t a t' _ taken
  cases turn_of_step taken with
  | tick d => exact List.suffix_rfl
  | _ => exact List.suffix_cons _ _

/-- A success that closes the breaker as it should is not late. -/
theorem noneLate_of_respected {a : GuardedAction} (taken : s.step limits a = some s')
    (respected : Respected limits s'.history) : NoneLate s a := by
  cases turn_of_step taken with
  | @success c fetching =>
      by_cases closed : s.breaker.state = .closed
      · exact .inl closed
      · obtain ⟨halfOpen, _, admitted⟩ := respected.closes _ _ List.suffix_rfl closed
          (CircuitBreaker.state_recordSuccess s.breaker)
        exact .inr ⟨halfOpen, admitted⟩
  | _ => trivial

/-- **An open breaker is respected exactly if no success is recorded late.** -/
theorem respected_iff {clock : ℕ} {acts : List GuardedAction}
    (ran : run (step limits) (initial clock) acts = some s) :
    Respected limits s.history ↔ Meets (step limits) NoneLate (initial clock) acts := by
  constructor
  · intro respected
    suffices along : ∀ (acts : List GuardedAction) (t : Guarded),
        run (step limits) t acts = some s → Meets (step limits) NoneLate t acts from
      along acts _ ran
    intro acts
    induction acts with
    | nil => exact fun _ _ => trivial
    | cons a rest ih =>
        intro t ran
        rw [run_cons, Option.bind_eq_some_iff] at ran
        obtain ⟨t', taken, ran⟩ := ran
        refine ⟨noneLate_of_respected taken (respected.of_suffix (history_suffix ran)), ?_⟩
        intro u taken'
        obtain rfl : t' = u := Option.some.inj (taken.symm.trans taken')
        exact ih t' ran
  · intro meets
    exact ((Steps.of_run meets ran).invariant
      (fun _ _ _ inTime taken windowed => windowed_of_step inTime taken windowed)
      (windowed_initial limits clock)).respected

instance : ∀ (s : Guarded) (a : GuardedAction), Decidable (NoneLate s a)
  | _, .tick _ | _, .enter _ | _, .fail _ => .isTrue trivial
  | s, .succeed c => inferInstanceAs (Decidable (s.breaker.state = .closed ∨
      (s.breaker.state = .halfOpen ∧ ∃ q ∈ period s.history, q.call = c ∧ q.use = .allow true)))

/-- Where the probe itself succeeds, the open breaker is respected. -/
theorem respected_probingRun : ∃ s,
    run (step strictLimits) (initial 0) (probingRun ++ [.succeed 1, .enter 2]) = some s ∧
      s.breaker.state = .closed ∧ Respected strictLimits s.history := by
  obtain ⟨s, ran, state⟩ := exists_of_run
    (show (run (step strictLimits) (initial 0) (probingRun ++ [.succeed 1, .enter 2])).any
      (fun s => decide (s.breaker.state = .closed)) = true by decide +kernel)
  have inTime := meets_of_passes (fun _ _ => of_decide_eq_true)
    (show passes (step strictLimits) (fun s a => decide (NoneLate s a)) (initial 0)
      (probingRun ++ [.succeed 1, .enter 2]) = true by decide +kernel)
  exact ⟨s, ran, of_decide_eq_true state, (respected_iff ran).mpr inTime⟩

/-- Two requests are admitted, the first fails and opens the breaker, and the success of the
second closes it at once. -/
def lateRun : List GuardedAction := [.enter 0, .enter 1, .fail 0, .succeed 1, .enter 2]

/-- **A late success closes an open breaker**, and a request is admitted within the window. -/
theorem not_respected_lateRun : ∃ s, run (step strictLimits) (initial 0) lateRun = some s ∧
    ¬ Respected strictLimits s.history := by
  obtain ⟨s, ran, past⟩ := exists_of_run
    (show (run (step strictLimits) (initial 0) lateRun).any (fun s => decide (s.history =
      [⟨2, .allow true, .closed, .closed, 0⟩, ⟨1, .success, .opened, .closed, 0⟩,
        ⟨0, .failure, .closed, .opened, 0⟩, ⟨1, .allow true, .closed, .closed, 0⟩,
        ⟨0, .allow true, .closed, .closed, 0⟩])) = true by decide +kernel)
  refine ⟨s, ran, fun respected => ?_⟩
  rw [of_decide_eq_true past] at respected
  have window := respected.window _ _ List.suffix_rfl rfl
    ⟨0, .failure, .closed, .opened, 0⟩ (by decide) (by decide) rfl
  simp [strictLimits] at window

end Guarded

/-! ## The breakers of the fleet -/

/-- How far a thread that stands there has come with its call of `fetchGuarded`. -/
def Pc.Stands (stage : Option CallStage) : Pc → Prop
  | .lookup | .get _ | .acquire _ _ | .l2Get _ | .allowRequest _ => stage = none
  | .fetch _ | .fetching _ | .record _ _ => stage = some .fetching
  | _ => stage ≠ some .fetching

variable {ι : Type} [DecidableEq ι] {D : Deployment ι} {s s' : State ι} {t : ℕ} {th : Thread ι}
  {input : Input} {o : Outcome ι}

/-- What a move does to the breaker: it begins a call, ends one, or leaves it alone. -/
inductive Conduct (D : Deployment ι) (s : State ι) (th : Thread ι) (o : Outcome ι) : Prop
  | enters {lead : Lead} {admitted : Bool} {b : CircuitBreaker} (here : th.pc = .allowRequest lead)
      (answer : (s.breaker th.replica).allowRequest D.limits s.clock = (admitted, b))
      (write : o.write = .breaker b) (child : o.child = none)
      (stands : o.pc.Stands (some (if admitted then .fetching else .returned)))
  | succeeds {lead : Lead} {result : OriginResult} (here : th.pc = .record lead result)
      (write : o.write = .breaker (s.breaker th.replica).recordSuccess) (child : o.child = none)
      (stands : o.pc.Stands (some .returned))
  | fails {lead : Lead} {result : OriginResult} (here : th.pc = .record lead result)
      (write : o.write = .breaker ((s.breaker th.replica).recordFailure D.limits s.clock))
      (child : o.child = none) (stands : o.pc.Stands (some .returned))
  | passes (write : ∀ b, o.write ≠ .breaker b)
      (stands : ∀ stage, th.pc.Stands stage → o.pc.Stands stage)
      (child : ∀ u pc, o.child = some (u, pc) → pc.Stands none)

omit [DecidableEq ι] in
/-- **Every move does one of these.** -/
theorem conduct_of_move (move : Move D s t th input o) : Conduct D s th o := by
  cases move with
  | allow here allowed => exact .enters here allowed rfl rfl (by simp [Pc.Stands])
  | passFailure failed =>
      cases failed with
      | rejected here refused => exact .enters here refused rfl rfl (by simp [Pc.Stands])
      | failed here notOk => exact .fails here rfl rfl (by simp [Pc.Stands])
  | leadFailure role failed =>
      cases failed with
      | rejected here refused => exact .enters here refused rfl rfl (by simp [Pc.Stands])
      | failed here notOk => exact .fails here rfl rfl (by simp [Pc.Stands])
  | passSuccess here ok => exact .succeeds here rfl rfl (by simp [Pc.Stands])
  | leadSuccess role here ok => exact .succeeds here rfl rfl (by simp [Pc.Stands])
  | lead here absent =>
      refine .passes (by simp) (fun stage stands => ?_) (by simp)
      rw [here] at stands
      by_cases l2 : D.l2Enabled = true <;> simpa [l2, Pc.Stands] using stands
  | put here =>
      refine .passes (by simp) (fun stage stands => ?_) (by simp)
      rw [here] at stands
      by_cases l2 : D.l2Enabled = true <;>
        simpa [l2, Pc.Stands, Deployment.afterPut] using stands
  | _ => exact .passes (by simp) (by simp_all [Pc.Stands]) (by simp_all [Pc.Stands])

/-- The guarded calls are those of the threads of one replica. -/
structure Mirrored (i : ι) (s : State ι) (g : Guarded) : Prop where
  clock : g.clock = s.clock
  breaker : g.breaker = s.breaker i
  running : ∀ t th, s.threads t = some th → th.replica = i → th.pc.Stands (g.calls t)
  others : ∀ t, (∀ th, s.threads t = some th → th.replica ≠ i) → g.calls t = none

/-- The other breakers are left alone. -/
theorem breaker_apply_of_ne {i j : ι} {key : ByteString} (w : Write) (apart : i ≠ j) :
    (s.apply j key w).breaker i = s.breaker i := by
  cases w with
  | breaker b => exact Function.update_of_ne apart ..
  | _ => rfl

/-- Only a breaker operation changes the breaker. -/
theorem breaker_apply_of_other {i : ι} {key : ByteString} {w : Write}
    (other : ∀ b, w ≠ .breaker b) : (s.apply i key w).breaker = s.breaker := by
  cases w with
  | breaker b => exact absurd rfl (other b)
  | _ => rfl

/-- A move that begins or ends a call of the replica is one use of its breaker. -/
theorem Mirrored.commit_pass {i : ι} {g : Guarded} (mirrored : Mirrored i s g)
    (running : s.threads t = some th) (move : Move D s t th input o) (mine : th.replica = i)
    {b : CircuitBreaker} (write : o.write = .breaker b) (child : o.child = none)
    {stage : CallStage} (stands : o.pc.Stands (some stage)) (use : BreakerUse) :
    Mirrored i (s.commit (D.key th.req) t th o) (g.pass t use b stage) where
  clock := by rw [Guarded.pass_clock, commit_clock, mirrored.clock]
  breaker := by
    subst mine
    rw [commit_breaker, write]
    exact (Function.update_self th.replica b s.breaker).symm
  running := by
    intro u uh found
    rcases threads_commit_of_childless child found with ⟨rfl, rfl⟩ | ⟨apart, old⟩
    · rw [Guarded.pass_calls, Function.update_self]
      exact fun _ => stands
    · rw [Guarded.pass_calls, Function.update_of_ne apart]
      exact mirrored.running u uh old
  others := by
    intro u foreign
    have apart : u ≠ t := by
      rintro rfl
      exact foreign _ (threads_commit_self move running) mine
    rw [Guarded.pass_calls, Function.update_of_ne apart]
    exact mirrored.others u fun uh old => foreign uh (threads_commit_of_ne move old apart)

/-- A move that is no use of the replica's breaker. -/
theorem Mirrored.commit_frame {i : ι} {g : Guarded} (mirrored : Mirrored i s g)
    (running : s.threads t = some th) (move : Move D s t th input o)
    (breaker : (s.apply th.replica (D.key th.req) o.write).breaker i = s.breaker i)
    (stands : th.replica = i → ∀ stage, th.pc.Stands stage → o.pc.Stands stage)
    (child : th.replica = i → ∀ u pc, o.child = some (u, pc) → pc.Stands none) :
    Mirrored i (s.commit (D.key th.req) t th o) g where
  clock := by rw [commit_clock, mirrored.clock]
  breaker := by rw [commit_breaker, breaker, mirrored.breaker]
  running := by
    intro u uh found mine
    rcases threads_commit found with ⟨rfl, rfl⟩ | ⟨pc, born, rfl⟩ | ⟨-, old⟩
    · exact stands mine _ (mirrored.running u th running mine)
    · rw [mirrored.others u (by simp [child_unused move born])]
      exact child mine u pc born
    · exact mirrored.running u uh old mine
  others := by
    intro u foreign
    refine mirrored.others u fun uh old => ?_
    by_cases here : u = t
    · subst here
      obtain rfl : th = uh := Option.some.inj (running.symm.trans old)
      exact foreign { th with pc := o.pc } (threads_commit_self move running)
    · exact foreign uh (threads_commit_of_ne move old here)

/-- **A step of the fleet is at most one step of the calls.** -/
theorem mirrored_of_step {i : ι} {g : Guarded} {a : Action ι} (taken : D.step s a = some s')
    (mirrored : Mirrored i s g) :
    ∃ g', Steps (Guarded.step D.limits) (fun _ _ => True) g g' ∧ Mirrored i s' g' := by
  cases turn_of_step taken with
  | @start t j req unused =>
      refine ⟨g, .refl g, mirrored.clock, mirrored.breaker, ?_, ?_⟩
      · intro u uh found mine
        rcases update_eq_some found with ⟨rfl, rfl⟩ | ⟨-, old⟩
        · rw [mirrored.others u (by simp [unused])]
          unfold Deployment.entryPoint
          split <;> rfl
        · exact mirrored.running u uh old mine
      · intro u foreign
        refine mirrored.others u fun uh old => foreign uh ?_
        have apart : u ≠ t := by
          rintro rfl
          simp [unused] at old
        exact (Function.update_of_ne apart ..).trans old
  -- A thread of another replica uses another breaker.
  | @thread t input th o running move =>
      by_cases mine : th.replica = i
      · have stands := mirrored.running t th running mine
        cases conduct_of_move move with
        | @enters lead admitted b here answer write child after =>
            rw [here] at stands
            rw [mine, ← mirrored.breaker, ← mirrored.clock] at answer
            refine ⟨_, .single (a := .enter t) trivial ?_,
              mirrored.commit_pass running move mine write child after (.allow admitted)⟩
            have unused : g.calls t = none := stands
            simp [Guarded.step, unused, answer]
        | @succeeds lead result here write child after =>
            rw [here] at stands
            rw [mine, ← mirrored.breaker] at write
            refine ⟨_, .single (a := .succeed t) trivial ?_,
              mirrored.commit_pass running move mine write child after .success⟩
            exact if_pos stands
        | @fails lead result here write child after =>
            rw [here] at stands
            rw [mine, ← mirrored.breaker, ← mirrored.clock] at write
            refine ⟨_, .single (a := .fail t) trivial ?_,
              mirrored.commit_pass running move mine write child after .failure⟩
            exact if_pos stands
        | passes write after child =>
            exact ⟨g, .refl g, mirrored.commit_frame running move
              (by rw [breaker_apply_of_other write]) (fun _ => after) (fun _ => child)⟩
      · exact ⟨g, .refl g, mirrored.commit_frame running move
          (breaker_apply_of_ne _ (Ne.symm mine)) (fun same => absurd same mine)
          (fun same => absurd same mine)⟩
  | @tick d bounded =>
      refine ⟨_, .single (a := .tick d) trivial rfl, ?_, mirrored.breaker, mirrored.running,
        mirrored.others⟩
      rw [mirrored.clock]
  | _ => exact ⟨g, .refl g, mirrored.clock, mirrored.breaker, mirrored.running, mirrored.others⟩

/-- **The breaker of every replica is driven by such calls**, in every run of the fleet. -/
theorem guarded_of_steps {guard : State ι → Action ι → Prop} {clock : ℕ}
    (steps : Steps D.step guard (D.initial clock) s) (i : ι) :
    ∃ g, Steps (Guarded.step D.limits) (fun _ _ => True) (Guarded.initial clock) g ∧
      Mirrored i s g := by
  induction steps with
  | refl => exact ⟨_, .refl _, rfl, rfl, by simp [Deployment.initial], by simp [Guarded.initial]⟩
  | tail _ last ih =>
      obtain ⟨a, _, taken⟩ := last
      obtain ⟨g, reached, mirrored⟩ := ih
      obtain ⟨g', further, mirrored'⟩ := mirrored_of_step taken mirrored
      exact ⟨g', reached.trans further, mirrored'⟩

/-- **A replica is never stuck half open**: one of its threads is on its way to a result. -/
theorem exists_fetching_of_halfOpen {guard : State ι → Action ι → Prop} {clock : ℕ}
    (positive : 1 ≤ D.limits.failureThreshold)
    (steps : Steps D.step guard (D.initial clock) s) {i : ι}
    (halfOpen : (s.breaker i).state = .halfOpen) :
    ∃ t th, s.threads t = some th ∧ th.replica = i ∧ th.pc.Stands (some .fetching) := by
  obtain ⟨g, reached, mirrored⟩ := guarded_of_steps steps i
  have kept : Guarded.Kept D.limits g := reached.invariant
    (fun _ _ _ _ taken kept => Guarded.kept_of_step positive taken kept)
    (Guarded.kept_initial positive clock)
  obtain ⟨⟨p, _, _, fetching⟩, _⟩ := kept.sound.halfOpen (mirrored.breaker ▸ halfOpen)
  by_cases foreign : ∀ th, s.threads p.call = some th → th.replica ≠ i
  · rw [mirrored.others p.call foreign] at fetching
    cases fetching
  · push Not at foreign
    obtain ⟨th, running, mine⟩ := foreign
    exact ⟨p.call, th, running, mine, fetching ▸ mirrored.running p.call th running mine⟩

end EdgeCache

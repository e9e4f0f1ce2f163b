import EdgeCache.Census
import EdgeCache.GuardedCalls

/-!
# The load on an origin that is down

While no fetch of a replica succeeds, its breaker does not close again: it opens, lets some probes
through when `openMs` has gone by, and opens again with the first of them that fails.  So the
fetches that it lets through are rationed by the time that passes.

**Main result.**  From any state of any run of the fleet in which the breaker of a replica is open,
and as long as no fetch of that replica succeeds, **the origin gets at most one round of probes for
every window** (`load_le_of_run`), beside the fetches that were admitted before.
-/

namespace EdgeCache

open Transition

variable {ι : Type} [DecidableEq ι] {D : Deployment ι} {s s' : State ι} {t : ℕ} {th : Thread ι}
  {input : Input} {o : Outcome ι} {i : ι}

/-! ## Fetches that start -/

/-- A fetch of the replica starts. -/
def starts (i : ι) : Event ι → ℕ
  | .fetchStarted _ j _ => if j = i then 1 else 0
  | _ => 0

/-- The breaker has admitted the thread, and its fetch has yet to start. -/
def Pc.admitted : Pc → ℕ
  | .fetch _ => 1
  | _ => 0

/-- The threads of the replica that the breaker has admitted. -/
def admittedOn (i : ι) (_ : ℕ) (th : Thread ι) : ℕ := if th.replica = i then th.pc.admitted else 0

/-- The fetches of the replica that have started, or are admitted. -/
noncomputable def load (i : ι) (s : State ι) : ℕ :=
  tally (starts i) s.trace + weigh (admittedOn i) s.threads

/-- **What a move does to the fetches of its replica.** -/
inductive Draws (D : Deployment ι) (s : State ι) (th : Thread ι) (o : Outcome ι) : Prop
  | admits {lead : Lead} {b : CircuitBreaker} (here : th.pc = .allowRequest lead)
      (allowed : (s.breaker th.replica).allowRequest D.limits s.clock = (true, b))
      (write : o.write = .breaker b) (next : o.pc = .fetch lead) (silent : o.events = [])
      (child : o.child = none)
  | rejects {lead : Lead} {b : CircuitBreaker} (here : th.pc = .allowRequest lead)
      (refused : (s.breaker th.replica).allowRequest D.limits s.clock = (false, b))
      (write : o.write = .breaker b) (next : o.pc.admitted = 0)
      (silent : ∀ i, tally (starts i) o.events = 0) (child : o.child = none)
  | records {lead : Lead} {result : OriginResult} (here : th.pc = .record lead result)
      (write : o.write = .breaker (if result.ok then (s.breaker th.replica).recordSuccess
        else (s.breaker th.replica).recordFailure D.limits s.clock))
      (next : o.pc.admitted = 0) (silent : ∀ i, tally (starts i) o.events = 0)
      (child : o.child = none)
  | passes (write : ∀ b, o.write ≠ .breaker b)
      (same : ∀ i, tally (starts i) o.events + (if th.replica = i then o.pc.admitted else 0) =
        if th.replica = i then th.pc.admitted else 0)
      (child : ∀ u pc, o.child = some (u, pc) → pc.admitted = 0)

theorem starts_conclude (t : ℕ) (th : Thread ι) (lead : Lead) (hit : Option ℤ)
    (resp : HttpResponse) : tally (starts i) (conclude t th lead hit resp) = 0 := by
  cases lead <;> simp [conclude, starts]

/-- **Every move does one of these.** -/
theorem draws_of_move (move : Move D s t th input o) : Draws D s th o := by
  cases move with
  | allow here allowed => exact .admits here allowed rfl rfl rfl rfl
  | fetch here =>
      refine .passes (by simp) (fun i => ?_) (by simp)
      simp [here, starts, Pc.admitted]
  | passFailure failed =>
      cases failed with
      | rejected here refused =>
          exact .rejects here refused rfl rfl (fun i => by simp [starts]) rfl
      | failed here notOk =>
          exact .records here (by simp [notOk]) rfl (fun i => by simp [starts]) rfl
  | leadFailure role failed =>
      cases failed with
      | rejected here refused => exact .rejects here refused rfl rfl (fun i => rfl) rfl
      | failed here notOk => exact .records here (by simp [notOk]) rfl (fun i => rfl) rfl
  | passSuccess here ok => exact .records here (by simp [ok]) rfl (fun i => by simp [starts]) rfl
  | leadSuccess role here ok => exact .records here (by simp [ok]) rfl (fun i => rfl) rfl
  | lead here absent =>
      refine .passes (by simp) (fun i => ?_) (by simp)
      by_cases l2 : D.l2Enabled = true <;> simp [here, l2, starts, Pc.admitted]
  | put here =>
      refine .passes (by simp) (fun i => ?_) (by simp)
      by_cases l2 : D.l2Enabled = true <;>
        simp [here, l2, Pc.admitted, Deployment.afterPut]
  | triggerLead here =>
      refine .passes (by simp) (fun i => ?_) (fun u pc born => ?_)
      · simp [here, starts, Pc.admitted]
      · obtain ⟨-, rfl⟩ := Prod.mk.inj (Option.some.inj born)
        rfl
  | lost here absent =>
      exact .passes (by simp) (fun i => by simp [here, Pc.admitted, starts_conclude]) (by simp)
  | fill here =>
      refine .passes (by simp) (fun i => ?_) (by simp)
      simp [here, starts, Pc.admitted, starts_conclude]
  | _ => exact .passes (by simp) (fun i => by simp_all [starts, Pc.admitted]) (by simp_all)

/-! ## What a step does to a breaker and its fetches -/

/-- **No fetch of the replica succeeds**: its breaker is not told of one. -/
def NoSuccess (i : ι) (s : State ι) : Action ι → Prop
  | .step t _ => ∀ th lead result, s.threads t = some th → th.replica = i →
      th.pc = .record lead result → result.ok = false
  | _ => True

/-- A step admits one more fetch, records a failure, or does neither. -/
inductive Feeds (D : Deployment ι) (i : ι) (s s' : State ι) : Prop
  | admits {b : CircuitBreaker}
      (allowed : (s.breaker i).allowRequest D.limits s.clock = (true, b))
      (breaker : s'.breaker i = b) (more : load i s' = load i s + 1) (clock : s'.clock = s.clock)
  | fails (breaker : s'.breaker i = (s.breaker i).recordFailure D.limits s.clock)
      (same : load i s' = load i s) (clock : s'.clock = s.clock)
  | rests (breaker : s'.breaker i = s.breaker i) (same : load i s' = load i s)
      (clock : s.clock ≤ s'.clock)

/-- A breaker that refuses is left alone. -/
theorem breaker_of_refused {limits : BreakerLimits} {now : ℤ} {b b' : CircuitBreaker}
    (refused : b.allowRequest limits now = (false, b')) : b' = b := by
  unfold CircuitBreaker.allowRequest at refused
  split at refused
  · cases refused
  · simp only at refused
    split at refused
    · cases refused
    · exact (Prod.mk.inj refused).2.symm
  · split at refused
    · cases refused
    · exact (Prod.mk.inj refused).2.symm

/-- What a move of a thread changes. -/
theorem load_commit (few : Few s.threads) (running : s.threads t = some th)
    (move : Move D s t th input o) (child : ∀ u pc, o.child = some (u, pc) → pc.admitted = 0) :
    load i (s.commit (D.key th.req) t th o) + (if th.replica = i then th.pc.admitted else 0) =
      load i s + tally (starts i) o.events + (if th.replica = i then o.pc.admitted else 0) := by
  have moved := weigh_commit (admittedOn i) (D.key th.req) few running move
  have born : childWeight (admittedOn i) th o.child = 0 := by
    cases here : o.child with
    | none => rfl
    | some started =>
        obtain ⟨u, pc⟩ := started
        simp [childWeight, admittedOn, child u pc here]
  rw [born, add_zero] at moved
  unfold load
  rw [commit_trace, tally_append]
  simp only [admittedOn] at moved ⊢
  omega

/-- The breaker that a thread writes. -/
theorem breaker_commit {b : CircuitBreaker} (write : o.write = .breaker b) (key : ByteString) :
    (s.commit key t th o).breaker th.replica = b := by
  rw [commit_breaker, write]
  exact Function.update_self ..

/-- **Every step is one of these**, while no fetch of the replica succeeds. -/
theorem feeds_of_step {a : Action ι} (taken : D.step s a = some s') (dead : NoSuccess i s a)
    (few : Few s.threads) : Feeds D i s s' := by
  cases turn_of_step taken with
  | @start t j req unused =>
      refine .rests rfl ?_ le_rfl
      have entered : (Deployment.entryPoint req).admitted = 0 := by
        unfold Deployment.entryPoint
        split <;> rfl
      simp [load, weigh_start _ few unused, starts, admittedOn, entered]
  | @thread t input th o running move =>
      have moved (child : ∀ u pc, o.child = some (u, pc) → pc.admitted = 0) :=
        load_commit (i := i) few running move child
      have clock : (s.commit (D.key th.req) t th o).clock = s.clock := commit_clock
      by_cases mine : th.replica = i
      · subst mine
        cases draws_of_move move with
        | admits here allowed write next silent child =>
            have moved := moved (by simp [child])
            refine .admits allowed (breaker_commit write _) ?_ clock
            simpa [here, next, silent, Pc.admitted] using moved
        | rejects here refused write next silent child =>
            have moved := moved (by simp [child])
            have idle : th.pc.admitted = 0 := by rw [here]; rfl
            refine .rests ?_ ?_ clock.ge
            · rw [breaker_commit write, breaker_of_refused refused]
            · simpa [idle, next, silent] using moved
        | @records lead result here write next silent child =>
            have failed : result.ok = false := dead th lead result running rfl here
            have moved := moved (by simp [child])
            have idle : th.pc.admitted = 0 := by rw [here]; rfl
            refine .fails ?_ ?_ clock
            · rw [breaker_commit write, failed]
              rfl
            · simpa [idle, next, silent] using moved
        | passes write same child =>
            have moved := moved child
            refine .rests ?_ ?_ clock.ge
            · rw [commit_breaker, breaker_apply_of_other write]
            · have same := same th.replica
              omega
      -- A thread of another replica uses another breaker.
      · have apart : i ≠ th.replica := Ne.symm mine
        have breaker : (s.commit (D.key th.req) t th o).breaker i = s.breaker i :=
          breaker_apply_of_ne _ apart
        refine .rests breaker ?_ clock.ge
        cases draws_of_move move with
        | admits here allowed write next silent child =>
            simpa [mine, silent] using moved (by simp [child])
        | rejects here refused write next silent child =>
            simpa [mine, silent] using moved (by simp [child])
        | records here write next silent child =>
            simpa [mine, silent] using moved (by simp [child])
        | passes write same child =>
            have moved := moved child
            have same := same i
            omega
  | @tick d bounded => exact .rests rfl rfl (Nat.le_add_right _ _)
  | @purgeStart p j pattern unused => exact .rests rfl (by simp [load, starts]) le_rfl
  | @purgeReturn p g running last => exact .rests rfl (by simp [load, starts]) le_rfl
  | _ => exact .rests rfl rfl le_rfl

/-! ## The ration -/

/-- How long an open breaker stays open, in nanoseconds. -/
def BreakerLimits.window (limits : BreakerLimits) : ℤ := limits.openMs * 1000000

/-- How many probes are let through at a time. -/
def BreakerLimits.probes (limits : BreakerLimits) : ℤ := max 1 limits.halfOpenMaxProbes

/-- **What an open breaker has let through** since a time, in rounds that are a window apart. -/
inductive Rationed (D : Deployment ι) (i : ι) (before : ℕ) (time : ℤ) (s : State ι) : Prop
  | opened {rounds : ℕ} (state : (s.breaker i).state = .opened)
      (total : (load i s : ℤ) ≤ before + rounds * D.limits.probes)
      (since : time + rounds * D.limits.window ≤ (s.breaker i).openedAt)
      (past : (s.breaker i).openedAt ≤ s.clock)
  | halfOpen {rounds : ℕ} (state : (s.breaker i).state = .halfOpen)
      (total : (load i s : ℤ) ≤
        before + rounds * D.limits.probes + (s.breaker i).halfOpenProbes)
      (few : (s.breaker i).halfOpenProbes ≤ D.limits.probes)
      (since : time + (rounds + 1) * D.limits.window ≤ s.clock)

/-- **Every step keeps to the ration.** -/
theorem rationed_step {before : ℕ} {time : ℤ} {a : Action ι} (taken : D.step s a = some s')
    (dead : NoSuccess i s a) (few : Few s.threads)
    (rationed : Rationed D i before time s) : Rationed D i before time s' := by
  have one : 1 ≤ D.limits.probes := le_max_left _ _
  cases feeds_of_step taken dead few with
  | @admits b allowed breaker more clock =>
      unfold CircuitBreaker.allowRequest at allowed
      cases rationed with
      | @opened rounds state total since past =>
          simp only [state] at allowed
          split at allowed
          · rename_i elapsed
            obtain ⟨-, rfl⟩ := Prod.mk.inj allowed
            -- The window has gone by, and a new round begins.
            have gone : D.limits.window ≤ s.clock - (s.breaker i).openedAt := by
              rw [Int.tdiv_eq_ediv_of_nonneg (sub_nonneg.mpr past)] at elapsed
              rw [BreakerLimits.window]
              omega
            have total' : (load i s' : ℤ) ≤
                before + rounds * D.limits.probes + (s'.breaker i).halfOpenProbes := by
              rw [more, breaker]
              push_cast
              linarith
            have since' : time + (rounds + 1) * D.limits.window ≤ s'.clock := by
              rw [clock, add_mul, one_mul]
              linarith
            exact .halfOpen (by rw [breaker]) total' (by rw [breaker]; exact one) since'
          · cases allowed
      | @halfOpen rounds state total fewer since =>
          simp only [state] at allowed
          split at allowed
          · rename_i below
            obtain ⟨-, rfl⟩ := Prod.mk.inj allowed
            have most : D.limits.halfOpenMaxProbes ≤ D.limits.probes := le_max_right _ _
            have total' : (load i s' : ℤ) ≤
                before + rounds * D.limits.probes + (s'.breaker i).halfOpenProbes := by
              rw [more, breaker]
              push_cast
              linarith
            have few' : (s'.breaker i).halfOpenProbes ≤ D.limits.probes := by
              rw [breaker]
              show (s.breaker i).halfOpenProbes + 1 ≤ _
              linarith
            exact .halfOpen (by rw [breaker]) total' few' (clock ▸ since)
          · cases allowed
  | fails breaker same clock =>
      cases rationed with
      | @opened rounds state total since past =>
          have still : s'.breaker i =
              { s.breaker i with consecutiveFailures := (s.breaker i).consecutiveFailures + 1 } := by
            rw [breaker]
            simp [CircuitBreaker.recordFailure, state]
          have total' : (load i s' : ℤ) ≤ before + rounds * D.limits.probes := same ▸ total
          exact .opened (by rw [still]; exact state) total' (by rw [still]; exact since)
            (by rw [still, clock]; exact past)
      | @halfOpen rounds state total fewer since =>
          have again : s'.breaker i = (s.breaker i).transitionToOpen s.clock := by
            rw [breaker]
            simp [CircuitBreaker.recordFailure, state]
          -- The probes of this round are all counted in the next one.
          have total' : (load i s' : ℤ) ≤ before + ((rounds + 1 : ℕ) : ℤ) * D.limits.probes := by
            rw [same]
            push_cast
            linarith
          have since' : time + ((rounds + 1 : ℕ) : ℤ) * D.limits.window ≤
              (s'.breaker i).openedAt := by
            rw [again]
            push_cast
            exact since
          exact .opened (by rw [again]; rfl) total' since' (by rw [again, clock]; exact le_rfl)
  | rests breaker same clock =>
      have later : (s.clock : ℤ) ≤ s'.clock := by exact_mod_cast clock
      cases rationed with
      | opened state total since past =>
          exact .opened (breaker ▸ state) (same ▸ total) (breaker ▸ since)
            (breaker ▸ past.trans later)
      | halfOpen state total fewer since =>
          exact .halfOpen (breaker ▸ state) (breaker ▸ same ▸ total) (breaker ▸ fewer)
            (since.trans later)

/-- The ration, by the time that has passed. -/
theorem Rationed.load_le {before : ℕ} {time : ℤ} (positive : 0 < D.limits.openMs)
    (rationed : Rationed D i before time s) :
    (load i s : ℤ) ≤ before + D.limits.probes * ((s.clock - time) / D.limits.window) := by
  have one : 1 ≤ D.limits.probes := le_max_left _ _
  have long : 0 < D.limits.window := by
    rw [BreakerLimits.window]
    omega
  cases rationed with
  | @opened rounds state total since past =>
      have gone : (rounds : ℤ) ≤ (s.clock - time) / D.limits.window :=
        (Int.le_ediv_iff_mul_le long).mpr (by linarith)
      nlinarith
  | @halfOpen rounds state total fewer since =>
      have gone : (rounds : ℤ) + 1 ≤ (s.clock - time) / D.limits.window :=
        (Int.le_ediv_iff_mul_le long).mpr (by linarith)
      nlinarith

theorem Guarded.past_of_step {limits : BreakerLimits} {g g' : Guarded} {a : GuardedAction}
    (taken : g.step limits a = some g')
    (past : g.breaker.state = .opened → g.breaker.openedAt ≤ g.clock) :
    g'.breaker.state = .opened → g'.breaker.openedAt ≤ g'.clock := by
  cases Guarded.turn_of_step taken with
  | tick d =>
      intro opened
      have past := past opened
      push_cast
      linarith
  | trip | reopen => exact fun _ => le_rfl
  | late fetching opened => exact fun _ => past opened
  | success => simp [CircuitBreaker.state_recordSuccess]
  | probe => simp
  | _ => exact past

/-- An open breaker was opened in the past. -/
theorem openedAt_le_of_steps {guard : State ι → Action ι → Prop} {clock : ℕ}
    (steps : Steps D.step guard (D.initial clock) s)
    (opened : (s.breaker i).state = .opened) : (s.breaker i).openedAt ≤ s.clock := by
  obtain ⟨g, reached, mirrored⟩ := guarded_of_steps steps i
  have past : g.breaker.state = .opened → g.breaker.openedAt ≤ g.clock := by
    refine reached.invariant (fun _ _ _ _ taken past => Guarded.past_of_step taken past) ?_
    simp [Guarded.initial, CircuitBreaker.initial]
  rw [mirrored.breaker, mirrored.clock] at past
  exact past opened

/-- **The origin gets one round of probes for every window** from a replica whose breaker is open,
as long as no fetch of the replica succeeds, beside what was admitted before. -/
theorem load_le_of_run {clock : ℕ} {front back : List (Action ι)} (positive : 0 < D.limits.openMs)
    (ran : run D.step (D.initial clock) front = some s) (opened : (s.breaker i).state = .opened)
    (goes : run D.step s back = some s') (dead : Meets D.step (NoSuccess i) s back) :
    (load i s' : ℤ) ≤ load i s + D.limits.probes *
      ((s'.clock - (s.breaker i).openedAt) / D.limits.window) := by
  have reached : Steps D.step (fun _ _ => True) (D.initial clock) s :=
    Steps.of_run (meets_true _ _ _) ran
  have nothing : (load i s : ℤ) ≤ load i s + ((0 : ℕ) : ℤ) * D.limits.probes := by simp
  have start : Rationed D i (load i s) (s.breaker i).openedAt s :=
    .opened opened nothing (by simp) (openedAt_le_of_steps reached opened)
  have few : ∀ u, Steps D.step (NoSuccess i) s u → Few u.threads := fun _ steps =>
    few_of_steps (reached.trans (steps.mono fun _ _ _ => trivial))
  have kept : Rationed D i (load i s) (s.breaker i).openedAt s' :=
    ((Steps.of_run dead goes).knowing few).invariant
      (fun _ _ _ known taken rationed => rationed_step taken known.1 known.2 rationed) start
  exact kept.load_le positive

/-- One replica, with a breaker that opens at the first failure. -/
def strictDeployment : Deployment Unit := { soloDeployment with limits := Guarded.strictLimits }

/-- A fetch fails. -/
def failedOnce : List (Action Unit) := .start 0 () (getRequest (bytes "/a")) :: steps 9 0 failInput

/-- One request is rejected, and behind the window another one is a probe. -/
def probedOnce : List (Action Unit) :=
  .start 1 () (getRequest (bytes "/a")) :: steps 6 1 failInput ++
    .tick (10000 * 1000000) :: .start 2 () (getRequest (bytes "/a")) :: steps 7 2 failInput

/-- Whether no success is recorded. -/
def noSuccess (s : State Unit) : Action Unit → Bool
  | .step t _ => (s.threads t).all fun th =>
      match th.pc with
      | .record _ result => !result.ok
      | _ => true
  | _ => true

theorem noSuccess_sound (s : State Unit) (a : Action Unit) (passed : noSuccess s a = true) :
    NoSuccess () s a := by
  cases a with
  | step t input =>
      intro th lead result running _ here
      simpa [noSuccess, running, here] using passed
  | _ => trivial

/-- The origin gets one probe in a little more than one window. -/
theorem load_le_probedOnce :
    ∃ s s', run strictDeployment.step (strictDeployment.initial 0) failedOnce = some s ∧
      run strictDeployment.step s probedOnce = some s' ∧
      (load () s' : ℤ) ≤ load () s + strictDeployment.limits.probes *
        ((s'.clock - (s.breaker ()).openedAt) / strictDeployment.limits.window) := by
  obtain ⟨s, ran, passed⟩ := exists_of_run (show (run strictDeployment.step
    (strictDeployment.initial 0) failedOnce).any (fun s => (s.breaker ()).state = .opened &&
      (passes strictDeployment.step noSuccess s probedOnce &&
        (run strictDeployment.step s probedOnce).isSome)) = true by decide +kernel)
  simp only [Bool.and_eq_true, decide_eq_true_eq] at passed
  obtain ⟨opened, dead, goes⟩ := passed
  obtain ⟨s', goes⟩ := Option.isSome_iff_exists.mp goes
  exact ⟨s, s', ran, goes, load_le_of_run (by decide) ran opened goes
    (meets_of_passes noSuccess_sound dead)⟩

end EdgeCache

import EdgeCache.Census
import EdgeCache.Discipline
import EdgeCache.Threads

/-!
# Every call is answered

A waiter sleeps until somebody else fills its slot, and background revalidations fill slots that
requests wait on.  Nevertheless no call is ever stuck: whoever holds a slot never waits itself, so
a waiter waits for one thread, and that thread is a few steps from filling the slot.

* `Sane.exists_led`, `exists_advance` — whoever waits, waits for a leader, and a leader can move.
* `completes_of_run` — **from any state a call gets to its end** by at most 26 steps of its own
  thread and one other, whatever the rest of the fleet does or does not do.
* `answers_of_run` — **a call is answered once**, when its thread is done, and all threads together
  take at most 13 steps for each call.
-/

namespace EdgeCache

variable {ι : Type} [DecidableEq ι] {D : Deployment ι} {guard : State ι → Action ι → Prop}
  {s s' : State ι} {t u n : ℕ} {th : Thread ι} {input : Input} {o : Outcome ι}

open Transition

/-! ## How far a thread has to go -/

/-- A bound on the steps a thread still takes, the revalidation it may start included. -/
def Pc.rank : Pc → ℕ
  | .lookup => 13
  | .get _ => 12
  | .trigger _ | .acquire _ _ => 11
  | .l2Get _ => 10
  | .allowRequest _ => 9
  | .fetch _ => 8
  | .fetching _ => 7
  | .record _ _ => 6
  | .storeTiers _ _ => 5
  | .put _ _ _ => 4
  | .promote _ _ | .l2Put _ _ _ | .wait _ => 3
  | .publish _ _ _ _ | .maybeStore _ _ _ => 2
  | .fill _ _ _ _ _ | .waiterPut _ _ _ => 1
  | .done => 0

/-- How far a thread has to go. -/
def remaining (_ : ℕ) (th : Thread ι) : ℕ := th.pc.rank

omit [DecidableEq ι] in
theorem rank_afterPut (lead : Lead) (resp : HttpResponse) (entry : CacheEntry) :
    (D.afterPut th lead resp entry).rank ≤ 3 := by
  unfold Deployment.afterPut
  split <;> simp [Pc.rank]

omit [DecidableEq ι] in
/-- **A move brings the thread nearer to its end**, by more than the thread it starts has to go. -/
theorem rank_of_move (move : Move D s t th input o) :
    o.pc.rank + childWeight remaining th o.child < th.pc.rank := by
  cases move with
  | lead here absent =>
      rw [here]
      by_cases l2 : D.l2Enabled = true <;> simp [l2, Pc.rank, childWeight]
  | put here =>
      rw [here]
      simp only [childWeight, add_zero]
      exact lt_of_le_of_lt (rank_afterPut ..) (by simp [Pc.rank])
  | passFailure failed => cases failed <;> simp_all [Pc.rank, childWeight]
  | leadFailure role failed => cases failed <;> simp_all [Pc.rank, childWeight]
  | _ => simp_all [Pc.rank, childWeight, remaining]

omit [DecidableEq ι] in
theorem rank_entryPoint (req : HttpRequest) : (Deployment.entryPoint req).rank ≤ 13 := by
  unfold Deployment.entryPoint
  split <;> simp [Pc.rank]

/-! ## Who can move -/

/-- A thread waits for a slot that is not ready. -/
def State.Waits (s : State ι) (pc : Pc) (n : ℕ) : Prop := pc = .wait n ∧ (s.slots n).ready = false

omit [DecidableEq ι] in
/-- **A thread can move** unless it is done or waits, given a name for the thread it may start. -/
theorem exists_advance (unused : s.threads input.child = none) (busy : th.pc ≠ .done)
    (awake : ∀ n, ¬ s.Waits th.pc n) : ∃ o, D.advance s t th input = some o := by
  rw [← Option.isSome_iff_exists]
  unfold Deployment.advance
  cases here : th.pc with
  | done => exact absurd here busy
  | wait n =>
      have ready : (s.slots n).ready = true := by
        by_contra unready
        exact awake n ⟨here, Bool.eq_false_iff.mpr unready⟩
      simp [ready]
  | trigger resp =>
      cases found : s.inflight th.replica (D.key th.req) <;> simp [found, unused]
  | acquire now cached => cases found : s.inflight th.replica (D.key th.req) <;> simp [found]
  | l2Get lead => simp only; split <;> rfl
  | record lead result =>
      simp only
      split
      · cases lead <;> rfl
      · rfl
  | storeTiers lead resp => simp only; split <;> rfl
  | publish lead hit resp success =>
      cases found : s.inflight th.replica (D.key th.req) <;> simp [found]
  | maybeStore n resp success => simp only; split <;> rfl
  | _ => rfl

/-! ## Whom a waiter waits for -/

omit [DecidableEq ι] in
/-- Whoever makes a slot says so. -/
theorem led_of_enter (move : Move D s t th input o) (write : o.write = .enter) :
    ∃ leader, .led leader th.replica (D.key th.req) s.nextSlot ∈ o.events := by
  cases move with
  | triggerLead here absent unused => exact ⟨input.child, by simp⟩
  | lead here absent => exact ⟨t, by simp⟩
  | _ => cases write

/-- A slot that belongs to a key has been made by a leader. -/
def Led (s : State ι) : Prop := ∀ n i k, s.owner n = some (i, k) → ∃ t, .led t i k n ∈ s.trace

theorem led_step {a : Action ι} (taken : D.step s a = some s') (before : Led s) : Led s' := by
  cases turn_of_step taken with
  | @thread t input th o running move =>
      intro m i k owned
      rw [commit_trace]
      have old (earlier : s.owner m = some (i, k)) : ∃ u, .led u i k m ∈ o.events ++ s.trace :=
        (before m i k earlier).imp fun u mem => List.mem_append_right _ mem
      rw [commit_owner] at owned
      cases write : o.write with
      | enter =>
          rw [write, State.apply] at owned
          rcases update_eq_some owned with ⟨rfl, same⟩ | ⟨-, earlier⟩
          · cases same
            exact (led_of_enter move write).imp fun u mem => List.mem_append_left _ mem
          · exact old earlier
      | _ => rw [write] at owned; exact old owned
  | start unused =>
      exact fun n i k owned => (before n i k owned).imp fun u mem => List.mem_cons_of_mem _ mem
  | purgeStart unused =>
      exact fun n i k owned => (before n i k owned).imp fun u mem => List.mem_cons_of_mem _ mem
  | purgeReturn running last =>
      exact fun n i k owned => (before n i k owned).imp fun u mem => List.mem_cons_of_mem _ mem
  | _ => exact before

theorem led_of_steps {clock : ℕ} (run : Steps D.step guard (D.initial clock) s) : Led s :=
  run.invariant (fun _ _ _ _ taken => led_step taken) fun n i k owned => by cases owned

/-- What a waiter needs to know of a state that has been reached. -/
structure Sane (D : Deployment ι) (s : State ι) : Prop where
  few : Few s.threads
  registry : Registry D s
  led : Led s

theorem sane_of_steps {clock : ℕ} (run : Steps D.step guard (D.initial clock) s) : Sane D s :=
  ⟨few_of_steps run, registry_of_steps run, led_of_steps run⟩

theorem Sane.step {a : Action ι} (sane : Sane D s) (taken : D.step s a = some s') : Sane D s' :=
  ⟨few_step taken sane.few, registry_step taken sane.registry, led_step taken sane.led⟩

omit [DecidableEq ι] in
/-- **Whoever waits, waits for a leader.** -/
theorem Sane.exists_led (sane : Sane D s) (running : s.threads t = some th)
    (waits : th.pc = .wait n) : ∃ u, .led u th.replica (D.key th.req) n ∈ s.trace :=
  sane.led n _ _ (sane.registry.owner t th n running (Or.inr (by rw [waits]; rfl)))

omit [DecidableEq ι] in
/-- Whoever holds a slot does not wait. -/
theorem awake_of_holding {pc : Pc} (holds : pc.holding = some n) :
    pc ≠ .done ∧ (∀ m, ¬ s.Waits pc m) ∧ pc.rank ≤ 10 := by
  cases pc <;> simp_all [Pc.holding, Pc.leading, Pc.rank, State.Waits]

/-! ## A call gets to its end -/

section Finish

-- What the origin and Redis may answer, given all that has happened so far.
variable {allowed : State ι → Input → Prop}

/-- The thread `t` takes a step, with one of these answers. -/
def StepOf (allowed : State ι → Input → Prop) (t : ℕ) (s : State ι) (a : Action ι) : Prop :=
  ∃ input, allowed s input ∧ a = .step t input

/-- How far the thread `t` has to go. -/
def State.rankOf (s : State ι) (t : ℕ) : ℕ := (s.threads t).elim 0 fun th => th.pc.rank

/-- **A thread that can move does**, whatever is answered, and gets nearer to its end. -/
theorem exists_step (answers : ∀ s child, ∃ input, allowed s input ∧ input.child = child)
    (sane : Sane D s) (running : s.threads t = some th) (busy : th.pc ≠ .done)
    (awake : ∀ n, ¬ s.Waits th.pc n) :
    ∃ a s' pc, StepOf allowed t s a ∧ D.step s a = some s' ∧ Sane D s' ∧
      s'.threads t = some { th with pc := pc } ∧ s'.rankOf t < s.rankOf t := by
  obtain ⟨child, unused⟩ := sane.few.exists_unused
  obtain ⟨input, may, rfl⟩ := answers s child
  obtain ⟨o, advanced⟩ := exists_advance unused busy awake
  have taken := step_of_advance running advanced
  have move := move_of_advance advanced
  have moved : (s.commit (D.key th.req) t th o).threads t = some { th with pc := o.pc } :=
    threads_commit_self move running
  refine ⟨_, _, o.pc, ⟨input, may, rfl⟩, taken, sane.step taken, moved, ?_⟩
  have nearer := rank_of_move move
  rw [State.rankOf, State.rankOf, moved, running]
  exact lt_of_le_of_lt (Nat.le_add_right _ _) nearer

/-- A thread moves until it is done or waits. -/
theorem exists_rest (answers : ∀ s child, ∃ input, allowed s input ∧ input.child = child)
    (sane : Sane D s) (running : s.threads t = some th) :
    ∃ acts s' pc, Meets D.step (StepOf allowed t) s acts ∧ acts.length ≤ s.rankOf t ∧
      run D.step s acts = some s' ∧ Sane D s' ∧ s'.threads t = some { th with pc := pc } ∧
      (pc = .done ∨ ∃ n, s'.Waits pc n) := by
  obtain ⟨acts, s', meets, short, ran, ⟨sane', pc, running'⟩, final⟩ :=
    exists_run_of_progress (fun r => r.rankOf t)
      (fun r => Sane D r ∧ ∃ pc, r.threads t = some { th with pc := pc })
      (fun r => ∀ pc, r.threads t = some { th with pc := pc } → pc = .done ∨ ∃ n, r.Waits pc n)
      (StepOf allowed t) (by
        rintro r ⟨sane, pc, running⟩ unfinished
        simp only [not_forall, not_or, not_exists] at unfinished
        obtain ⟨pc, running, busy, awake⟩ := unfinished
        obtain ⟨a, r', pc', good, taken, sane', running', less⟩ :=
          exists_step answers sane running busy awake
        exact ⟨a, r', good, taken, ⟨sane', pc', running'⟩, less⟩)
      ⟨sane, th.pc, running⟩
  exact ⟨acts, s', pc, meets, short, ran, sane', running', final pc running'⟩

/-- **The leader a waiter waits for** fills the slot, and the waiter is where it was. -/
theorem exists_ready (answers : ∀ s child, ∃ input, allowed s input ∧ input.child = child)
    (sane : Sane D s) (running : s.threads t = some th) (waits : th.pc = .wait n) {i : ι}
    {k : ByteString} (led : .led u i k n ∈ s.trace) :
    ∃ acts s', Meets D.step (StepOf allowed u) s acts ∧ acts.length ≤ 10 ∧
      run D.step s acts = some s' ∧ Sane D s' ∧ s'.threads t = some th ∧
      (s'.slots n).ready = true := by
  by_cases ready : (s.slots n).ready = true
  · exact ⟨[], s, trivial, Nat.zero_le _, rfl, sane, running, ready⟩
  have near : s.rankOf u ≤ 10 := by
    obtain ⟨uh, leads, holds⟩ := sane.registry.finished u i k n led
    rw [State.rankOf, leads]
    exact (awake_of_holding (s := s) (holds.resolve_right ready)).2.2
  obtain ⟨acts, s', meets, short, ran, ⟨sane', running', -⟩, final⟩ :=
    exists_run_of_progress (fun r => r.rankOf u)
      (fun r => Sane D r ∧ r.threads t = some th ∧ .led u i k n ∈ r.trace)
      (fun r => (r.slots n).ready = true) (StepOf allowed u) (by
        rintro r ⟨sane, running, led⟩ unready
        obtain ⟨uh, leads, holds⟩ := sane.registry.finished u i k n led
        have holds := holds.resolve_right unready
        obtain ⟨busy, awake, -⟩ := awake_of_holding (s := r) holds
        obtain ⟨a, r', -, good, taken, sane', -, less⟩ :=
          exists_step answers sane leads busy awake
        refine ⟨a, r', good, taken, ⟨sane', ?_, (persists_step taken).1.subset led⟩, less⟩
        -- The waiter holds no slot, so it is another thread.
        rcases own_or_other taken running with ⟨input, o, mine, -⟩ | ⟨still, -⟩
        · obtain ⟨input', -, same⟩ := good
          rw [same] at mine
          cases mine
          rw [running, Option.some.injEq] at leads
          rw [← leads, waits] at holds
          cases holds
        · exact still)
      ⟨sane, running, led⟩
  exact ⟨acts, s', meets, short.trans near, ran, sane', running', final⟩

/-- **A waiter whose slot is ready** gets to its end. -/
theorem exists_done (answers : ∀ s child, ∃ input, allowed s input ∧ input.child = child)
    (sane : Sane D s) (running : s.threads t = some th) (waits : th.pc = .wait n)
    (ready : (s.slots n).ready = true) :
    ∃ acts s', Meets D.step (StepOf allowed t) s acts ∧ acts.length ≤ 3 ∧
      run D.step s acts = some s' ∧ s'.threads t = some { th with pc := .done } := by
  have near : s.rankOf t = 3 := by
    rw [State.rankOf, running]
    exact congrArg Pc.rank waits
  obtain ⟨acts, s', meets, short, ran, ⟨-, pc, running', -⟩, final⟩ :=
    exists_run_of_progress (fun r => r.rankOf t)
      (fun r => Sane D r ∧ ∃ pc, r.threads t = some { th with pc := pc } ∧
        ((pc = .wait n ∧ (r.slots n).ready = true) ∨ pc.rank ≤ 2))
      (fun r => r.threads t = some { th with pc := .done }) (StepOf allowed t) (by
        rintro r ⟨sane, pc, running, woken⟩ unfinished
        have busy : pc ≠ .done := fun done => unfinished (done ▸ running)
        have awake : ∀ m, ¬ r.Waits pc m := by
          rintro m ⟨rfl, unready⟩
          rcases woken with ⟨same, ready⟩ | late
          · cases same
            rw [unready] at ready
            cases ready
          · exact absurd late (show ¬ 3 ≤ 2 by decide)
        obtain ⟨a, r', pc', good, taken, sane', running', less⟩ :=
          exists_step answers sane running busy awake
        refine ⟨a, r', good, taken, ⟨sane', pc', running', Or.inr ?_⟩, less⟩
        rw [State.rankOf, State.rankOf, running, running'] at less
        simp only [Option.elim_some] at less
        rcases woken with ⟨rfl, -⟩ | late
        · exact Nat.le_of_lt_succ less
        · omega)
      ⟨sane, th.pc, running, Or.inl ⟨waits, ready⟩⟩
  exact ⟨acts, s', meets, near ▸ short, ran, final⟩

/-- **From any state a call gets to its end**, whatever the origin and Redis answer: its own thread
and one other are enough, and take at most 26 steps. -/
theorem completes_of_run (D : Deployment ι) {clock : ℕ} {acts : List (Action ι)}
    (ran : run D.step (D.initial clock) acts = some s) (running : s.threads t = some th)
    (answers : ∀ s child, ∃ input, allowed s input ∧ input.child = child) :
    ∃ u help s', Meets D.step (fun r a => StepOf allowed t r a ∨ StepOf allowed u r a) s help ∧
      help.length ≤ 26 ∧ run D.step s help = some s' ∧
      s'.threads t = some { th with pc := .done } := by
  have sane := sane_of_steps (.of_run (meets_true _ _ _) ran)
  have near : s.rankOf t ≤ 13 := by
    rw [State.rankOf, running]
    cases here : th.pc <;> simp [here, Pc.rank]
  obtain ⟨own, s₁, pc, meets, short, ran₁, sane₁, running₁, rests⟩ :=
    exists_rest answers sane running
  rcases rests with rfl | ⟨n, waits, -⟩
  · exact ⟨t, own, s₁, meets.mono fun _ _ => Or.inl, by omega, ran₁, running₁⟩
  · obtain ⟨u, led⟩ := sane₁.exists_led running₁ waits
    obtain ⟨its, s₂, meets₂, short₂, ran₂, sane₂, running₂, ready⟩ :=
      exists_ready answers sane₁ running₁ waits led
    obtain ⟨last, s₃, meets₃, short₃, ran₃, done⟩ := exists_done answers sane₂ running₂ waits ready
    have later := (meets₂.mono fun _ _ => Or.inr).append ran₂ (meets₃.mono fun _ _ => Or.inl)
    refine ⟨u, own ++ (its ++ last), s₃, (meets.mono fun _ _ => Or.inl).append ran₁ later, ?_, ?_,
      done⟩
    · simp only [List.length_append]
      omega
    · simp only [run_append, ran₁, ran₂, ran₃, Option.bind_some]

end Finish

/-- A miss, and a second request that waits for it. -/
def joinedRun : List (Action Unit) :=
  [.start 0 () (getRequest (bytes "/a")), .start 1 () (getRequest (bytes "/a"))] ++
    steps 3 0 failInput ++ steps 3 1 failInput

/-- The origin cannot be reached. -/
def OriginDown (_ : State Unit) (input : Input) : Prop := input.result.ok = false

/-- The second request gets to its end although the origin is down. -/
theorem completes_joinedRun :
    ∃ s th u help s', run soloDeployment.step (soloDeployment.initial 0) joinedRun = some s ∧
      s.threads 1 = some th ∧ th.pc = .wait 0 ∧
      Meets soloDeployment.step
        (fun r a => StepOf OriginDown 1 r a ∨ StepOf OriginDown u r a) s help ∧
      help.length ≤ 26 ∧ run soloDeployment.step s help = some s' ∧
      s'.threads 1 = some { th with pc := .done } := by
  obtain ⟨s, ran, waits⟩ := exists_of_run
    (show (run soloDeployment.step (soloDeployment.initial 0) joinedRun).any
      (fun s => (s.threads 1).any fun th => th.pc = .wait 0) = true by decide +kernel)
  obtain ⟨th, running, here⟩ := (Option.any_eq_true _ _).mp waits
  have answers : ∀ r child, ∃ input, OriginDown r input ∧ input.child = child :=
    fun _ child => ⟨{ failInput with child := child }, rfl, rfl⟩
  obtain ⟨u, help, s', meets, short, ran', done⟩ :=
    completes_of_run soloDeployment ran running answers
  exact ⟨s, th, u, help, s', ran, running, of_decide_eq_true here, meets, short, ran', done⟩

/-! ## A call is answered once -/

/-- Whether a leader has somebody to answer. -/
def Lead.owes : Lead → ℕ
  | .revalidate _ => 0
  | _ => 1

/-- Whether the thread has yet to answer. -/
def Pc.owes : Pc → ℕ
  | .done => 0
  | pc => pc.lead?.elim 1 Lead.owes

theorem owes_eq_zero_iff {pc : Pc} :
    pc.owes = 0 ↔ pc = .done ∨ ∃ n, pc.lead? = some (.revalidate n) := by
  have role : ∀ lead : Lead, lead.owes = 0 ↔ ∃ n, lead = .revalidate n := by
    intro lead
    cases lead <;> simp [Lead.owes]
  cases pc <;> simp [Pc.owes, Pc.lead?, role]

/-- The calls that begin in a thread. -/
def begins (t : ℕ) : Event ι → ℕ
  | .began u _ _ => if u = t then 1 else 0
  | _ => 0

/-- The answers a thread gives. -/
def answersOf (t : ℕ) : Event ι → ℕ
  | .answered u _ _ _ _ => if u = t then 1 else 0
  | _ => 0

/-- Whether a given thread has yet to answer. -/
def owing (t u : ℕ) (th : Thread ι) : ℕ := if u = t then th.pc.owes else 0

omit [DecidableEq ι] in
theorem tally_answersOf_conclude (lead : Lead) (hit : Option ℤ) (resp : HttpResponse) :
    tally (answersOf u) (conclude t th lead hit resp) =
      if t = u then lead.owes else 0 := by
  cases lead <;> simp [conclude, answersOf, Lead.owes]

omit [DecidableEq ι] in
theorem tally_begins_conclude (lead : Lead) (hit : Option ℤ) (resp : HttpResponse) :
    tally (begins u) (conclude t th lead hit resp) = 0 := by
  cases lead <;> simp [conclude, begins]

omit [DecidableEq ι] in
theorem owes_afterPut (lead : Lead) (resp : HttpResponse) (entry : CacheEntry) :
    (D.afterPut th lead resp entry).owes = lead.owes := by
  unfold Deployment.afterPut
  split <;> rfl

omit [DecidableEq ι] in
/-- **A move answers what its thread owes, or owes it on.** -/
theorem books_of_answers (t : ℕ) :
    Books D (fun _ => True) (begins t) (answersOf t) (owing t) where
  start u i req := by
    have owes : (Deployment.entryPoint req).owes = 1 := by
      unfold Deployment.entryPoint
      split <;> rfl
    simp [begins, answersOf, owing, owes]
  move {s u th input o} _ _ move := by
    cases move with
    | lead here absent =>
        by_cases l2 : D.l2Enabled = true <;>
          simp [here, l2, begins, answersOf, owing, childWeight, Pc.owes, Pc.lead?, Lead.owes]
    | put here =>
        simp only [owing, here, owes_afterPut, childWeight]
        rfl
    | passFailure failed =>
        cases failed <;>
          simp_all [begins, answersOf, owing, childWeight, Pc.owes, Pc.lead?, Lead.owes]
    | leadFailure role failed => cases failed <;> simp_all [owing, childWeight, Pc.owes, Pc.lead?]
    | lost here absent =>
        simp [here, owing, childWeight, tally_answersOf_conclude, tally_begins_conclude, Pc.owes,
          Pc.lead?]
    | fill here =>
        simp [here, owing, childWeight, tally_answersOf_conclude, tally_begins_conclude, Pc.owes,
          Pc.lead?, begins, answersOf]
    | _ => simp_all [begins, answersOf, owing, childWeight, Pc.owes, Pc.lead?, Lead.owes]
  purge p i pattern := ⟨rfl, rfl⟩

omit [DecidableEq ι] in
/-- No move begins a call. -/
theorem tally_begins_of_move (move : Move D s u th input o) : tally (begins t) o.events = 0 := by
  cases move with
  | lost here absent => exact tally_begins_conclude ..
  | fill here => simp [tally_begins_conclude, begins]
  | _ => simp [begins]

/-- **A call begins once in its thread**, and a background revalidation in none. -/
structure BegunOnce (t : ℕ) (s : State ι) : Prop where
  once : tally (begins t) s.trace ≤ 1
  absent : s.threads t = none → tally (begins t) s.trace = 0
  background : ∀ th n, s.threads t = some th → th.pc.lead? = some (.revalidate n) →
    tally (begins t) s.trace = 0

omit [DecidableEq ι] in
/-- A background revalidation goes on as one. -/
theorem revalidate_of_move (move : Move D s t th input o)
    (lead : o.pc.lead? = some (.revalidate n)) :
    th.pc.lead? = some (.revalidate n) := by
  cases move with
  | lead here absent => by_cases l2 : D.l2Enabled = true <;> simp_all [Pc.lead?]
  | put here =>
      unfold Deployment.afterPut at lead
      split at lead <;> simp_all [Pc.lead?]
  | leadFailure role failed => cases failed <;> simp_all [Pc.lead?]
  | _ => simp_all [Pc.lead?]

omit [DecidableEq ι] in
theorem BegunOnce.silent (before : BegunOnce t s) (threads : s'.threads = s.threads)
    (same : tally (begins t) s'.trace = tally (begins t) s.trace) : BegunOnce t s' := by
  refine ⟨same ▸ before.once, fun absent => ?_, fun th n running lead => ?_⟩
  · exact same.trans (before.absent (threads ▸ absent))
  · exact same.trans (before.background th n (threads ▸ running) lead)

theorem begunOnce_step {a : Action ι} (taken : D.step s a = some s') (before : BegunOnce t s) :
    BegunOnce t s' := by
  cases turn_of_step taken with
  | @start u i req unused =>
      by_cases here : u = t
      · subst here
        have none := before.absent unused
        refine ⟨by simp [begins, none], fun absent => ?_, fun th n running lead => ?_⟩
        · cases (Function.update_self ..).symm.trans absent
        · rcases update_eq_some running with ⟨-, rfl⟩ | ⟨apart, -⟩
          · unfold Deployment.entryPoint at lead
            split at lead <;> cases lead
          · exact absurd rfl apart
      · have same : tally (begins t) (.began u i req :: s.trace) = tally (begins t) s.trace := by
          simp [begins, here]
        have apart := Ne.symm here
        refine ⟨same ▸ before.once, fun absent => ?_, fun th n running lead => ?_⟩
        · exact same.trans (before.absent ((Function.update_of_ne apart ..).symm.trans absent))
        · exact same.trans
            (before.background th n ((Function.update_of_ne apart ..).symm.trans running) lead)
  | @thread u input uh o found move =>
      have same : tally (begins t) (s.commit (D.key uh.req) u uh o).trace =
          tally (begins t) s.trace := by
        rw [commit_trace, tally_append, tally_begins_of_move move, zero_add]
      refine ⟨same ▸ before.once, fun absent => ?_, fun th n running lead => ?_⟩
      · rw [same]
        exact before.absent
          (absent_of_steps (.single trivial taken : Steps D.step (fun _ _ => True) s _) absent)
      · rw [same]
        rcases threads_commit running with ⟨rfl, rfl⟩ | ⟨pc, born, rfl⟩ | ⟨-, old⟩
        · exact before.background uh n found (revalidate_of_move move lead)
        · exact before.absent (child_unused move born)
        · exact before.background th n old lead
  | purgeStart unused => exact before.silent rfl (by simp [begins])
  | purgeReturn running last => exact before.silent rfl (by simp [begins])
  | _ => exact before.silent rfl rfl

theorem begunOnce_of_steps {clock : ℕ} (run : Steps D.step guard (D.initial clock) s) (t : ℕ) :
    BegunOnce t s :=
  run.invariant (fun _ _ _ _ taken => begunOnce_step taken)
    ⟨Nat.zero_le _, fun _ => rfl, fun _ _ _ _ => rfl⟩

omit [DecidableEq ι] in
/-- The answers that the threads owe are with one thread. -/
theorem weigh_owing (few : Few s.threads) (t : ℕ) :
    weigh (owing t) s.threads = (s.threads t).elim 0 fun th => th.pc.owes := by
  have change := weigh_update (w := owing t) few t none
  have others : weigh (owing t) (Function.update s.threads t none) = 0 := by
    rw [weigh_eq_zero_iff (few.update t none)]
    intro u th running
    by_cases here : u = t
    · rw [here, Function.update_self] at running
      cases running
    · exact if_neg here
  rw [others] at change
  cases running : s.threads t with
  | none => simpa [running] using change.symm
  | some th => simpa [running, owing] using change.symm

/-! ## The work for a call -/

/-- A step of a thread. -/
def Action.moves : Action ι → ℕ
  | .step _ _ => 1
  | _ => 0

/-- A call. -/
def Action.calls : Action ι → ℕ
  | .start _ _ _ => 1
  | _ => 0

/-- A step of a thread is paid for by the call it works for. -/
theorem moves_paid (s : State ι) (a : Action ι) (s' : State ι) (few : Few s.threads)
    (taken : D.step s a = some s') :
    weigh remaining s'.threads + a.moves ≤ weigh remaining s.threads + 13 * a.calls := by
  cases turn_of_step taken with
  | @start t i req unused =>
      have near := rank_entryPoint req
      simp only [Action.moves, Action.calls, weigh_start remaining few unused, remaining]
      omega
  | @thread t input th o running move =>
      have change := weigh_commit remaining (D.key th.req) few running move
      have nearer := rank_of_move move
      simp only [Action.moves, Action.calls]
      simp only [remaining] at change nearer ⊢
      omega
  | _ => exact le_rfl

/-- **Calls are answered once**: a thread answers at most once, and one that a call began in has
answered exactly when it is done; all threads together take at most 13 steps for each call. -/
theorem answers_of_run (D : Deployment ι) {clock : ℕ} {acts : List (Action ι)}
    (ran : run D.step (D.initial clock) acts = some s) :
    (∀ t, tally (answersOf t) s.trace ≤ 1) ∧
      (∀ t th i req, s.threads t = some th → .began t i req ∈ s.trace →
        (tally (answersOf t) s.trace = 1 ↔ th.pc = .done)) ∧
      (acts.map Action.moves).sum ≤ 13 * (acts.map Action.calls).sum := by
  have steps : Steps D.step (fun _ _ => True) (D.initial clock) s := .of_run (meets_true _ _ _) ran
  have balanced : ∀ t, tally (begins t) s.trace = tally (answersOf t) s.trace +
      (s.threads t).elim 0 fun th => th.pc.owes := by
    intro t
    rw [← weigh_owing (few_of_steps steps) t]
    exact (books_of_answers t).balanced_of_steps (fun _ _ => trivial) steps
  refine ⟨fun t => ?_, fun t th i req running began => ?_, ?_⟩
  · have once := (begunOnce_of_steps steps t).once
    have balance := balanced t
    omega
  · have begun := begunOnce_of_steps steps t
    have one : tally (begins t) s.trace = 1 := by
      refine le_antisymm begun.once ?_
      refine le_trans ?_ (List.le_sum_of_mem (List.mem_map_of_mem began))
      simp [begins]
    have balance := balanced t
    rw [one, running] at balance
    simp only [Option.elim_some] at balance
    constructor
    · intro answered
      refine (owes_eq_zero_iff.mp (by omega)).resolve_right ?_
      rintro ⟨n, lead⟩
      rw [begun.background th n running lead] at one
      cases one
    · intro done
      rw [done] at balance
      exact balance.symm
  · have paid := balance_of_run (fun s => weigh remaining s.threads) (fun s => Few s.threads)
      Action.moves (fun a => 13 * a.calls) (fun _ _ _ few taken => few_step taken few)
      (fun s a s' => moves_paid s a s') few_none ran
    rw [List.sum_map_mul_left] at paid
    simp only [Deployment.initial, weigh_none] at paid
    omega

/-- Two calls, of which the first is answered. -/
theorem answers_coalescedRun :
    ∃ s, run soloDeployment.step (soloDeployment.initial 0) (coalescedRun.take 16) = some s ∧
      (∀ t, tally (answersOf t) s.trace ≤ 1) ∧
      (∀ t th i req, s.threads t = some th → .began t i req ∈ s.trace →
        (tally (answersOf t) s.trace = 1 ↔ th.pc = .done)) ∧
      ((coalescedRun.take 16).map Action.moves).sum ≤
        13 * ((coalescedRun.take 16).map Action.calls).sum := by
  have runs : (run soloDeployment.step (soloDeployment.initial 0)
      (coalescedRun.take 16)).isSome = true := by decide +kernel
  obtain ⟨s, ran⟩ := Option.isSome_iff_exists.mp runs
  exact ⟨s, ran, answers_of_run soloDeployment ran⟩

end EdgeCache

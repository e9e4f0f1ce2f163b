import EdgeCache.Provenance
import EdgeCache.Threads

/-!
# Failures leave the caches as they were

Something is stored at four operations only: a promotion, the two writes of `storeTiers` and the
`cache.put` of `maybeStore`.  A thread whose fetch fails comes to none of them: what is stored after
a fetch is guarded by its success, and from a promotion no thread goes on to a fetch.  What it leaves
in its slot carries `success = false`, on which `maybeStore` is guarded, so the threads that wait for
it store nothing either.

**Main result.**  In every run, no step of a thread whose fetch fails or is rejected, of a thread
that waits for it, or of a thread whose method is not cached changes what L1 and L2 hold, and the
tiers hold nothing that the origin did not deliver (`failures_store_nothing`).
-/

namespace EdgeCache

variable {ι : Type} [DecidableEq ι] {D : Deployment ι} {guard : State ι → Action ι → Prop}
  {start final s s' : State ι} {t u n : ℕ} {th : Thread ι} {input : Input} {o : Outcome ι}
  {lead : Lead}

open Transition

/-! ## The operations that store -/

/-- The operations that put something into a tier. -/
def Pc.stores : Pc → Bool
  | .promote _ _ | .put _ _ _ | .l2Put _ _ _ | .waiterPut _ _ _ => true
  | _ => false

/-- The operations a thread does not leave for a fetch or for the slot of another one: those that
store, and those behind them. -/
def Pc.late : Pc → Bool
  | .publish _ _ _ _ | .fill _ _ _ _ _ | .done => true
  | pc => pc.stores

/-- **Both tiers hold the same**, the order of recency aside. -/
def SameTiers (D : Deployment ι) (s s' : State ι) : Prop :=
  (∀ i k e, (s'.cache i).Holds D.hash k e ↔ (s.cache i).Holds D.hash k e) ∧ s'.l2 = s.l2

omit [DecidableEq ι] in
/-- A move that does not store looks an entry up, or writes to neither tier. -/
theorem write_of_idle (move : Move D s t th input o) (idle : th.pc.stores = false) :
    (∃ cached c, (s.cache th.replica).get D.hash (D.key th.req) = (cached, c) ∧
        o.write = .cache c) ∨
      (∀ c, o.write ≠ .cache c) ∧ ∀ blob, o.write ≠ .l2 blob := by
  cases move with
  | hit here found fresh => exact Or.inl ⟨_, _, found, rfl⟩
  | stale here found aged serveable => exact Or.inl ⟨_, _, found, rfl⟩
  | miss here found useless => exact Or.inl ⟨_, _, found, rfl⟩
  | promote here => rw [here] at idle; cases idle
  | put here => rw [here] at idle; cases idle
  | l2Put here encoded => rw [here] at idle; cases idle
  | waiterPut here => rw [here] at idle; cases idle
  | _ => exact Or.inr ⟨fun c => by simp, fun blob => by simp⟩

/-- **A move that does not store leaves both tiers as they were.** -/
theorem sameTiers_of_move (move : Move D s t th input o) (idle : th.pc.stores = false) :
    SameTiers D s (s.commit (D.key th.req) t th o) := by
  rcases write_of_idle move idle with ⟨cached, c, found, write⟩ | ⟨noPut, noSet⟩
  · refine ⟨fun i k e => ?_, by rw [commit_l2, write]; rfl⟩
    rw [commit_cache, write]
    change (Function.update s.cache th.replica c i).Holds D.hash k e ↔ (s.cache i).Holds D.hash k e
    by_cases here : i = th.replica
    · subst here
      rw [Function.update_self, show c = ((s.cache th.replica).get D.hash (D.key th.req)).2 by
        rw [found]]
      exact ShardedCache.holds_get
    · rw [Function.update_of_ne here]
  · constructor
    · intro i k e
      rw [commit_cache]
      cases write : o.write with
      | cache c => exact absurd write (noPut c)
      | _ => rfl
    · rw [commit_l2]
      cases write : o.write with
      | l2 blob => exact absurd write (noSet blob)
      | _ => rfl

omit [DecidableEq ι] in
/-- No fetch fails where a thread is past its fetch. -/
theorem Failed.not_late {rejected : Bool} {b : CircuitBreaker}
    (failed : Failed D s th lead rejected b) : th.pc.late = false := by
  cases failed with
  | rejected here _ => rw [here]; rfl
  | failed here _ => rw [here]; rfl

omit [DecidableEq ι] in
theorem late_of_move (move : Move D s t th input o) (late : th.pc.late = true) :
    o.pc.late = true := by
  cases move with
  | put here =>
      change (if _ then Pc.l2Put _ _ _ else Pc.publish _ _ _ _).late = true
      split <;> rfl
  | passFailure failed => rw [failed.not_late] at late; cases late
  | leadFailure role failed => rw [failed.not_late] at late; cases late
  | lead here absent => rw [here] at late; cases late
  | _ => simp_all [Pc.late, Pc.stores]

theorem Pc.late_of_stores {pc : Pc} (stores : pc.stores = true) : pc.late = true := by
  cases pc <;> simp_all [Pc.late, Pc.stores]

/-! ## Failed fetches -/

/-- **The fetch of the thread `t` fails in the run**, in the role `lead`, or the breaker rejects
it. -/
def FetchFails (D : Deployment ι) (s₀ : State ι) (acts : List (Action ι)) (t : ℕ) (lead : Lead) :
    Prop :=
  ∃ s input s' th rejected b, Occurs D.step s₀ acts s (.step t input) s' ∧
    s.threads t = some th ∧ Failed D s th lead rejected b

/-- On its way out of a failed fetch. -/
def Pc.failing : Pc → Bool
  | .publish _ _ _ success | .fill _ _ _ _ success => !success
  | .done => true
  | _ => false

omit [DecidableEq ι] in
/-- **Where a failed fetch leads**: a pass-through is done, a leader publishes the failure. -/
theorem pc_of_failed {rejected : Bool} {b : CircuitBreaker}
    (failed : Failed D s th lead rejected b) (move : Move D s t th input o) :
    (lead = .pass ∧ o.pc = .done) ∨ ∃ resp, o.pc = .publish lead none resp false := by
  have same : ∀ {lead' rejected' b'}, Failed D s th lead' rejected' b' → lead' = lead := by
    intro lead' rejected' b' other
    cases failed with
    | rejected here _ => cases other <;> simp_all
    | failed here _ => cases other <;> simp_all
  cases move with
  | passFailure failed' => exact Or.inl ⟨(same failed').symm, rfl⟩
  | leadFailure role failed' => exact Or.inr ⟨_, by rw [same failed']⟩
  | _ => cases failed <;> simp_all

omit [DecidableEq ι] in
theorem failing_of_failed {rejected : Bool} {b : CircuitBreaker}
    (failed : Failed D s th lead rejected b) (move : Move D s t th input o) :
    o.pc.failing = true := by
  rcases pc_of_failed failed move with ⟨-, done⟩ | ⟨resp, publish⟩
  · rw [done]; rfl
  · rw [publish]; rfl

omit [DecidableEq ι] in
theorem failing_of_move (move : Move D s t th input o) (failing : th.pc.failing = true) :
    o.pc.failing = true := by
  cases move with
  | passFailure failed => rfl
  | leadFailure role failed => rfl
  | _ => simp_all [Pc.failing]

theorem Pc.idle_of_failing {pc : Pc} (failing : pc.failing = true) : pc.stores = false := by
  cases pc <;> simp_all [Pc.failing, Pc.stores]

/-- **A thread whose fetch fails stores nothing**, neither before nor after. -/
theorem idle_of_fetchFails {s₀ : State ι} {acts : List (Action ι)}
    (fails : FetchFails D s₀ acts t lead) (occurs : Occurs D.step s₀ acts s (.step t input) s')
    (running : s.threads t = some th) : th.pc.stores = false := by
  obtain ⟨m, input', m', mh, rejected, b, failure, there, failed⟩ := fails
  by_contra stores
  have late := Pc.late_of_stores (Bool.eq_true_of_not_eq_false stores)
  rcases occurs.ordered failure with ⟨rfl, -⟩ | before | after
  · rw [running, Option.some.injEq] at there
    subst there
    rw [failed.not_late] at late
    cases late
  · obtain ⟨front, back, -, -, taken⟩ := occurs
    obtain ⟨pc, stands, still⟩ := stands_of_steps (P := fun pc => pc.late = true)
      (fun _ _ _ _ _ move => late_of_move move) ((Steps.single trivial taken).trans before)
      running late
    rw [there, Option.some.injEq] at stands
    subst stands
    exact absurd (still.symm.trans failed.not_late) (by decide)
  · obtain ⟨front, back, -, -, taken⟩ := failure
    obtain ⟨o, move, rfl⟩ := move_of_step taken there
    have failing : o.pc.failing = true := failing_of_failed failed move
    obtain ⟨pc, stands, still⟩ := stands_of_steps (P := fun pc => pc.failing = true)
      (fun _ _ _ _ _ move => failing_of_move move) after (threads_commit_self move there) failing
    rw [running, Option.some.injEq] at stands
    subst stands
    exact stores (Pc.idle_of_failing still)

/-! ## Slots that hold a failure -/

/-- **The slot `n` holds a failure**, or its leader `u` is about to put one there. -/
def FillsFailure (u : ℕ) (lead : Lead) (n : ℕ) (s : State ι) : Prop :=
  (∃ th resp, s.threads u = some th ∧
      (th.pc = .publish lead none resp false ∨ th.pc = .fill lead n none resp false)) ∨
    ∃ resp, .filled u n resp false ∈ s.trace

omit [DecidableEq ι] in
/-- `publish` takes the slot out of the registry, if it is there. -/
theorem pc_of_publish {m : ℕ} {hit : Option ℤ} {resp : HttpResponse} {success : Bool}
    (here : th.pc = .publish lead hit resp success)
    (found : s.inflight th.replica (D.key th.req) = some m) (move : Move D s t th input o) :
    o.pc = .fill lead m hit resp success := by
  cases move with
  | passFailure failed => exact absurd failed.not_late (by rw [here]; simp [Pc.late])
  | leadFailure role failed => exact absurd failed.not_late (by rw [here]; simp [Pc.late])
  | _ => simp_all

omit [DecidableEq ι] in
/-- And then makes it ready. -/
theorem filled_of_fill {hit : Option ℤ} {resp : HttpResponse} {success : Bool}
    (here : th.pc = .fill lead n hit resp success) (move : Move D s t th input o) :
    .filled t n resp success ∈ o.events := by
  cases move with
  | passFailure failed => exact absurd failed.not_late (by rw [here]; simp [Pc.late])
  | leadFailure role failed => exact absurd failed.not_late (by rw [here]; simp [Pc.late])
  | _ => simp_all

theorem fillsFailure_step {a : Action ι} (slot : lead.slot? = some n) (registry : Registry D s)
    (taken : D.step s a = some s') (before : FillsFailure u lead n s) :
    FillsFailure u lead n s' := by
  rcases before with ⟨uh, resp, running, here⟩ | ⟨resp, filled⟩
  · rcases own_or_other taken running with ⟨input, o, -, move, rfl⟩ | ⟨same, -⟩
    · rcases here with here | here
      · -- The slot in the registry is the leader's own.
        have mine := registry.inflight u uh n running (by rw [here]; exact slot)
        exact Or.inl ⟨_, resp, threads_commit_self move running,
          Or.inr (pc_of_publish here mine move)⟩
      · exact Or.inr ⟨resp, List.mem_append_left _ (filled_of_fill here move)⟩
    · exact Or.inl ⟨uh, resp, same, here⟩
  · exact Or.inr ⟨resp, (persists_step taken).1.subset filled⟩

theorem fillsFailure_of_steps (slot : lead.slot? = some n) (registry : Registry D s)
    (run : Steps D.step guard s s') (before : FillsFailure u lead n s) :
    FillsFailure u lead n s' :=
  run.invariant_of
    (fun _ front => front.invariant (fun _ _ _ _ taken => registry_step taken) registry)
    (fun _ _ _ _ taken known _ => fillsFailure_step slot known taken) before

omit [DecidableEq ι] in
/-- What the waiters of such a slot find is no success. -/
theorem not_success_of_fillsFailure (slot : lead.slot? = some n) (registry : Registry D s)
    (fails : FillsFailure u lead n s) {v : ℕ} {resp : HttpResponse} :
    .filled v n resp true ∉ s.trace := by
  intro filled
  have holds := (registry.filled v n resp true filled).1
  rcases fails with ⟨uh, resp', running, here⟩ | ⟨resp', failed⟩
  · have holding : uh.pc.holding = some n := by
      rcases here with here | here
      · rw [here]; exact slot
      · rw [here]; rfl
    have unready := registry.unready u uh n running holding
    rw [holds] at unready
    cases unready
  · rw [(registry.filled u n resp' false failed).1] at holds
    cases holds

/-- **The slot of a failed fetch never holds a success.** -/
theorem not_success_of_fetchFails {clock : ℕ} {acts : List (Action ι)}
    (ran : run D.step (D.initial clock) acts = some final) (slot : lead.slot? = some n)
    (fails : FetchFails D (D.initial clock) acts u lead) {v : ℕ} {resp : HttpResponse} :
    .filled v n resp true ∉ final.trace := by
  obtain ⟨m, input, m', mh, rejected, b, failure, running, failed⟩ := fails
  have rest := failure.rest ran
  have registry := registry_of_steps failure.reached
  obtain ⟨front, back, -, -, taken⟩ := failure
  have known := registry_step taken registry
  have published : FillsFailure u lead n m' := by
    obtain ⟨o, move, rfl⟩ := move_of_step taken running
    rcases pc_of_failed failed move with ⟨rfl, -⟩ | ⟨resp', publish⟩
    · cases slot
    · exact Or.inl ⟨_, resp', threads_commit_self move running, Or.inl publish⟩
  exact not_success_of_fillsFailure slot
    (rest.invariant (fun _ _ _ _ taken => registry_step taken) known)
    (fillsFailure_of_steps slot known rest published)

/-! ## Threads that wait -/

/-- Whoever acquired a slot of a fetch in flight waits for it, has read it, or is done. -/
def AllJoined (s : State ι) : Prop :=
  ∀ t i k n, .joined t i k n ∈ s.trace →
    ∃ th, s.threads t = some th ∧ (th.pc.joined = some n ∨ th.pc = .done)

omit [DecidableEq ι] in
theorem joined_of_move (move : Move D s t th input o)
    (stands : th.pc.joined = some n ∨ th.pc = .done) : o.pc.joined = some n ∨ o.pc = .done := by
  cases move with
  | passFailure failed => exact Or.inr rfl
  | leadFailure role failed => cases failed <;> simp_all [Pc.joined]
  | _ => simp_all [Pc.joined]

omit [DecidableEq ι] in
/-- Only the `acquire` of `process` acquires the slot of another thread. -/
theorem acquire_of_joined {i : ι} {k : ByteString} (move : Move D s t th input o)
    (mem : .joined u i k n ∈ o.events) :
    u = t ∧ o.pc = .wait n ∧ th.pc.late = false := by
  cases move with
  | join here found =>
      cases List.mem_singleton.mp mem
      exact ⟨rfl, rfl, by rw [here]; rfl⟩
  | @lost lead => cases lead <;> simp [conclude] at mem
  | @fill lead => cases lead <;> simp [conclude] at mem
  | _ => simp at mem

theorem allJoined_step {a : Action ι} (taken : D.step s a = some s') (before : AllJoined s) :
    AllJoined s' := by
  intro t i k n mem
  rcases mem_trace_of_step taken mem with old | ⟨u, input, uh, o, running, move, rfl, new⟩ | other
  · obtain ⟨th, running, stands⟩ := before t i k n old
    rcases own_or_other taken running with ⟨input, o, -, move, rfl⟩ | ⟨same, -⟩
    · exact ⟨_, threads_commit_self move running, joined_of_move move stands⟩
    · exact ⟨th, same, stands⟩
  · obtain ⟨rfl, waits, -⟩ := acquire_of_joined move new
    exact ⟨_, threads_commit_self move running, Or.inl (by rw [waits]; rfl)⟩
  · rcases other with ⟨u, j, req, -, began⟩ | nobody
    · cases began
    · cases nobody

/-- A thread that is past its fetch acquires no slot any more. -/
theorem joined_of_late {i : ι} {k : ByteString} (rest : Steps D.step guard s final)
    (running : s.threads t = some th) (late : th.pc.late = true)
    (mem : .joined t i k n ∈ final.trace) : .joined t i k n ∈ s.trace := by
  by_contra absent
  obtain ⟨r, a, r', front, before, -, taken, after, -⟩ := rest.exists_crossing
    (P := fun r => .joined t i k n ∈ r.trace) absent mem
  obtain ⟨pc, stands, still⟩ := stands_of_steps (P := fun pc => pc.late = true)
    (fun _ _ _ _ _ move => late_of_move move) front running late
  rcases mem_trace_of_step taken after with old | ⟨u, input, uh, o, found, move, -, new⟩ | other
  · exact before old
  · obtain ⟨rfl, -, early⟩ := acquire_of_joined move new
    rw [stands, Option.some.injEq] at found
    subst found
    exact absurd (still.symm.trans early) (by decide)
  · rcases other with ⟨u, j, req, -, began⟩ | nobody
    · cases began
    · cases nobody

/-- **A thread that waits for a fetch that fails stores nothing.** -/
theorem idle_of_waiter {clock : ℕ} {acts : List (Action ι)} {i : ι} {k : ByteString}
    (ran : run D.step (D.initial clock) acts = some final)
    (fails : FetchFails D (D.initial clock) acts u lead) (slot : lead.slot? = some n)
    (joined : .joined t i k n ∈ final.trace)
    (occurs : Occurs D.step (D.initial clock) acts s (.step t input) s')
    (running : s.threads t = some th) : th.pc.stores = false := by
  by_contra stores
  have stores := Bool.eq_true_of_not_eq_false stores
  have front := occurs.reached
  have rest := occurs.rest ran
  obtain ⟨_, _, -, -, taken⟩ := occurs
  have rest := (Steps.single trivial taken).trans rest
  have mem := joined_of_late rest running (Pc.late_of_stores stores) joined
  obtain ⟨uh, found, stands⟩ := front.invariant (fun _ _ _ _ taken => allJoined_step taken)
    (fun t i k n mem => by cases mem) t i k n mem
  rw [running, Option.some.injEq] at found
  subst found
  rcases stands with waits | done
  · have read : ∃ resp, th.pc.read? = some (n, resp, true) := by
      cases here : th.pc <;> simp_all [Pc.stores, Pc.joined, Pc.read?]
    obtain ⟨resp, read⟩ := read
    obtain ⟨v, filled⟩ := (registry_of_steps front).read t th n resp true running read
    exact not_success_of_fetchFails ran slot fails (mem_trace_of_steps rest filled)
  · rw [done] at stores
    cases stores

/-! ## What the tiers hold -/

/-- **The tiers hold what the origin delivered**: under every key, the status and the body of a fetch
for that key that succeeded, in L1 and in L2 as any replica reads it at any time. -/
structure OriginOnly (D : Deployment ι) (s : State ι) : Prop where
  l1 : ∀ i k e, (s.cache i).Holds D.hash k e → Genuine D s.trace k e.status e.body
  l2 : ∀ k blob wallMs now e, s.l2 k = some blob →
    RedisL2Cache.decode blob wallMs now = some e → Genuine D s.trace k e.status e.body

/-- The statements of the successes: what is stored was delivered, and so is what a slot holds as a
success. -/
def successes (D : Deployment ι) (trace : List (Event ι)) : Labels ι where
  Entry _ k e := Genuine D trace k e.status e.body
  Blob k blob := ∀ wallMs now e, RedisL2Cache.decode blob wallMs now = some e →
    Genuine D trace k e.status e.body
  Own _ _ req resp := Genuine D trace (D.key req) resp.status resp.body
  Slot _ _ k resp success := success = true → Genuine D trace k resp.status resp.body
  Answer _ _ _ _ _ := True

omit [DecidableEq ι] in
/-- A leader may publish what was delivered, and as a failure anything. -/
theorem successes_published {trace : List (Event ι)} {hit : Option ℤ} {resp : HttpResponse}
    {success : Bool}
    (delivered : success = true → Genuine D trace (D.key th.req) resp.status resp.body) :
    (successes D trace).Published D t th lead n hit resp success :=
  Labels.published_of_slot delivered fun _ => trivial

/-- **The successes are closed** along every run. -/
theorem successes_closed : (successes D final.trace).Closed D guard start final where
  hit _ _ _ _ := trivial
  stale _ _ := trivial
  decoded _ _ _ _ held got := by
    refine ⟨held _ _ _ got, fun n _ => successes_published fun _ => ?_⟩
    rw [l2Response_status, l2Response_body]
    exact held _ _ _ got
  fetched _ _ event ok := ⟨_, _, _, _, _, event, rfl, ok, rfl, rfl⟩
  pass _ _ := trivial
  passFailure _ _ := trivial
  failure _ _ _ _ := successes_published fun failed => Bool.noConfusion failed
  success _ _ _ own _ _ := successes_published fun _ => by
    rw [fetchedResponse_status, fetchedResponse_body]
    exact own
  entry _ _ own _ _ := own
  encoded _ _ entry put wallMs now e got := by
    obtain ⟨status, body⟩ := contents_of_decode put got
    rw [status, body]
    exact entry
  placeholder _ _ _ _ := fun failed => Bool.noConfusion failed
  coalesced _ _ _ _ := trivial
  waiterEntry _ _ _ slot _ _ := slot rfl

theorem originOnly_of_run {clock : ℕ} {acts : List (Action ι)}
    (ran : run D.step (D.initial clock) acts = some s) : OriginOnly D s := by
  have flow := flow_of_run successes_closed (Steps.of_run (meets_true ..) ran)
  exact
    { l1 := flow.cache
      l2 := fun k blob wallMs now e held got => flow.l2 k blob held wallMs now e got }

/-! ## Failures store nothing -/

/-- **The thread `t` has nothing to store** in the run `acts` from `s₀` to `final`. -/
inductive Bystander (D : Deployment ι) (s₀ : State ι) (acts : List (Action ι)) (final : State ι)
    (t : ℕ) : Prop
  /-- Its own fetch fails or is rejected, for a request or in the background. -/
  | failed {lead : Lead} (fails : FetchFails D s₀ acts t lead)
  /-- It acquires the slot of a fetch that fails or is rejected. -/
  | waiter {u n : ℕ} {lead : Lead} {i : ι} {k : ByteString} (fails : FetchFails D s₀ acts u lead)
      (slot : lead.slot? = some n) (joined : .joined t i k n ∈ final.trace)
  /-- Its method is not cached. -/
  | method {th : Thread ι} (running : final.threads t = some th)
      (other : th.req.isCacheableMethod = false)

omit [DecidableEq ι] in
/-- What stores runs for a cacheable method. -/
theorem Pc.Proper.idle {pc : Pc} {req : HttpRequest} (proper : pc.Proper req)
    (other : req.isCacheableMethod = false) : pc.stores = false := by
  cases pc <;> simp_all [Pc.Proper, Pc.stores]

/-- **Failures leave the tiers as they were**: no step of a thread that has nothing to store is a
store, and each leaves in both tiers what was there.  And the errors the proxy makes up are in
neither: whatever they hold came from a fetch that succeeded. -/
theorem failures_store_nothing (D : Deployment ι) {clock : ℕ} {acts : List (Action ι)}
    (ran : run D.step (D.initial clock) acts = some final) :
    (∀ t, Bystander D (D.initial clock) acts final t → ∀ s input s' th,
      Occurs D.step (D.initial clock) acts s (.step t input) s' → s.threads t = some th →
        th.pc.stores = false ∧ SameTiers D s s') ∧ OriginOnly D final := by
  refine ⟨fun t bystander s input s' th occurs running => ?_, originOnly_of_run ran⟩
  have idle : th.pc.stores = false := by
    cases bystander with
    | failed fails => exact idle_of_fetchFails fails occurs running
    | waiter fails slot joined => exact idle_of_waiter ran fails slot joined occurs running
    | @method uh found other =>
        have rest := occurs.rest ran
        have registry := registry_of_steps occurs.reached
        obtain ⟨_, _, -, -, taken⟩ := occurs
        obtain ⟨pc, persists⟩ :=
          (persists_of_steps ((Steps.single trivial taken).trans rest)).2.2 t th running
        rw [found, Option.some.injEq] at persists
        rw [persists] at other
        exact (registry.proper t th running).idle other
  obtain ⟨_, _, -, -, taken⟩ := occurs
  obtain ⟨o, move, rfl⟩ := move_of_step taken running
  exact ⟨idle, sameTiers_of_move move idle⟩

/-- While the origin is down, a request has fetched a page in vain, and another one waits for it. -/
def awaitedFailure : List (Action Unit) :=
  [.start 0 () (getRequest (bytes "/a"))] ++ steps 6 0 failInput ++
    [.start 1 () (getRequest (bytes "/a"))] ++ steps 3 1 failInput

/-- The failure reaches the one that waits. -/
def failedRun : List (Action Unit) :=
  awaitedFailure ++ .step 0 failInput :: (steps 2 0 failInput ++ steps 2 1 failInput)

/-- Whether the first thread is about to record a failure, as the leader of the first slot. -/
def recordsFailure (s : State Unit) : Bool :=
  (s.threads 0).any fun th =>
    match th.pc with
    | .record (.miss n _ _) result => n = 0 ∧ result.ok = false
    | _ => false

/-- Whether the second thread acquired the first slot. -/
def waitedFor (s : State Unit) : Bool :=
  s.trace.any fun
    | .joined t _ _ n => t = 1 ∧ n = 0
    | _ => false

/-- A request that waits for a failed fetch stores nothing. -/
theorem failures_store_nothing_failedRun :
    ∃ s, run soloDeployment.step (soloDeployment.initial 0) failedRun = some s ∧
      OriginOnly soloDeployment s ∧ ∀ r input r' th,
        Occurs soloDeployment.step (soloDeployment.initial 0) failedRun r (.step 1 input) r' →
        r.threads 1 = some th → th.pc.stores = false ∧ SameTiers soloDeployment r r' := by
  obtain ⟨m, before, records⟩ := exists_of_run
    (show (run soloDeployment.step (soloDeployment.initial 0) awaitedFailure).any
      recordsFailure = true by decide +kernel)
  obtain ⟨s, ran, waited⟩ := exists_of_run
    (show (run soloDeployment.step (soloDeployment.initial 0) failedRun).any waitedFor = true by
      decide +kernel)
  have further := ran
  rw [failedRun, run_append, before, Option.bind_some, run_cons, Option.bind_eq_some_iff] at further
  obtain ⟨m', taken, -⟩ := further
  obtain ⟨th, running, matched⟩ := (Option.any_eq_true _ _).mp records
  have fails : ∃ lead, lead.slot? = some 0 ∧
      FetchFails soloDeployment (soloDeployment.initial 0) failedRun 0 lead := by
    split at matched
    · rename_i n now cached result here
      obtain ⟨rfl, notOk⟩ := of_decide_eq_true matched
      exact ⟨_, rfl, m, failInput, m', th, false, _, ⟨_, _, rfl, before, taken⟩, running,
        .failed here notOk⟩
    · cases matched
  obtain ⟨lead, slot, fails⟩ := fails
  obtain ⟨e, mem, matched⟩ := List.any_eq_true.mp waited
  cases e with
  | joined t i k n =>
      obtain ⟨rfl, rfl⟩ := of_decide_eq_true matched
      obtain ⟨harmless, delivered⟩ := failures_store_nothing soloDeployment ran
      exact ⟨s, ran, delivered, fun r input r' th occurs found =>
        harmless 1 (.waiter fails slot mem) r input r' th occurs found⟩
  | _ => cases matched

end EdgeCache

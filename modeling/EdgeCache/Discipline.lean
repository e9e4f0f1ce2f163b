import EdgeCache.Registry

/-!
# The discipline of coalescing

`Registry` is the invariant the induction needs; `Disciplined` says what it is
for, in the terms of the handler: one leader and one fetch per key, a waiter on
the slot of the leader it found, a slot that becomes ready once with what its own
leader published, and publications that find their own slot.
-/

namespace EdgeCache

variable {ι : Type} [DecidableEq ι] {D : Deployment ι} {s : State ι} {t : ℕ} {th : Thread ι}

/-- **The discipline of the in-flight registry** in a state. -/
structure Disciplined (D : Deployment ι) (s : State ι) : Prop where
  /-- A key has one leader at most. -/
  oneLeader : ∀ i k t u n m, Leads D s t i k n → Leads D s u i k m → t = u
  /-- It has one exactly while the key is in the map, with the slot that is there. -/
  leader_iff : ∀ i k n, (∃ t, Leads D s t i k n) ↔ s.inflight i k = some n
  /-- A fetch for a cacheable request runs in the leader of its key. -/
  fetch_leads : ∀ t th lead, s.threads t = some th → th.pc = .fetching lead →
    th.req.isCacheableMethod = true → ∃ n, Leads D s t th.replica (D.key th.req) n
  /-- A key has one fetch outstanding at most. -/
  oneFetch : ∀ t u th uh lead lead', s.threads t = some th → s.threads u = some uh →
    th.pc = .fetching lead → uh.pc = .fetching lead' → th.req.isCacheableMethod = true →
    uh.req.isCacheableMethod = true → th.replica = uh.replica → D.key th.req = D.key uh.req →
    t = u
  /-- A thread that acquires as a waiter gets the slot of the leader outstanding then. -/
  acquired : ∀ t th now cached input n s', s.threads t = some th →
    th.pc = .acquire now cached → D.step s (.step t input) = some s' →
    s'.threads t = some { th with pc := .wait n } →
    ∃ u, Leads D s u th.replica (D.key th.req) n
  /-- The slot of a waiter was made for its key. -/
  waiter_owner : ∀ t th n, s.threads t = some th → th.pc.joined = some n →
    ∀ u i k, .led u i k n ∈ s.trace → i = th.replica ∧ k = D.key th.req
  /-- A slot has one leader ever. -/
  oneGeneration : ∀ t u i j k l n, .led t i k n ∈ s.trace → .led u j l n ∈ s.trace → t = u
  /-- A slot becomes ready once: it has been filled once or not at all. -/
  filledOnce : ∀ n, s.trace.countP (Event.fills n) = if (s.slots n).ready then 1 else 0
  /-- It was filled by its own leader, and holds what that leader published. -/
  filledByLeader : ∀ t n resp success, .filled t n resp success ∈ s.trace →
    s.slots n = ⟨true, success, resp⟩ ∧ ∃ i k, .led t i k n ∈ s.trace
  /-- When a leader is done, its slot is ready. -/
  filledWhenDone : ∀ t i k n th, .led t i k n ∈ s.trace → s.threads t = some th →
    th.pc = .done → (s.slots n).ready = true
  /-- What a waiter goes on with is what was published. -/
  copied : ∀ t th n resp success, s.threads t = some th →
    th.pc.read? = some (n, resp, success) → ∃ u, .filled u n resp success ∈ s.trace
  /-- Every publication finds its own slot. -/
  publish_finds : ∀ t th lead hit resp success, s.threads t = some th →
    th.pc = .publish lead hit resp success →
    ∃ n, lead.slot? = some n ∧ s.inflight th.replica (D.key th.req) = some n

omit [DecidableEq ι] in
/-- Two leaders of one key are the same thread. -/
theorem Registry.oneLeader (registry : Registry D s) {i : ι} {k : ByteString} {u n m : ℕ}
    (left : Leads D s t i k n) (right : Leads D s u i k m) : t = u := by
  obtain ⟨th, running, rfl, rfl, leading⟩ := left
  obtain ⟨uh, running', replica, key, leading'⟩ := right
  have here := registry.inflight t th n running leading
  have there := registry.inflight u uh m running' leading'
  rw [replica, key, here] at there
  cases there
  exact registry.holder t u th uh n running running' (Pc.holding_of_leading leading)
    (Pc.holding_of_leading leading')

omit [DecidableEq ι] in
/-- A thread that fetches for a cacheable request is a leader. -/
theorem Registry.fetch_leads (registry : Registry D s) {lead : Lead}
    (running : s.threads t = some th) (here : th.pc = .fetching lead)
    (cacheable : th.req.isCacheableMethod = true) :
    ∃ n, Leads D s t th.replica (D.key th.req) n := by
  have role := registry.proper t th running
  simp only [here, Pc.Proper, cacheable, Bool.true_eq_false, iff_false] at role
  obtain ⟨n, slot⟩ := Lead.exists_slot role
  exact ⟨n, th, running, rfl, rfl, by rw [here]; exact slot⟩

/-- The registry invariant is the discipline. -/
theorem Registry.disciplined (registry : Registry D s) : Disciplined D s where
  oneLeader i k t u n m left right := registry.oneLeader left right
  leader_iff i k n := by
    refine ⟨?_, registry.leader i k n⟩
    rintro ⟨t, th, running, rfl, rfl, leading⟩
    exact registry.inflight t th n running leading
  fetch_leads t th lead running here cacheable := registry.fetch_leads running here cacheable
  oneFetch t u th uh lead lead' running running' here here' cacheable cacheable' replica key := by
    obtain ⟨n, left⟩ := registry.fetch_leads running here cacheable
    obtain ⟨m, right⟩ := registry.fetch_leads running' here' cacheable'
    rw [← replica, ← key] at right
    exact registry.oneLeader left right
  -- A thread that waits after `acquire` has joined the slot of a leader.
  acquired t th now cached input n s' running here taken waits := by
    cases turn_of_step taken with
    | thread running' move =>
        rw [running, Option.some.injEq] at running'
        subst running'
        rw [threads_commit_self move running, Option.some.injEq] at waits
        have next := congrArg Thread.pc waits
        cases move with
        | join _ found =>
            cases next
            exact registry.leader _ _ _ found
        | lead _ _ =>
            change (if _ then Pc.l2Get _ else Pc.allowRequest _) = Pc.wait n at next
            split at next <;> cases next
        | _ => simp_all
  waiter_owner t th n running joined u i k led := by
    have mine := registry.owner t th n running (Or.inr joined)
    rw [registry.ledOwner u i k n led] at mine
    cases mine
    exact ⟨rfl, rfl⟩
  oneGeneration t u i j k l n := registry.ledOnce t u i j k l n
  filledOnce := registry.filledOnce
  filledByLeader := registry.filled
  filledWhenDone t i k n th led running done := by
    obtain ⟨th', running', holds⟩ := registry.finished t i k n led
    rw [running, Option.some.injEq] at running'
    subst running'
    rw [done] at holds
    exact holds.resolve_left (by simp [Pc.holding, Pc.leading])
  copied := registry.read
  publish_finds t th lead hit resp success running here := by
    have role := registry.proper t th running
    rw [here] at role
    obtain ⟨n, slot⟩ := Lead.exists_slot role.1
    exact ⟨n, slot, registry.inflight t th n running (by rw [here]; exact slot)⟩

/-- **The registry is disciplined along every run.** -/
theorem disciplined_of_run (D : Deployment ι) {clock : ℕ} {acts : List (Action ι)}
    (ran : Transition.run D.step (D.initial clock) acts = some s) : Disciplined D s :=
  (registry_of_steps (Transition.Steps.of_run (Transition.meets_true _ _ _) ran)).disciplined

/-- A miss on one key, a second request that joins it, and both served. -/
def coalescedRun : List (Action Unit) :=
  [.start 0 () (getRequest (bytes "/a")), .start 1 () (getRequest (bytes "/a"))] ++
    steps 3 0 failInput ++ steps 3 1 failInput ++
    steps 8 0 (okInput (bytes "ETag") (bytes "1") (bytes "x")) ++ steps 3 1 failInput

theorem disciplined_coalescedRun :
    ∃ s, Transition.run soloDeployment.step (soloDeployment.initial 0) coalescedRun = some s ∧
      Disciplined soloDeployment s := by
  have runs : (Transition.run soloDeployment.step (soloDeployment.initial 0)
      coalescedRun).isSome = true := by decide +kernel
  obtain ⟨s, ran⟩ := Option.isSome_iff_exists.mp runs
  exact ⟨s, ran, disciplined_of_run soloDeployment ran⟩

end EdgeCache

import EdgeCache.Discipline
import EdgeCache.Purging

/-!
# Stampedes

Any number of requests for one key arrive at a replica with a cold L1.  The lookup of a
request and its `acquire` are two steps.  A leader that stores and publishes in between
leaves the second request with neither an entry, which it looked for too early, nor a fetch
in flight: it fetches again.

**Main result.**  Where this does not happen, that is, where no request that finds nothing
in flight acquires while L1 holds the key, the origin is asked once and every request
gets the body of that one fetch (`oneFetch_of_run`).

The invariant is that a leader leaves the registry only when L1 holds the key (`Solo`).
-/

namespace EdgeCache

open Transition

variable {ι : Type} [DecidableEq ι] {D : Deployment ι} {i : ι} {k : ByteString}
  {s s' : State ι} {t : ℕ} {th : Thread ι} {input : Input} {o : Outcome ι}

/-- L1 of the replica holds the key. -/
def Resident (D : Deployment ι) (i : ι) (k : ByteString) (s : State ι) : Prop :=
  ∃ e, (s.cache i).Holds D.hash k e

/-- **What is supposed**: all requests are for the one key; the origin answers with a response
that the policy grants a lifetime; and what is stored fits, is fresh whenever it is looked
up, and is neither purged nor swept. -/
def Hot (D : Deployment ι) (i : ι) (k : ByteString) (s : State ι) : Action ι → Prop
  | .start _ j req => j = i ∧ D.key req = k ∧ req.isCacheableMethod = true
  | .step t input => ∀ th, s.threads t = some th →
      (∀ now e, th.pc = .get now → (s.cache i).Holds D.hash k e → e.isFresh now = true) ∧
      (∀ lead, th.pc = .fetching lead →
        input.result.ok = true ∧ D.decision th.req input.result.response ≠ none) ∧
      ∀ e, th.pc.stored? = some e → ((s.cache i).put D.hash k e).Holds D.hash k e
  | a => ∀ s', D.step s a = some s' → Resident D i k s → Resident D i k s'

/-- **The condition**: no request that finds nothing in flight acquires while L1 holds the
key. -/
def AcquiresCold (D : Deployment ι) (i : ι) (k : ByteString) (s : State ι) : Action ι → Prop
  | .step t _ => ∀ th now cached, s.threads t = some th → th.pc = .acquire now cached →
      s.inflight i k = none → ¬ Resident D i k s
  | _ => True

/-! ## The threads -/

/-- The role of a leader of a miss. -/
def Lead.OfMiss (lead : Lead) : Prop := ∃ n now cached, lead = .miss n now cached

/-- **Where the threads stand**: they never fail, and publish only what L1 holds. -/
def Pc.OnMiss (D : Deployment ι) (req : HttpRequest) (resident : Prop) : Pc → Prop
  | .trigger _ | .l2Get _ | .promote _ _ | .l2Put _ _ _ => False
  | .allowRequest lead | .fetch lead | .fetching lead | .put lead _ _ => lead.OfMiss
  | .record lead result =>
      lead.OfMiss ∧ result.ok = true ∧ D.decision req result.response ≠ none
  | .storeTiers lead resp => lead.OfMiss ∧ D.decision req resp ≠ none
  | .publish lead _ _ _ => lead.OfMiss ∧ resident
  | .fill lead _ _ _ _ => lead.OfMiss
  | _ => True

/-- A thread of one of the requests. -/
structure Sound (D : Deployment ι) (i : ι) (k : ByteString) (resident : Prop) (th : Thread ι) :
    Prop where
  replica : th.replica = i
  key : D.key th.req = k
  cacheable : th.req.isCacheableMethod = true
  stands : th.pc.OnMiss D th.req resident

/-- A fetch has yet to start. -/
def Pc.BeforeFetch : Pc → Prop
  | .allowRequest _ | .fetch _ => True
  | _ => False

/-- A fetch has yet to end. -/
def Pc.BeforeAnswer : Pc → Prop
  | .fetching _ => True
  | pc => pc.BeforeFetch

/-- The event is the end of a fetch. -/
def Event.endsFetch : Event ι → Bool
  | .fetched _ _ _ _ _ => true
  | _ => false

/-- An event that has happened once at most, and only when no thread has it before it. -/
structure Once (E : Event ι → Bool) (Before : Pc → Prop) (s : State ι) : Prop where
  once : s.trace.countP E ≤ 1
  past : s.trace.countP E = 1 → s.nextSlot = 1 ∧
    ∀ t th, s.threads t = some th → ¬ Before th.pc

/-- **The invariant**: one slot is ever made, its leader leaves the registry only when L1
holds the key, and there is one fetch. -/
structure Solo (D : Deployment ι) (i : ι) (k : ByteString) (s : State ι) : Prop where
  threads : ∀ t th, s.threads t = some th → Sound D i k (Resident D i k s) th
  slots : s.nextSlot ≤ 1
  stored : s.nextSlot = 1 → s.inflight i k = none → Resident D i k s
  closed : (s.breaker i).state = .closed
  starts : Once Event.startsFetch Pc.BeforeFetch s
  ends : Once Event.endsFetch Pc.BeforeAnswer s
  out : ∀ t th lead, s.threads t = some th → th.pc = .fetching lead →
    s.trace.countP Event.startsFetch = 1
  ended : s.trace.countP Event.endsFetch = 1 → s.trace.countP Event.startsFetch = 1

/-! ## L1 goes on holding the key -/

omit [DecidableEq ι] in
/-- **What a move does to L1**: a lookup, the put of what the thread stores, or nothing. -/
theorem cache_of_move (move : Move D s t th input o) :
    (th.pc.stored? = none ∧
        o.write = .cache ((s.cache th.replica).get D.hash (D.key th.req)).2) ∨
      (∃ e, th.pc.stored? = some e ∧
        o.write = .cache ((s.cache th.replica).put D.hash (D.key th.req) e)) ∨
      (th.pc.stored? = none ∧ ∀ c, o.write ≠ .cache c) := by
  cases move with
  | hit here found fresh => exact Or.inl ⟨by rw [here]; rfl, by rw [found]⟩
  | stale here found aged serveable => exact Or.inl ⟨by rw [here]; rfl, by rw [found]⟩
  | miss here found useless => exact Or.inl ⟨by rw [here]; rfl, by rw [found]⟩
  | promote here => exact Or.inr (Or.inl ⟨_, by rw [here]; rfl, rfl⟩)
  | put here => exact Or.inr (Or.inl ⟨_, by rw [here]; rfl, rfl⟩)
  | waiterPut here => exact Or.inr (Or.inl ⟨_, by rw [here]; rfl, rfl⟩)
  | passFailure failed =>
      cases failed <;> exact Or.inr (Or.inr ⟨by simp_all [Pc.stored?], by simp⟩)
  | leadFailure role failed =>
      cases failed <;> exact Or.inr (Or.inr ⟨by simp_all [Pc.stored?], by simp⟩)
  | _ => exact Or.inr (Or.inr ⟨by simp_all [Pc.stored?], by simp⟩)

/-- A thread that stores, or finds L1 holding the key, leaves it holding the key. -/
theorem resident_of_move (move : Move D s t th input o) (replica : th.replica = i)
    (key : D.key th.req = k)
    (fits : ∀ e, th.pc.stored? = some e → ((s.cache i).put D.hash k e).Holds D.hash k e)
    (resident : Resident D i k s ∨ th.pc.stored? ≠ none) :
    Resident D i k (s.commit (D.key th.req) t th o) := by
  subst replica key
  unfold Resident
  rw [commit_cache]
  rcases cache_of_move move with ⟨nothing, write⟩ | ⟨e, mine, write⟩ | ⟨nothing, elsewhere⟩
  · obtain ⟨e, held⟩ := resident.resolve_right (not_not.mpr nothing)
    rw [write]
    simp only [State.apply, Function.update_self]
    exact ⟨e, ShardedCache.holds_get.mpr held⟩
  · rw [write]
    simp only [State.apply, Function.update_self]
    exact ⟨e, fits e mine⟩
  · obtain ⟨e, held⟩ := resident.resolve_right (not_not.mpr nothing)
    have same : (s.apply th.replica (D.key th.req) o.write).cache = s.cache := by
      cases write : o.write with
      | cache c => exact absurd write (elsewhere c)
      | _ => rfl
    exact ⟨e, same ▸ held⟩

theorem resident_step {a : Action ι} (taken : D.step s a = some s') (hot : Hot D i k s a)
    (threads : ∀ t th, s.threads t = some th → th.replica = i ∧ D.key th.req = k)
    (resident : Resident D i k s) : Resident D i k s' := by
  cases a with
  | start t j req => cases turn_of_step taken; exact resident
  | step t input =>
      cases turn_of_step taken with
      | @thread _ _ th o running move =>
          obtain ⟨replica, key⟩ := threads t th running
          exact resident_of_move move replica key (hot th running).2.2 (Or.inl resident)
  | _ => exact hot s' taken resident

/-! ## One step -/

omit [DecidableEq ι] in
/-- Under a closed breaker, no fetch of the requests fails. -/
theorem Sound.unfailing {resident : Prop} (sound : Sound D i k resident th)
    (closed : (s.breaker i).state = .closed) (lead : Lead) (rejected : Bool)
    (b : CircuitBreaker) : ¬ Failed D s th lead rejected b := by
  obtain ⟨rfl, -, -, stands⟩ := sound
  intro failed
  cases failed with
  | rejected here refused =>
      rw [CircuitBreaker.allowRequest_of_closed closed] at refused
      cases refused
  | failed here notOk =>
      rw [here] at stands
      rw [stands.2.1] at notOk
      cases notOk

/-- The breaker stays closed. -/
theorem closed_of_move {key : ByteString} (move : Move D s t th input o)
    (closed : (s.breaker th.replica).state = .closed)
    (unfailing : ∀ lead rejected b, ¬ Failed D s th lead rejected b) :
    ((s.commit key t th o).breaker th.replica).state = .closed := by
  rw [commit_breaker]
  cases move with
  | allow here allowed =>
      rw [CircuitBreaker.allowRequest_of_closed closed] at allowed
      cases allowed
      simpa [State.apply] using closed
  | passFailure failed => exact absurd failed (unfailing _ _ _)
  | leadFailure role failed => exact absurd failed (unfailing _ _ _)
  | passSuccess here ok => simp [State.apply, CircuitBreaker.state_recordSuccess]
  | leadSuccess role here ok => simp [State.apply, CircuitBreaker.state_recordSuccess]
  | _ => exact closed

/-- Without L2, under a breaker that is closed, the threads of the requests go on as they
should. -/
theorem sound_of_move (off : D.l2Enabled = false) (move : Move D s t th input o)
    (sound : Sound D i k (Resident D i k s) th) (closed : (s.breaker i).state = .closed)
    (hot : (∀ now e, th.pc = .get now → (s.cache i).Holds D.hash k e → e.isFresh now = true) ∧
      (∀ lead, th.pc = .fetching lead →
        input.result.ok = true ∧ D.decision th.req input.result.response ≠ none) ∧
      ∀ e, th.pc.stored? = some e → ((s.cache i).put D.hash k e).Holds D.hash k e) :
    o.pc.OnMiss D th.req (Resident D i k (s.commit (D.key th.req) t th o)) ∧ o.child = none := by
  have unfailing := sound.unfailing closed
  obtain ⟨rfl, rfl, cacheable, stands⟩ := sound
  have residing := resident_of_move move rfl rfl hot.2.2
  cases move with
  | stale here found aged serveable =>
      have held := ShardedCache.get_eq_some_iff.mp (congrArg Prod.fst found)
      rw [hot.1 _ _ here held] at aged
      cases aged
  | lead here absent =>
      rw [off]
      exact ⟨⟨_, _, _, rfl⟩, rfl⟩
  | fetched here =>
      rw [here] at stands
      exact ⟨⟨stands, hot.2.1 _ here⟩, rfl⟩
  | passFailure failed => exact absurd failed (unfailing _ _ _)
  | leadFailure role failed => exact absurd failed (unfailing _ _ _)
  | refuse here refused =>
      rw [here] at stands
      exact absurd refused stands.2
  | put here =>
      rw [here] at stands
      have held := residing (Or.inr (by rw [here]; simp [Pc.stored?]))
      refine ⟨?_, rfl⟩
      simp only [Deployment.afterPut, off]
      simp only [Deployment.afterPut, off] at held
      exact ⟨stands, held⟩
  -- No thread of this page serves a stale copy or uses L2.
  | triggerJoin here found => rw [here] at stands; exact stands.elim
  | triggerLead here absent unused => rw [here] at stands; exact stands.elim
  | l2Hit here reached held decoded => rw [here] at stands; exact stands.elim
  | l2Miss here => rw [here] at stands; exact stands.elim
  | promote here => rw [here] at stands; exact stands.elim
  | l2Put here encoded => rw [here] at stands; exact stands.elim
  | l2Skip here => rw [here] at stands; exact stands.elim
  | passSuccess here ok =>
      rw [here] at stands
      obtain ⟨⟨n, now, cached, impossible⟩, -⟩ := stands
      cases impossible
  | allow here allowed => rw [here] at stands; exact ⟨stands, rfl⟩
  | fetch here => rw [here] at stands; exact ⟨stands, rfl⟩
  | leadSuccess role here ok => rw [here] at stands; exact ⟨⟨stands.1, stands.2.2⟩, rfl⟩
  | grant here granted => rw [here] at stands; exact ⟨stands.1, rfl⟩
  | withdraw here found => rw [here] at stands; exact ⟨stands.1, rfl⟩
  | _ => exact ⟨trivial, rfl⟩

omit [DecidableEq ι] in
theorem Pc.OnMiss.mono {req : HttpRequest} {p q : Prop} (more : p → q) {pc : Pc}
    (stands : pc.OnMiss D req p) : pc.OnMiss D req q := by
  cases pc with
  | publish lead hit resp success => exact ⟨stands.1, more stands.2⟩
  | _ => exact stands

omit [DecidableEq ι] in
/-- Whoever has a fetch before it leads the one slot. -/
theorem Sound.holds {resident : Prop} (sound : Sound D i k resident th) (registry : Registry D s)
    (slots : s.nextSlot ≤ 1) (running : s.threads t = some th) (before : th.pc.BeforeAnswer) :
    th.pc.holding = some 0 ∧ s.nextSlot = 1 := by
  have holding : ∃ n, th.pc.holding = some n := by
    have stands := sound.stands
    cases here : th.pc <;> rw [here] at before stands
    case allowRequest => obtain ⟨n, now, cached, rfl⟩ := stands; exact ⟨n, rfl⟩
    case fetch => obtain ⟨n, now, cached, rfl⟩ := stands; exact ⟨n, rfl⟩
    case fetching => obtain ⟨n, now, cached, rfl⟩ := stands; exact ⟨n, rfl⟩
    all_goals exact before.elim
  obtain ⟨n, holding⟩ := holding
  have owner := registry.owner t th n running (Or.inl holding)
  have made : n < s.nextSlot := by
    by_contra unmade
    rw [registry.fresh n (Nat.not_lt.mp unmade)] at owner
    cases owner
  have first : n = 0 := by omega
  exact ⟨first ▸ holding, by omega⟩

theorem countP_commit (s : State ι) (key : ByteString) (t : ℕ) (th : Thread ι) (o : Outcome ι)
    (E : Event ι → Bool) :
    (s.commit key t th o).trace.countP E = o.events.countP E + s.trace.countP E := by
  rw [commit_trace, List.countP_append]

/-- **The rule for what happens once**: a step of a thread that has it before itself makes it
happen, and no thread gets it before itself but the first leader. -/
theorem Once.commit {E : Event ι → Bool} {Before : Pc → Prop} (once : Once E Before s)
    (registry : Registry D s) (running : s.threads t = some th) (childless : o.child = none)
    (holds : ∀ u uh, s.threads u = some uh → Before uh.pc →
      uh.pc.holding = some 0 ∧ s.nextSlot = 1)
    (counts : o.events.countP E = 0 ∨ (o.events.countP E = 1 ∧ Before th.pc ∧ ¬ Before o.pc))
    (new : Before o.pc → Before th.pc ∨ s.nextSlot = 0)
    (next : (s.commit (D.key th.req) t th o).nextSlot = s.nextSlot ∨ s.nextSlot = 0) :
    Once E Before (s.commit (D.key th.req) t th o) := by
  have sum := countP_commit s (D.key th.req) t th o E
  rcases counts with none | ⟨one, before, after⟩
  · refine ⟨by rw [sum, none, Nat.zero_add]; exact once.once, fun happened => ?_⟩
    rw [sum, none, Nat.zero_add] at happened
    obtain ⟨slot, past⟩ := once.past happened
    refine ⟨(next.resolve_right (by omega)).trans slot, fun u uh running' before => ?_⟩
    rcases threads_commit_of_childless childless running' with ⟨rfl, rfl⟩ | ⟨-, old⟩
    · exact past _ _ running ((new before).resolve_right (by omega))
    · exact past u uh old before
  · have zero : s.trace.countP E = 0 := by
      have least := once.once
      have unhappened : s.trace.countP E ≠ 1 := fun happened =>
        (once.past happened).2 t th running before
      omega
    obtain ⟨mine, slot⟩ := holds t th running before
    refine ⟨by omega, fun _ => ⟨(next.resolve_right (by omega)).trans slot, ?_⟩⟩
    intro u uh running' again
    rcases threads_commit_of_childless childless running' with ⟨rfl, rfl⟩ | ⟨apart, old⟩
    · exact after again
    · exact apart (registry.holder u t uh th 0 old running (holds u uh old again).1 mine)

omit [DecidableEq ι] in
/-- The start of a fetch. -/
theorem starts_of_move (move : Move D s t th input o) (miss : ∀ lead, th.pc ≠ .l2Get lead) :
    (o.events.countP Event.startsFetch = 0 ∨
      (o.events.countP Event.startsFetch = 1 ∧ th.pc.BeforeFetch ∧ ¬ o.pc.BeforeFetch)) ∧
    (o.pc.BeforeFetch → th.pc.BeforeFetch ∨ ∃ now cached, th.pc = .acquire now cached) ∧
    (∀ lead, o.pc = .fetching lead → o.events.countP Event.startsFetch = 1) := by
  have concluded : ∀ lead hit resp,
      (conclude t th lead hit resp).countP Event.startsFetch = 0 := by
    intro lead hit resp
    cases lead <;> rfl
  cases move with
  | fetch here =>
      exact ⟨Or.inr ⟨rfl, by rw [here]; trivial, id⟩, fun before => before.elim, fun _ _ => rfl⟩
  | allow here allowed =>
      exact ⟨Or.inl rfl, fun _ => Or.inl (by rw [here]; trivial), fun _ other => by cases other⟩
  | lead here absent =>
      refine ⟨Or.inl rfl, fun _ => Or.inr ⟨_, _, here⟩, fun lead other => ?_⟩
      change (if _ then Pc.l2Get _ else Pc.allowRequest _) = _ at other
      split at other <;> cases other
  | @put lead resp entry here =>
      have elsewhere : ¬ (D.afterPut th lead resp entry).BeforeFetch ∧
          ∀ lead', D.afterPut th lead resp entry ≠ .fetching lead' := by
        unfold Deployment.afterPut
        split <;> exact ⟨id, by simp⟩
      exact ⟨Or.inl rfl, fun before => absurd before elsewhere.1,
        fun lead' other => absurd other (elsewhere.2 lead')⟩
  | @l2Miss lead here => exact absurd here (miss lead)
  | lost here absent =>
      exact ⟨Or.inl (concluded _ _ _), fun before => before.elim, fun _ other => by cases other⟩
  | fill here =>
      refine ⟨Or.inl ?_, fun before => before.elim, fun _ other => by cases other⟩
      rw [List.countP_append, concluded]
      rfl
  | _ => exact ⟨Or.inl rfl, fun before => before.elim, fun _ other => by cases other⟩

omit [DecidableEq ι] in
/-- The end of a fetch. -/
theorem ends_of_move (move : Move D s t th input o) (miss : ∀ lead, th.pc ≠ .l2Get lead) :
    (o.events.countP Event.endsFetch = 0 ∨
      (o.events.countP Event.endsFetch = 1 ∧ (∃ lead, th.pc = .fetching lead) ∧
        ¬ o.pc.BeforeAnswer)) ∧
    (o.pc.BeforeAnswer → th.pc.BeforeAnswer ∨ ∃ now cached, th.pc = .acquire now cached) := by
  have concluded : ∀ lead hit resp,
      (conclude t th lead hit resp).countP Event.endsFetch = 0 := by
    intro lead hit resp
    cases lead <;> rfl
  cases move with
  | fetch here => exact ⟨Or.inl rfl, fun _ => Or.inl (by rw [here]; trivial)⟩
  | fetched here => exact ⟨Or.inr ⟨rfl, ⟨_, here⟩, id⟩, fun before => before.elim⟩
  | allow here allowed => exact ⟨Or.inl rfl, fun _ => Or.inl (by rw [here]; trivial)⟩
  | lead here absent => exact ⟨Or.inl rfl, fun _ => Or.inr ⟨_, _, here⟩⟩
  | @put lead resp entry here =>
      have elsewhere : ¬ (D.afterPut th lead resp entry).BeforeAnswer := by
        unfold Deployment.afterPut
        split <;> exact id
      exact ⟨Or.inl rfl, fun before => absurd before elsewhere⟩
  | @l2Miss lead here => exact absurd here (miss lead)
  | lost here absent => exact ⟨Or.inl (concluded _ _ _), fun before => before.elim⟩
  | fill here =>
      refine ⟨Or.inl ?_, fun before => before.elim⟩
      rw [List.countP_append, concluded]
      rfl
  | _ => exact ⟨Or.inl rfl, fun before => before.elim⟩

omit [DecidableEq ι] in
/-- What a move does to the registry, where no thread revalidates. -/
theorem inflight_of_move (move : Move D s t th input o)
    (trigger : ∀ resp, th.pc ≠ .trigger resp) :
    (o.write ≠ .enter ∧ o.write ≠ .withdraw) ∨
      (o.write = .enter ∧ s.inflight th.replica (D.key th.req) = none ∧
        ∃ now cached, th.pc = .acquire now cached) ∨
      (o.write = .withdraw ∧ ∃ lead hit resp success, th.pc = .publish lead hit resp success) := by
  cases move with
  | @triggerLead resp here absent unused => exact absurd here (trigger resp)
  | lead here absent => exact Or.inr (Or.inl ⟨rfl, absent, _, _, here⟩)
  | withdraw here found => exact Or.inr (Or.inr ⟨rfl, _, _, _, _, here⟩)
  | _ => exact Or.inl ⟨by simp, by simp⟩

omit [DecidableEq ι] in
/-- No thread of the requests asks L2 or starts a revalidation. -/
theorem Sound.elsewhere {resident : Prop} (sound : Sound D i k resident th) :
    (∀ lead, th.pc ≠ .l2Get lead) ∧ ∀ resp, th.pc ≠ .trigger resp := by
  have stands := sound.stands
  constructor
  · intro lead here
    rw [here] at stands
    exact stands
  · intro resp here
    rw [here] at stands
    exact stands

omit [DecidableEq ι] in
/-- **There is one leader**: a second one would find the key in L1. -/
theorem Solo.nextSlot_of_enter (solo : Solo D i k s) (running : s.threads t = some th)
    (move : Move D s t th input o) (cold : AcquiresCold D i k s (.step t input))
    (write : o.write = .enter) : s.nextSlot = 0 := by
  have sound := solo.threads t th running
  by_contra later
  have slot : s.nextSlot = 1 := by have := solo.slots; omega
  rcases inflight_of_move move sound.elsewhere.2 with
    ⟨other, -⟩ | ⟨-, absent, now, cached, here⟩ | ⟨other, -⟩
  · exact other write
  · rw [sound.replica, sound.key] at absent
    exact cold th now cached running here absent (solo.stored slot absent)
  · rw [write] at other
    cases other

/-- A step of a thread makes no slot, or the first. -/
theorem Solo.nextSlot_commit (solo : Solo D i k s) (running : s.threads t = some th)
    (move : Move D s t th input o) (cold : AcquiresCold D i k s (.step t input)) :
    (s.commit (D.key th.req) t th o).nextSlot = s.nextSlot ∨
      (s.nextSlot = 0 ∧ (s.commit (D.key th.req) t th o).nextSlot = 1) := by
  rw [commit_nextSlot]
  cases write : o.write with
  | enter =>
      have first := solo.nextSlot_of_enter running move cold write
      exact Or.inr ⟨first, by simp [State.apply, first]⟩
  | _ => exact Or.inl rfl

/-- The one slot leaves the registry only when L1 holds the key. -/
theorem Solo.stored_commit (solo : Solo D i k s) (running : s.threads t = some th)
    (move : Move D s t th input o)
    (resident : Resident D i k s → Resident D i k (s.commit (D.key th.req) t th o))
    (slot : (s.commit (D.key th.req) t th o).nextSlot = 1)
    (absent : (s.commit (D.key th.req) t th o).inflight i k = none) :
    Resident D i k (s.commit (D.key th.req) t th o) := by
  have sound := solo.threads t th running
  rcases inflight_of_move move sound.elsewhere.2 with
    ⟨noEnter, noWithdraw⟩ | ⟨write, -⟩ | ⟨write, lead, hit, resp, success, here⟩
  · have inflight : (s.commit (D.key th.req) t th o).inflight = s.inflight := by
      rw [commit_inflight]
      cases write : o.write with
      | enter => exact absurd write noEnter
      | withdraw => exact absurd write noWithdraw
      | _ => rfl
    have nextSlot : (s.commit (D.key th.req) t th o).nextSlot = s.nextSlot := by
      rw [commit_nextSlot]
      cases write : o.write with
      | enter => exact absurd write noEnter
      | _ => rfl
    exact resident (solo.stored (nextSlot ▸ slot) (inflight ▸ absent))
  · rw [commit_inflight, write, sound.replica, sound.key] at absent
    simp [State.apply] at absent
  · -- Whoever publishes has stored.
    have published := sound.stands
    rw [here] at published
    exact resident published.2

omit [DecidableEq ι] in
/-- Only the first leader gets a fetch before it. -/
theorem Solo.nextSlot_of_acquire (solo : Solo D i k s) (running : s.threads t = some th)
    (move : Move D s t th input o) (cold : AcquiresCold D i k s (.step t input))
    (acquires : ∃ now cached, th.pc = .acquire now cached) (before : o.pc.BeforeAnswer) :
    s.nextSlot = 0 := by
  obtain ⟨now, cached, here⟩ := acquires
  cases move with
  | lead _ absent => exact solo.nextSlot_of_enter running (.lead ‹_› absent) cold rfl
  | _ => simp_all [Pc.BeforeAnswer, Pc.BeforeFetch]

/-- **A step of a thread keeps the invariant.** -/
theorem Solo.commit (off : D.l2Enabled = false) (registry : Registry D s) (solo : Solo D i k s)
    (running : s.threads t = some th) (move : Move D s t th input o)
    (hot : Hot D i k s (.step t input)) (cold : AcquiresCold D i k s (.step t input)) :
    Solo D i k (s.commit (D.key th.req) t th o) := by
  have sound := solo.threads t th running
  obtain ⟨stands, childless⟩ := sound_of_move off move sound solo.closed (hot th running)
  have resident : Resident D i k s → Resident D i k (s.commit (D.key th.req) t th o) :=
    fun held => resident_of_move move sound.replica sound.key (hot th running).2.2 (Or.inl held)
  have next := solo.nextSlot_commit running move cold
  have entering := solo.nextSlot_of_acquire running move cold
  have holds : ∀ u uh, s.threads u = some uh → uh.pc.BeforeAnswer →
      uh.pc.holding = some 0 ∧ s.nextSlot = 1 := fun u uh running before =>
    (solo.threads u uh running).holds registry solo.slots running before
  have early : ∀ {pc : Pc}, pc.BeforeFetch → pc.BeforeAnswer := by
    intro pc before
    cases pc <;> first | exact before | exact before.elim
  obtain ⟨startCounts, startNew, out⟩ := starts_of_move move sound.elsewhere.1
  obtain ⟨endCounts, endNew⟩ := ends_of_move move sound.elsewhere.1
  have starts := solo.starts.commit registry running childless
    (fun u uh running before => holds u uh running (early before)) startCounts
    (fun before => (startNew before).imp_right fun here => entering here (early before))
    (next.imp_right And.left)
  have ends := solo.ends.commit registry running childless holds
    (endCounts.imp_right fun ⟨one, ⟨lead, here⟩, after⟩ => ⟨one, by rw [here]; trivial, after⟩)
    (fun before => (endNew before).imp_right fun here => entering here before)
    (next.imp_right And.left)
  have startSum := countP_commit s (D.key th.req) t th o Event.startsFetch
  have endSum := countP_commit s (D.key th.req) t th o Event.endsFetch
  have most := starts.once
  constructor
  case starts => exact starts
  case ends => exact ends
  case slots => have := solo.slots; omega
  case stored => exact solo.stored_commit running move resident
  case threads =>
    intro u uh running'
    rcases threads_commit_of_childless childless running' with ⟨rfl, rfl⟩ | ⟨-, old⟩
    · exact ⟨sound.replica, sound.key, sound.cacheable, stands⟩
    · have other := solo.threads u uh old
      exact ⟨other.replica, other.key, other.cacheable, other.stands.mono resident⟩
  case closed =>
    have stays : ((s.commit (D.key th.req) t th o).breaker th.replica).state = .closed :=
      closed_of_move move (sound.replica ▸ solo.closed) (sound.unfailing solo.closed)
    rwa [sound.replica] at stays
  case out =>
    intro u uh lead running' here
    rcases threads_commit_of_childless childless running' with ⟨rfl, rfl⟩ | ⟨-, old⟩
    · have one := out lead here
      omega
    · have one := solo.out u uh lead old here
      omega
  -- A fetch that ends has started, and was counted then.
  case ended =>
    intro happened
    have before : s.trace.countP Event.startsFetch = 1 := by
      rcases endCounts with none | ⟨-, ⟨lead, here⟩, -⟩
      · exact solo.ended (by omega)
      · exact solo.out t th lead running here
    omega

omit [DecidableEq ι] in
/-- **A step of anything else keeps the invariant**: it makes no fetch, and adds to the
threads at most one that is about to look up. -/
theorem Solo.frame (solo : Solo D i k s)
    (threads : ∀ t th, s'.threads t = some th → s.threads t = some th ∨
      (Sound D i k (Resident D i k s') th ∧ th.pc = .lookup))
    (resident : Resident D i k s → Resident D i k s')
    (nextSlot : s'.nextSlot = s.nextSlot) (inflight : s'.inflight = s.inflight)
    (breaker : s'.breaker = s.breaker) (events : List (Event ι))
    (trace : s'.trace = events ++ s.trace) (idle : ∀ e ∈ events,
      Event.startsFetch e = false ∧ Event.endsFetch e = false) : Solo D i k s' := by
  have counts : s'.trace.countP Event.startsFetch = s.trace.countP Event.startsFetch ∧
      s'.trace.countP Event.endsFetch = s.trace.countP Event.endsFetch := by
    have starts : events.countP Event.startsFetch = 0 :=
      List.countP_eq_zero.mpr fun e mem => by simp [(idle e mem).1]
    have ends : events.countP Event.endsFetch = 0 :=
      List.countP_eq_zero.mpr fun e mem => by simp [(idle e mem).2]
    rw [trace, List.countP_append, List.countP_append, starts, ends]
    exact ⟨Nat.zero_add _, Nat.zero_add _⟩
  have past : ∀ {Before : Pc → Prop}, ¬ Before .lookup →
      (∀ t th, s.threads t = some th → ¬ Before th.pc) →
      ∀ t th, s'.threads t = some th → ¬ Before th.pc := by
    intro Before elsewhere none t th running
    rcases threads t th running with old | ⟨-, new⟩
    · exact none t th old
    · rw [new]
      exact elsewhere
  exact
    { threads := fun t th running => by
        rcases threads t th running with old | ⟨new, -⟩
        · have other := solo.threads t th old
          exact ⟨other.replica, other.key, other.cacheable, other.stands.mono resident⟩
        · exact new
      slots := nextSlot ▸ solo.slots
      stored := fun slot absent =>
        resident (solo.stored (nextSlot ▸ slot) (inflight ▸ absent))
      closed := breaker ▸ solo.closed
      starts := ⟨counts.1 ▸ solo.starts.once, fun happened => by
        obtain ⟨slot, none⟩ := solo.starts.past (counts.1 ▸ happened)
        exact ⟨nextSlot ▸ slot, past id none⟩⟩
      ends := ⟨counts.2 ▸ solo.ends.once, fun happened => by
        obtain ⟨slot, none⟩ := solo.ends.past (counts.2 ▸ happened)
        exact ⟨nextSlot ▸ slot, past id none⟩⟩
      out := fun t th lead running here => by
        rcases threads t th running with old | ⟨-, new⟩
        · exact counts.1 ▸ solo.out t th lead old here
        · rw [new] at here
          cases here
      ended := fun happened => counts.1 ▸ solo.ended (counts.2 ▸ happened) }

/-- **The step lemma.** -/
theorem solo_step (off : D.l2Enabled = false) {a : Action ι} (taken : D.step s a = some s')
    (hot : Hot D i k s a) (cold : AcquiresCold D i k s a) (registry : Registry D s)
    (solo : Solo D i k s) : Solo D i k s' := by
  have resident := resident_step taken hot fun t th running =>
    ⟨(solo.threads t th running).replica, (solo.threads t th running).key⟩
  cases turn_of_step taken with
  | thread running move => exact solo.commit off registry running move hot cold
  | @start t j req unused =>
      obtain ⟨rfl, key, cacheable⟩ := hot
      refine solo.frame (fun u uh running => ?_) resident rfl rfl rfl [_] rfl
        (by simp [Event.startsFetch, Event.endsFetch])
      rcases update_eq_some running with ⟨rfl, rfl⟩ | ⟨-, old⟩
      · have lookup : Deployment.entryPoint req = .lookup := if_pos cacheable
        exact Or.inr ⟨⟨rfl, key, cacheable, by rw [lookup]; trivial⟩, lookup⟩
      · exact Or.inl old
  | purgeStart unused =>
      exact solo.frame (fun _ _ running => Or.inl running) resident rfl rfl rfl [_] rfl
        (by simp [Event.startsFetch, Event.endsFetch])
  | purgeReturn running last =>
      exact solo.frame (fun _ _ running => Or.inl running) resident rfl rfl rfl [_] rfl
        (by simp [Event.startsFetch, Event.endsFetch])
  | _ => exact solo.frame (fun _ _ running => Or.inl running) resident rfl rfl rfl [] rfl (by simp)

omit [DecidableEq ι] in
theorem solo_initial (clock : ℕ) : Solo D i k (D.initial clock) where
  threads t th running := by cases running
  slots := Nat.zero_le _
  stored slot := by cases slot
  closed := rfl
  starts := ⟨Nat.zero_le _, fun happened => by cases happened⟩
  ends := ⟨Nat.zero_le _, fun happened => by cases happened⟩
  out t th lead running := by cases running
  ended happened := by cases happened

/-! ## What the requests get -/

/-- The origin delivered this body. -/
def Delivered (trace : List (Event ι)) (body : ByteString) : Prop :=
  ∃ t j req result time, .fetched t j req result time ∈ trace ∧ result.ok = true ∧
    result.response.body = body

/-- Everything is what the origin delivered. -/
def deliveries (trace : List (Event ι)) : Labels ι where
  Entry _ _ e := Delivered trace e.body
  Blob _ _ := True
  Own _ _ _ resp := Delivered trace resp.body
  Slot _ _ _ resp _ := Delivered trace resp.body
  Answer _ _ _ resp _ := Delivered trace resp.body

omit [DecidableEq ι] in
theorem deliveries_published {trace : List (Event ι)} {lead : Lead} {n : ℕ} {hit : Option ℤ}
    {resp : HttpResponse} {success : Bool} (delivered : Delivered trace resp.body) :
    (deliveries trace).Published D t th lead n hit resp success :=
  Labels.published_of_slot delivered fun _ => delivered

theorem deliveries_closed {guard : State ι → Action ι → Prop} {start final : State ι}
    (solo : ∀ s, Steps D.step guard start s → Solo D i k s) :
    (deliveries final.trace).Closed D guard start final where
  hit _ _ entry _ := by
    change Delivered _ _
    rw [hitResponse_body]
    exact entry
  stale _ entry := by
    change Delivered _ _
    rw [staleResponse_body]
    exact entry
  decoded scene here _ _ _ _ := by
    have never := ((solo _ scene.front).threads _ _ scene.running).stands
    rw [here] at never
    exact never.elim
  fetched _ _ event ok := ⟨_, _, _, _, _, event, ok, rfl⟩
  pass _ own := by
    change Delivered _ _
    rw [fetchedResponse_body]
    exact own
  passFailure scene failed := by
    have sole := solo _ scene.front
    exact absurd failed ((sole.threads _ _ scene.running).unfailing sole.closed _ _ _)
  failure scene failed := by
    have sole := solo _ scene.front
    exact absurd failed ((sole.threads _ _ scene.running).unfailing sole.closed _ _ _)
  success _ _ _ own n _ := deliveries_published <| by
    rw [fetchedResponse_body]
    exact own
  entry _ _ own _ _ := own
  encoded _ _ _ _ := trivial
  placeholder scene here _ _ := by
    have stands := ((solo _ scene.front).threads _ _ scene.running).stands
    rw [here] at stands
    obtain ⟨n, now, cached, impossible⟩ := stands
    cases impossible
  coalesced _ _ _ slot := by
    change Delivered _ _
    rw [coalescedResponse_body]
    exact slot
  waiterEntry _ _ _ slot _ _ := slot

/-- **The origin is asked once**: there is one fetch at most, exactly one if any request has been
answered, and every answer carries its body. -/
structure OneFetch (s : State ι) : Prop where
  most : s.trace.countP Event.startsFetch ≤ 1
  answers : ∀ t j req resp hit, .answered t j req resp hit ∈ s.trace →
    s.trace.countP Event.startsFetch = 1 ∧
      ∃ u l req' result time, s.trace.filter Event.endsFetch = [.fetched u l req' result time] ∧
        result.ok = true ∧ resp.body = result.response.body

/-- **Stampedes are collapsed** where no request acquires after L1 has come to hold the key. -/
theorem oneFetch_of_run (D : Deployment ι) (off : D.l2Enabled = false) (i : ι) (k : ByteString)
    {clock : ℕ} {acts : List (Action ι)} (ran : run D.step (D.initial clock) acts = some s)
    (hot : Meets D.step (Hot D i k) (D.initial clock) acts)
    (cold : Meets D.step (AcquiresCold D i k) (D.initial clock) acts) : OneFetch s := by
  have steps := Steps.of_run (hot.and cold) ran
  have solo : ∀ s, Steps D.step (fun s a => Hot D i k s a ∧ AcquiresCold D i k s a)
      (D.initial clock) s → Solo D i k s := fun s front =>
    front.invariant_of (fun _ front => registry_of_steps front)
      (fun _ _ _ meets taken registry _ solo =>
        solo_step off taken meets.1 meets.2 registry solo) (solo_initial clock)
  have flow := flow_of_run (deliveries_closed solo) steps
  have last := solo s steps
  refine ⟨last.starts.once, fun t j req resp hit mem => ?_⟩
  obtain ⟨u, l, req', result, time, event, ok, body⟩ := flow.answers t j req resp hit mem
  have inside : .fetched u l req' result time ∈ s.trace.filter Event.endsFetch :=
    List.mem_filter.mpr ⟨event, rfl⟩
  have one : s.trace.countP Event.endsFetch = 1 := by
    have some := List.countP_pos_iff.mpr ⟨_, event, show Event.endsFetch _ = true from rfl⟩
    have most := last.ends.once
    omega
  refine ⟨last.ended one, u, l, req', result, time, ?_, ok, body.symm⟩
  rw [List.countP_eq_length_filter, List.length_eq_one_iff] at one
  obtain ⟨e, sole⟩ := one
  rw [sole, List.mem_singleton] at inside
  rw [sole, inside]

/-! ## A request that acquires too late -/

/-- The key of the page. -/
def pageKey : ByteString := soloDeployment.key (getRequest (bytes "/a"))

/-- What L1 holds under it. -/
def held? (s : State Unit) : Option CacheEntry :=
  ((s.cache ()).get soloDeployment.hash pageKey).1

/-- Whether a step is as supposed. -/
def isHot (s : State Unit) : Action Unit → Bool
  | .start _ _ req => soloDeployment.key req = pageKey ∧ req.isCacheableMethod = true
  | .step t input =>
      match s.threads t with
      | none => true
      | some th =>
          (match th.pc with
            | .get now => (held? s).all fun e => e.isFresh now
            | .fetching _ =>
                input.result.ok && (soloDeployment.decision th.req input.result.response).isSome
            | _ => true) &&
          th.pc.stored?.all fun e =>
            (((s.cache ()).put soloDeployment.hash pageKey e).get soloDeployment.hash
              pageKey).1 = some e
  | _ => false

theorem hot_of_isHot (s : State Unit) (a : Action Unit) (passed : isHot s a = true) :
    Hot soloDeployment () pageKey s a := by
  cases a with
  | start t j req =>
      obtain ⟨key, cacheable⟩ := of_decide_eq_true passed
      exact ⟨rfl, key, cacheable⟩
  | step t input =>
      intro th running
      simp only [isHot, running, Bool.and_eq_true] at passed
      obtain ⟨stands, stores⟩ := passed
      refine ⟨fun now e here held => ?_, fun lead here => ?_, fun e mine => ?_⟩
      · rw [here] at stands
        have found : held? s = some e := ShardedCache.get_eq_some_iff.mpr held
        simpa [found] using stands
      · simpa [here, Option.isSome_iff_ne_none] using stands
      · simp only [mine, Option.all_some, decide_eq_true_eq] at stores
        exact ShardedCache.get_eq_some_iff.mp stores
  | _ => cases passed

/-- Whether a step does not acquire after L1 has come to hold the key. -/
def isCold (s : State Unit) : Action Unit → Bool
  | .step t _ =>
      match (s.threads t).map Thread.pc with
      | some (.acquire _ _) => (s.inflight () pageKey).isSome || (held? s).isNone
      | _ => true
  | _ => true

theorem acquiresCold_of_isCold (s : State Unit) (a : Action Unit) (passed : isCold s a = true) :
    AcquiresCold soloDeployment () pageKey s a := by
  cases a with
  | step t input =>
      rintro th now cached running here absent ⟨e, held⟩
      have found : held? s = some e := ShardedCache.get_eq_some_iff.mpr held
      simp [isCold, running, here, absent, found] at passed
  | _ => trivial

/-- A request looks up before another one stores the page, and acquires after it has
published it. -/
def lateRun : List (Action Unit) :=
  [.start 0 () (getRequest (bytes "/a")), .start 1 () (getRequest (bytes "/a"))] ++
    steps 2 1 failInput ++ steps 11 0 (okInput (bytes "ETag") (bytes "1") (bytes "x")) ++
    steps 9 1 (okInput (bytes "ETag") (bytes "1") (bytes "x"))

/-- **The page is fetched twice**, though it is cached and fresh from the first time on. -/
theorem not_oneFetch_lateRun :
    ∃ s, run soloDeployment.step (soloDeployment.initial 0) lateRun = some s ∧
      Meets soloDeployment.step (Hot soloDeployment () pageKey) (soloDeployment.initial 0)
        lateRun ∧
      s.trace.countP Event.startsFetch = 2 ∧ ¬ OneFetch s := by
  obtain ⟨s, ran, twice⟩ := exists_of_run
    (show (run soloDeployment.step (soloDeployment.initial 0) lateRun).any
      (fun s => s.trace.countP Event.startsFetch == 2) = true by decide +kernel)
  have hot := meets_of_passes hot_of_isHot
    (show passes soloDeployment.step isHot (soloDeployment.initial 0) lateRun = true by
      decide +kernel)
  have two : s.trace.countP Event.startsFetch = 2 := beq_iff_eq.mp twice
  refine ⟨s, ran, hot, two, fun one => ?_⟩
  have most := one.most
  omega

/-- Where the second request joins the fetch of the first, the page is fetched once. -/
theorem oneFetch_coalescedRun :
    ∃ s, run soloDeployment.step (soloDeployment.initial 0) coalescedRun = some s ∧
      OneFetch s := by
  have runs : (run soloDeployment.step (soloDeployment.initial 0) coalescedRun).isSome = true := by
    decide +kernel
  obtain ⟨s, ran⟩ := Option.isSome_iff_exists.mp runs
  have hot := meets_of_passes hot_of_isHot
    (show passes soloDeployment.step isHot (soloDeployment.initial 0) coalescedRun = true by
      decide +kernel)
  have cold := meets_of_passes acquiresCold_of_isCold
    (show passes soloDeployment.step isCold (soloDeployment.initial 0) coalescedRun = true by
      decide +kernel)
  exact ⟨s, ran, oneFetch_of_run soloDeployment rfl () pageKey ran hot cold⟩

end EdgeCache

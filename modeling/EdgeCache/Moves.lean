import EdgeCache.RequestHandler
import EdgeCache.Lib.Transition

/-!
# What one step of a thread can do

`Move` lists the cases of `advance`: for each, where the thread stands, what it
found, and the whole outcome.  Every invariant of the fleet is derived from this
list (`move_of_advance`) and never unfolds `advance` again.

The rest of the module is the frame of a step.  A step of a thread leaves the
clock, the purges and the other threads alone, and each shared object unless the
outcome writes to it.  `Proper` is the first invariant: a thread stands at the
operations of a cacheable request only if its request is one, and at a
publication only as the leader of a slot.
-/

namespace EdgeCache

variable {ι : Type} [DecidableEq ι]

/-! ## The cases of a step -/

/-- Why a fetch did not succeed: the breaker rejected it, or it came back failed. -/
inductive Failed (D : Deployment ι) (s : State ι) (th : Thread ι) (lead : Lead) :
    Bool → CircuitBreaker → Prop
  | rejected {b : CircuitBreaker} (here : th.pc = .allowRequest lead)
      (refused : (s.breaker th.replica).allowRequest D.limits s.clock = (false, b)) :
      Failed D s th lead true b
  | failed {result : OriginResult} (here : th.pc = .record lead result)
      (notOk : result.ok = false) :
      Failed D s th lead false ((s.breaker th.replica).recordFailure D.limits s.clock)

/-- **The cases of a step** of the thread `t`, with their outcomes. -/
inductive Move (D : Deployment ι) (s : State ι) (t : ℕ) (th : Thread ι) (input : Input) :
    Outcome ι → Prop
  | lookup (here : th.pc = .lookup) : Move D s t th input { pc := .get s.clock }
  | hit {now : ℤ} {e : CacheEntry} {c : ShardedCache} (here : th.pc = .get now)
      (found : (s.cache th.replica).get D.hash (D.key th.req) = (some e, c))
      (fresh : e.isFresh now = true) :
      Move D s t th input
        { pc := .done
          write := .cache c
          events := [.answered t th.replica th.req
            (hitResponse (D.replicaId th.replica) e now) (some now)] }
  | stale {now : ℤ} {e : CacheEntry} {c : ShardedCache} (here : th.pc = .get now)
      (found : (s.cache th.replica).get D.hash (D.key th.req) = (some e, c))
      (aged : e.isFresh now = false) (serveable : e.isServeableStale now = true) :
      Move D s t th input
        { pc := .trigger (staleResponse (D.replicaId th.replica) e), write := .cache c }
  | miss {now : ℤ} {cached : Option CacheEntry} {c : ShardedCache} (here : th.pc = .get now)
      (found : (s.cache th.replica).get D.hash (D.key th.req) = (cached, c))
      (useless : ∀ e ∈ cached, e.isFresh now = false ∧ e.isServeableStale now = false) :
      Move D s t th input { pc := .acquire now cached, write := .cache c }
  | triggerJoin {resp : HttpResponse} {n : ℕ} (here : th.pc = .trigger resp)
      (found : s.inflight th.replica (D.key th.req) = some n) :
      Move D s t th input
        { pc := .done, events := [.answered t th.replica th.req resp none] }
  | triggerLead {resp : HttpResponse} (here : th.pc = .trigger resp)
      (absent : s.inflight th.replica (D.key th.req) = none)
      (unused : s.threads input.child = none) :
      Move D s t th input
        { pc := .done
          write := .enter
          events := [.answered t th.replica th.req resp none,
            .led input.child th.replica (D.key th.req) s.nextSlot]
          child := some (input.child, .allowRequest (.revalidate s.nextSlot)) }
  | join {now : ℤ} {cached : Option CacheEntry} {n : ℕ} (here : th.pc = .acquire now cached)
      (found : s.inflight th.replica (D.key th.req) = some n) :
      Move D s t th input
        { pc := .wait n, events := [.joined t th.replica (D.key th.req) n] }
  | lead {now : ℤ} {cached : Option CacheEntry} (here : th.pc = .acquire now cached)
      (absent : s.inflight th.replica (D.key th.req) = none) :
      Move D s t th input
        { pc := if D.l2Enabled then .l2Get (.miss s.nextSlot now cached)
            else .allowRequest (.miss s.nextSlot now cached)
          write := .enter
          events := [.led t th.replica (D.key th.req) s.nextSlot] }
  | l2Hit {lead : Lead} {blob : ByteString} {entry : CacheEntry} (here : th.pc = .l2Get lead)
      (reached : input.reachable = true)
      (held : s.l2 (D.key th.req) = some blob)
      (decoded : RedisL2Cache.decode blob (RedisL2Cache.nowWallMs s.clock) s.clock = some entry) :
      Move D s t th input { pc := .promote lead entry }
  | l2Miss {lead : Lead} (here : th.pc = .l2Get lead) :
      Move D s t th input { pc := .allowRequest lead }
  | promote {lead : Lead} {entry : CacheEntry} (here : th.pc = .promote lead entry) :
      Move D s t th input
        { pc := .publish lead (some entry.storedAt)
            (l2Response (D.replicaId th.replica) entry) true
          write := .cache ((s.cache th.replica).put D.hash (D.key th.req) entry) }
  | allow {lead : Lead} {b : CircuitBreaker} (here : th.pc = .allowRequest lead)
      (allowed : (s.breaker th.replica).allowRequest D.limits s.clock = (true, b)) :
      Move D s t th input { pc := .fetch lead, write := .breaker b }
  | fetch {lead : Lead} (here : th.pc = .fetch lead) :
      Move D s t th input
        { pc := .fetching lead, events := [.fetchStarted t th.replica th.req] }
  | fetched {lead : Lead} (here : th.pc = .fetching lead) :
      Move D s t th input
        { pc := .record lead input.result
          events := [.fetched t th.replica th.req input.result s.clock] }
  | passFailure {rejected : Bool} {b : CircuitBreaker} (failed : Failed D s th .pass rejected b) :
      Move D s t th input
        { pc := .done
          write := .breaker b
          events := [.answered t th.replica th.req
            (D.failureResponse th .pass rejected) none] }
  | leadFailure {lead : Lead} {rejected : Bool} {b : CircuitBreaker} (role : lead ≠ .pass)
      (failed : Failed D s th lead rejected b) :
      Move D s t th input
        { pc := .publish lead none (D.failureResponse th lead rejected) false
          write := .breaker b }
  | passSuccess {result : OriginResult} (here : th.pc = .record .pass result)
      (ok : result.ok = true) :
      Move D s t th input
        { pc := .done
          write := .breaker (s.breaker th.replica).recordSuccess
          events := [.answered t th.replica th.req
            (D.fetchedResponse th .pass result.response) none] }
  | leadSuccess {lead : Lead} {result : OriginResult} (role : lead ≠ .pass)
      (here : th.pc = .record lead result) (ok : result.ok = true) :
      Move D s t th input
        { pc := .storeTiers lead result.response
          write := .breaker (s.breaker th.replica).recordSuccess }
  | refuse {lead : Lead} {resp : HttpResponse} (here : th.pc = .storeTiers lead resp)
      (refused : D.decision th.req resp = none) :
      Move D s t th input { pc := .publish lead none (D.fetchedResponse th lead resp) true }
  | grant {lead : Lead} {resp : HttpResponse} {d : CacheDecision}
      (here : th.pc = .storeTiers lead resp) (granted : D.decision th.req resp = some d) :
      Move D s t th input
        { pc := .put lead resp (entryFrom resp d s.clock)
          events := [.granted t th.replica th.req resp d s.clock] }
  | put {lead : Lead} {resp : HttpResponse} {entry : CacheEntry}
      (here : th.pc = .put lead resp entry) :
      Move D s t th input
        { pc := D.afterPut th lead resp entry
          write := .cache ((s.cache th.replica).put D.hash (D.key th.req) entry) }
  | l2Put {lead : Lead} {resp : HttpResponse} {entry : CacheEntry} {blob : ByteString}
      (here : th.pc = .l2Put lead resp entry)
      (encoded : RedisL2Cache.encode entry entry.ttlSeconds (RedisL2Cache.nowWallMs s.clock) =
        some blob) :
      Move D s t th input
        { pc := .publish lead none (D.fetchedResponse th lead resp) true
          write := .l2 blob }
  | l2Skip {lead : Lead} {resp : HttpResponse} {entry : CacheEntry}
      (here : th.pc = .l2Put lead resp entry) :
      Move D s t th input { pc := .publish lead none (D.fetchedResponse th lead resp) true }
  | withdraw {lead : Lead} {hit : Option ℤ} {resp : HttpResponse} {success : Bool} {n : ℕ}
      (here : th.pc = .publish lead hit resp success)
      (found : s.inflight th.replica (D.key th.req) = some n) :
      Move D s t th input
        { pc := .fill lead n hit resp success
          write := .withdraw
          events := [.withdrawn t th.replica (D.key th.req) n] }
  | lost {lead : Lead} {hit : Option ℤ} {resp : HttpResponse} {success : Bool}
      (here : th.pc = .publish lead hit resp success)
      (absent : s.inflight th.replica (D.key th.req) = none) :
      Move D s t th input { pc := .done, events := conclude t th lead hit resp }
  | fill {lead : Lead} {n : ℕ} {hit : Option ℤ} {resp : HttpResponse} {success : Bool}
      (here : th.pc = .fill lead n hit resp success) :
      Move D s t th input
        { pc := .done
          write := .fill n resp success
          events := conclude t th lead hit resp ++ [.filled t n resp success] }
  | wait {n : ℕ} (here : th.pc = .wait n) (ready : (s.slots n).ready = true) :
      Move D s t th input { pc := .maybeStore n (s.slots n).response (s.slots n).success }
  | coalescedRefuse {n : ℕ} {resp : HttpResponse} {success : Bool}
      (here : th.pc = .maybeStore n resp success)
      (refused : success = true → D.decision th.req resp = none) :
      Move D s t th input
        { pc := .done
          events := [.answered t th.replica th.req (D.coalescedResponse th resp) none] }
  | coalescedGrant {n : ℕ} {resp : HttpResponse} {d : CacheDecision}
      (here : th.pc = .maybeStore n resp true) (granted : D.decision th.req resp = some d) :
      Move D s t th input
        { pc := .waiterPut n resp (entryFrom resp d s.clock)
          events := [.granted t th.replica th.req resp d s.clock] }
  | waiterPut {n : ℕ} {resp : HttpResponse} {entry : CacheEntry}
      (here : th.pc = .waiterPut n resp entry) :
      Move D s t th input
        { pc := .done
          write := .cache ((s.cache th.replica).put D.hash (D.key th.req) entry)
          events := [.answered t th.replica th.req (D.coalescedResponse th resp) none] }

variable {D : Deployment ι} {s s' : State ι} {t : ℕ} {th : Thread ι} {input : Input}
  {o : Outcome ι}

omit [DecidableEq ι] in
/-- What a failed fetch leads to. -/
theorem move_of_failed {lead : Lead} {rejected : Bool} {b : CircuitBreaker}
    (failed : Failed D s th lead rejected b) :
    Move D s t th input (D.afterFailure t th lead rejected b) := by
  cases lead with
  | pass => exact .passFailure failed
  | miss n now cached => exact .leadFailure (by simp) failed
  | revalidate n => exact .leadFailure (by simp) failed

omit [DecidableEq ι] in
/-- **Every step of a thread is one of the moves.** -/
theorem move_of_advance (taken : D.advance s t th input = some o) : Move D s t th input o := by
  unfold Deployment.advance at taken
  cases here : th.pc with
  | lookup => simp only [here, Option.some.injEq] at taken; exact taken ▸ .lookup here
  | get now =>
      simp only [here, Option.some.injEq] at taken
      subst taken
      cases found : (s.cache th.replica).get D.hash (D.key th.req) with
      | mk cached c =>
          cases cached with
          | none => exact .miss here found (by simp)
          | some e =>
              unfold Deployment.lookedUp
              by_cases fresh : e.isFresh now = true
              · simp only [fresh, if_true]
                exact .hit here found fresh
              · by_cases serveable : e.isServeableStale now = true
                · simp only [fresh, serveable, if_true]
                  exact .stale here found (Bool.eq_false_iff.mpr fresh) serveable
                · simp only [fresh, serveable]
                  exact .miss here found (by simpa using And.intro fresh serveable)
  | trigger resp =>
      simp only [here] at taken
      cases found : s.inflight th.replica (D.key th.req) with
      | some n =>
          simp only [found, Option.some.injEq] at taken
          exact taken ▸ .triggerJoin here found
      | none =>
          simp only [found, Option.isNone_iff_eq_none, Option.ite_none_right_eq_some,
            Option.some.injEq] at taken
          exact taken.2 ▸ .triggerLead here found taken.1
  | acquire now cached =>
      simp only [here] at taken
      cases found : s.inflight th.replica (D.key th.req) with
      | some n =>
          simp only [found, Option.some.injEq] at taken
          exact taken ▸ .join here found
      | none =>
          simp only [found, Option.some.injEq] at taken
          exact taken ▸ .lead here found
  | l2Get lead =>
      simp only [here] at taken
      split at taken
      · rename_i entry decoded
        cases Option.some.inj taken
        obtain ⟨blob, found, read⟩ := Option.bind_eq_some_iff.mp decoded
        rw [Option.ite_none_right_eq_some] at found
        exact .l2Hit here found.1 found.2 read
      · cases Option.some.inj taken
        exact .l2Miss here
  | promote lead entry => simp only [here, Option.some.injEq] at taken; exact taken ▸ .promote here
  | allowRequest lead =>
      simp only [here, Option.some.injEq] at taken
      subst taken
      cases answer : (s.breaker th.replica).allowRequest D.limits s.clock with
      | mk allowed b =>
          cases allowed with
          | true => exact .allow here answer
          | false => exact move_of_failed (.rejected here answer)
  | fetch lead => simp only [here, Option.some.injEq] at taken; exact taken ▸ .fetch here
  | fetching lead => simp only [here, Option.some.injEq] at taken; exact taken ▸ .fetched here
  | record lead result =>
      simp only [here] at taken
      by_cases ok : result.ok = true
      · simp only [ok, if_true] at taken
        cases lead with
        | pass => cases Option.some.inj taken; exact .passSuccess here ok
        | miss n now cached =>
            cases Option.some.inj taken
            exact .leadSuccess (by simp) here ok
        | revalidate n => cases Option.some.inj taken; exact .leadSuccess (by simp) here ok
      · rw [if_neg ok] at taken
        cases Option.some.inj taken
        exact move_of_failed (.failed here (Bool.eq_false_iff.mpr ok))
  | storeTiers lead resp =>
      simp only [here] at taken
      cases decided : D.decision th.req resp with
      | none => simp only [decided, Option.some.injEq] at taken; exact taken ▸ .refuse here decided
      | some d => simp only [decided, Option.some.injEq] at taken; exact taken ▸ .grant here decided
  | put lead resp entry => simp only [here, Option.some.injEq] at taken; exact taken ▸ .put here
  | l2Put lead resp entry =>
      simp only [here, Option.some.injEq] at taken
      subst taken
      split
      · cases encoded : RedisL2Cache.encode entry entry.ttlSeconds
          (RedisL2Cache.nowWallMs s.clock) with
        | none => exact .l2Skip here
        | some blob => exact .l2Put here encoded
      · exact .l2Skip here
  | publish lead hit resp success =>
      simp only [here] at taken
      cases found : s.inflight th.replica (D.key th.req) with
      | some n => simp only [found, Option.some.injEq] at taken; exact taken ▸ .withdraw here found
      | none => simp only [found, Option.some.injEq] at taken; exact taken ▸ .lost here found
  | fill lead n hit resp success =>
      simp only [here, Option.some.injEq] at taken
      exact taken ▸ .fill here
  | wait n =>
      simp only [here, Option.ite_none_right_eq_some, Option.some.injEq] at taken
      exact taken.2 ▸ .wait here taken.1
  | maybeStore n resp success =>
      simp only [here] at taken
      cases decided : if success then D.decision th.req resp else none with
      | none =>
          simp only [decided, Option.some.injEq] at taken
          exact taken ▸ .coalescedRefuse here (by simpa using decided)
      | some d =>
          simp only [decided, Option.some.injEq] at taken
          rw [Option.ite_none_right_eq_some] at decided
          obtain ⟨rfl, granted⟩ := decided
          exact taken ▸ .coalescedGrant here granted
  | waiterPut n resp entry =>
      simp only [here, Option.some.injEq] at taken
      exact taken ▸ .waiterPut here
  | done => simp [here] at taken

/-- **The cases of a step** of the fleet. -/
inductive Turn (D : Deployment ι) (s : State ι) : Action ι → State ι → Prop
  | start {t : ℕ} {i : ι} {req : HttpRequest} (unused : s.threads t = none) :
      Turn D s (.start t i req)
        { s with
          threads := Function.update s.threads t (some ⟨i, req, Deployment.entryPoint req⟩)
          trace := .began t i req :: s.trace }
  | thread {t : ℕ} {input : Input} {th : Thread ι} {o : Outcome ι}
      (running : s.threads t = some th) (move : Move D s t th input o) :
      Turn D s (.step t input) (s.commit (D.key th.req) t th o)
  | purgeStart {p : ℕ} {i : ι} {pattern : ByteString} (unused : s.purges p = none) :
      Turn D s (.purgeStart p i pattern)
        { s with
          purges := Function.update s.purges p (some ⟨i, pattern, 0⟩)
          trace := .purgeBegan p i pattern :: s.trace }
  | purgeShard {p : ℕ} {g : Purge ι} (running : s.purges p = some g)
      (more : g.next < (s.cache g.replica).shards.length) :
      Turn D s (.purgeStep p)
        { s with
          cache := Function.update s.cache g.replica
            ((s.cache g.replica).purgeShard g.next g.pattern)
          purges := Function.update s.purges p (some { g with next := g.next + 1 }) }
  | purgeReturn {p : ℕ} {g : Purge ι} (running : s.purges p = some g)
      (last : g.next = (s.cache g.replica).shards.length) :
      Turn D s (.purgeStep p)
        { s with
          purges := Function.update s.purges p (some { g with next := g.next + 1 })
          trace := .purgeReturned p g.replica g.pattern :: s.trace }
  | sweep {i : ι} {shard : ℕ} :
      Turn D s (.sweep i shard)
        { s with cache := Function.update s.cache i ((s.cache i).sweepShard shard s.clock) }
  | tick {d : ℕ} (bounded : s.clock + d < 2 ^ 63) :
      Turn D s (.tick d) { s with clock := s.clock + d }
  | l2Drop {key : ByteString} :
      Turn D s (.l2Drop key) { s with l2 := Function.update s.l2 key none }

/-- **Every step of the fleet is one of the cases.** -/
theorem turn_of_step {a : Action ι} (taken : D.step s a = some s') : Turn D s a s' := by
  cases a with
  | start t i req =>
      simp only [Deployment.step, Option.isNone_iff_eq_none, Option.ite_none_right_eq_some,
        Option.some.injEq] at taken
      exact taken.2 ▸ .start taken.1
  | step t input =>
      simp only [Deployment.step, Option.bind_eq_some_iff, Option.map_eq_some_iff] at taken
      obtain ⟨th, running, o, advanced, rfl⟩ := taken
      exact .thread running (move_of_advance advanced)
  | purgeStart p i pattern =>
      simp only [Deployment.step, Option.isNone_iff_eq_none, Option.ite_none_right_eq_some,
        Option.some.injEq] at taken
      exact taken.2 ▸ .purgeStart taken.1
  | purgeStep p =>
      simp only [Deployment.step, Option.bind_eq_some_iff] at taken
      obtain ⟨g, running, taken⟩ := taken
      split at taken
      · rename_i more
        cases taken
        exact .purgeShard running more
      · rw [Option.ite_none_right_eq_some, Option.some.injEq] at taken
        exact taken.2 ▸ .purgeReturn running taken.1
  | sweep i shard => cases taken; exact .sweep
  | tick d =>
      simp only [Deployment.step, Option.ite_none_right_eq_some, Option.some.injEq] at taken
      exact taken.2 ▸ .tick taken.1
  | l2Drop key => cases taken; exact .l2Drop

/-- Looking up a map one of whose entries was set. -/
theorem update_eq_some {α β : Type} [DecidableEq α] {f : α → Option β} {a x : α} {b y : β}
    (found : Function.update f a (some b) x = some y) :
    (x = a ∧ y = b) ∨ (x ≠ a ∧ f x = some y) := by
  by_cases here : x = a
  · subst here
    rw [Function.update_self, Option.some.injEq] at found
    exact Or.inl ⟨rfl, found.symm⟩
  · rw [Function.update_of_ne here] at found
    exact Or.inr ⟨here, found⟩

/-! ## The frame of a step -/

section Frame

variable {key : ByteString}

@[simp] theorem apply_clock (i : ι) (w : Write) : (s.apply i key w).clock = s.clock := by
  cases w <;> rfl

@[simp] theorem apply_purges (i : ι) (w : Write) : (s.apply i key w).purges = s.purges := by
  cases w <;> rfl

@[simp] theorem commit_clock : (s.commit key t th o).clock = s.clock := apply_clock _ _

@[simp] theorem commit_purges : (s.commit key t th o).purges = s.purges := apply_purges _ _

@[simp] theorem commit_trace : (s.commit key t th o).trace = o.events ++ s.trace := rfl

@[simp] theorem commit_cache :
    (s.commit key t th o).cache = (s.apply th.replica key o.write).cache := rfl

@[simp] theorem commit_inflight :
    (s.commit key t th o).inflight = (s.apply th.replica key o.write).inflight := rfl

@[simp] theorem commit_slots :
    (s.commit key t th o).slots = (s.apply th.replica key o.write).slots := rfl

@[simp] theorem commit_owner :
    (s.commit key t th o).owner = (s.apply th.replica key o.write).owner := rfl

@[simp] theorem commit_nextSlot :
    (s.commit key t th o).nextSlot = (s.apply th.replica key o.write).nextSlot := rfl

@[simp] theorem commit_breaker :
    (s.commit key t th o).breaker = (s.apply th.replica key o.write).breaker := rfl

@[simp] theorem commit_l2 :
    (s.commit key t th o).l2 = (s.apply th.replica key o.write).l2 := rfl

/-- The threads after a step: the one that moved, the one it started, the others. -/
theorem threads_commit {u : ℕ} {uh : Thread ι}
    (found : (s.commit key t th o).threads u = some uh) :
    (u = t ∧ uh = { th with pc := o.pc }) ∨
      (∃ pc, o.child = some (u, pc) ∧ uh = { th with pc := pc }) ∨
      (u ≠ t ∧ s.threads u = some uh) := by
  change State.spawn _ th o.child u = some uh at found
  cases born : o.child with
  | none =>
      rw [born, State.spawn] at found
      exact (update_eq_some found).imp_right Or.inr
  | some child =>
      obtain ⟨v, pc⟩ := child
      rw [born, State.spawn] at found
      rcases update_eq_some found with ⟨rfl, rfl⟩ | ⟨-, old⟩
      · exact Or.inr (Or.inl ⟨pc, rfl, rfl⟩)
      · exact (update_eq_some old).imp_right Or.inr

/-- The threads after a step that starts none. -/
theorem threads_commit_of_childless {u : ℕ} {uh : Thread ι} (child : o.child = none)
    (found : (s.commit key t th o).threads u = some uh) :
    (u = t ∧ uh = { th with pc := o.pc }) ∨ (u ≠ t ∧ s.threads u = some uh) := by
  rcases threads_commit found with moved | ⟨pc, born, -⟩ | old
  · exact Or.inl moved
  · rw [child] at born
    cases born
  · exact Or.inr old

/-- A childless step starts no other thread. -/
theorem absent_commit {u : ℕ} (child : o.child = none) (apart : u ≠ t)
    (absent : s.threads u = none) : (s.commit key t th o).threads u = none := by
  refine Option.eq_none_iff_forall_ne_some.mpr fun uh found => ?_
  rcases threads_commit_of_childless child found with ⟨here, -⟩ | ⟨-, before⟩
  · exact apart here
  · rw [absent] at before
    cases before

omit [DecidableEq ι] in
/-- A thread that is started has an identity of its own. -/
theorem child_unused {u : ℕ} {pc : Pc} (move : Move D s t th input o)
    (born : o.child = some (u, pc)) : s.threads u = none := by
  cases move <;> simp_all

/-- The thread that moved is at its next operation. -/
theorem threads_commit_self (move : Move D s t th input o) (running : s.threads t = some th) :
    (s.commit key t th o).threads t = some { th with pc := o.pc } := by
  change State.spawn _ th o.child t = _
  cases born : o.child with
  | none => exact Function.update_self ..
  | some child =>
      obtain ⟨v, pc⟩ := child
      have apart : t ≠ v := fun same => by
        rw [← same] at born
        rw [child_unused move born] at running
        cases running
      exact (Function.update_of_ne apart ..).trans (Function.update_self ..)

/-- The other threads do not move. -/
theorem threads_commit_of_ne {u : ℕ} {uh : Thread ι} (move : Move D s t th input o)
    (running : s.threads u = some uh) (apart : u ≠ t) :
    (s.commit key t th o).threads u = some uh := by
  change State.spawn _ th o.child u = _
  cases born : o.child with
  | none => exact (Function.update_of_ne apart ..).trans running
  | some child =>
      obtain ⟨v, pc⟩ := child
      have other : u ≠ v := fun same => by
        rw [← same] at born
        rw [child_unused move born] at running
        cases running
      exact (Function.update_of_ne other ..).trans
        ((Function.update_of_ne apart ..).trans running)

end Frame

/-- **The rule for what holds of every thread**: it holds of a thread that is
started, and a move keeps it and hands it to the thread it starts. -/
theorem threads_step {P : ℕ → Thread ι → Prop} {a : Action ι} (taken : D.step s a = some s')
    (started : ∀ t i req, a = .start t i req → P t ⟨i, req, Deployment.entryPoint req⟩)
    (moved : ∀ t th input o, a = .step t input → s' = s.commit (D.key th.req) t th o →
      s.threads t = some th → Move D s t th input o → P t th → P t { th with pc := o.pc } ∧
        ∀ u pc, o.child = some (u, pc) → P u { th with pc := pc })
    (before : ∀ t th, s.threads t = some th → P t th) :
    ∀ t th, s'.threads t = some th → P t th := by
  cases turn_of_step taken with
  | @start t i req unused =>
      intro u uh running
      rcases update_eq_some running with ⟨rfl, rfl⟩ | ⟨-, old⟩
      · exact started u i req rfl
      · exact before u uh old
  | @thread t input th o found move =>
      have next := moved t th input o rfl rfl found move (before t th found)
      intro u uh running
      rcases threads_commit running with ⟨rfl, rfl⟩ | ⟨pc, born, rfl⟩ | ⟨-, old⟩
      · exact next.1
      · exact next.2 u pc born
      · exact before u uh old
  | _ => exact before

/-! ## What only grows -/

/-- A thread keeps its replica and its request. -/
def Persists (s s' : State ι) : Prop :=
  s.trace <:+ s'.trace ∧ s.clock ≤ s'.clock ∧
    ∀ t th, s.threads t = some th →
      ∃ pc, s'.threads t = some { th with pc := pc }

theorem persists_commit {key : ByteString} (move : Move D s t th input o)
    (running : s.threads t = some th) : Persists s (s.commit key t th o) := by
  refine ⟨List.suffix_append _ _, by rw [commit_clock], fun u uh before => ?_⟩
  by_cases here : u = t
  · subst here
    rw [running, Option.some.injEq] at before
    exact ⟨o.pc, before ▸ threads_commit_self move running⟩
  · exact ⟨uh.pc, threads_commit_of_ne move before here⟩

theorem persists_step {a : Action ι} (taken : D.step s a = some s') : Persists s s' := by
  cases turn_of_step taken with
  | start unused =>
      refine ⟨List.suffix_cons _ _, le_rfl, fun u uh running => ⟨uh.pc, ?_⟩⟩
      have apart : u ≠ _ := fun same => by
        rw [same, unused] at running
        cases running
      exact (Function.update_of_ne apart ..).trans running
  | thread running move => exact persists_commit move running
  | tick bounded =>
      exact ⟨List.suffix_refl _, Nat.le_add_right _ _, fun u uh running => ⟨uh.pc, running⟩⟩
  | purgeStart unused =>
      exact ⟨List.suffix_cons _ _, le_rfl, fun u uh running => ⟨uh.pc, running⟩⟩
  | purgeReturn running last =>
      exact ⟨List.suffix_cons _ _, le_rfl, fun u uh running => ⟨uh.pc, running⟩⟩
  | purgeShard running more =>
      exact ⟨List.suffix_refl _, le_rfl, fun u uh running => ⟨uh.pc, running⟩⟩
  | sweep => exact ⟨List.suffix_refl _, le_rfl, fun u uh running => ⟨uh.pc, running⟩⟩
  | l2Drop => exact ⟨List.suffix_refl _, le_rfl, fun u uh running => ⟨uh.pc, running⟩⟩

/-- **Along a run** the trace and the clock grow, and threads persist. -/
theorem persists_of_steps {guard : State ι → Action ι → Prop}
    (run : Transition.Steps D.step guard s s') : Persists s s' := by
  refine run.rel (fun s => ⟨List.suffix_refl _, le_rfl, fun u uh running => ⟨uh.pc, running⟩⟩)
    ?_ fun _ _ _ _ taken => persists_step taken
  rintro r s s' ⟨trace, clock, threads⟩ ⟨trace', clock', threads'⟩
  refine ⟨trace.trans trace', clock.trans clock', fun u uh running => ?_⟩
  obtain ⟨pc, running⟩ := threads u uh running
  obtain ⟨pc, running⟩ := threads' u _ running
  exact ⟨pc, running⟩

/-- A thread that is not there at the end of a run has not been there before. -/
theorem absent_of_steps {guard : State ι → Action ι → Prop} {t : ℕ}
    (run : Transition.Steps D.step guard s s') (absent : s'.threads t = none) :
    s.threads t = none := by
  rw [Option.eq_none_iff_forall_ne_some] at absent ⊢
  intro th running
  obtain ⟨pc, running⟩ := (persists_of_steps run).2.2 t th running
  exact absent _ running

/-- What is in the trace stays there. -/
theorem mem_trace_of_steps {guard : State ι → Action ι → Prop} {e : Event ι}
    (run : Transition.Steps D.step guard s s') (mem : e ∈ s.trace) : e ∈ s'.trace :=
  (persists_of_steps run).1.subset mem

/-! ## Where a thread can stand -/

/-- The role in which a thread fetches or publishes. -/
def Pc.lead? : Pc → Option Lead
  | .l2Get lead | .promote lead _ | .allowRequest lead | .fetch lead | .fetching lead
  | .record lead _ | .storeTiers lead _ | .put lead _ _ | .l2Put lead _ _
  | .publish lead _ _ _ | .fill lead _ _ _ _ => some lead
  | _ => none

/-- **Where a thread with the given request can stand**: fetching in the role its
method asks for, and elsewhere only with a cacheable method, as the leader of a
slot if it stores or publishes. -/
def Pc.Proper (req : HttpRequest) : Pc → Prop
  | .allowRequest lead | .fetch lead | .fetching lead | .record lead _ =>
      lead = .pass ↔ req.isCacheableMethod = false
  | .l2Get lead | .promote lead _ | .storeTiers lead _ | .put lead _ _ | .l2Put lead _ _
  | .publish lead _ _ _ | .fill lead _ _ _ _ => lead ≠ .pass ∧ req.isCacheableMethod = true
  | .done => True
  | _ => req.isCacheableMethod = true

/-- Every thread stands where its request allows. -/
def AllProper (s : State ι) : Prop := ∀ t th, s.threads t = some th → th.pc.Proper th.req

omit [DecidableEq ι] in
/-- A fetch fails where the role asks for one. -/
theorem Failed.proper {lead : Lead} {rejected : Bool} {b : CircuitBreaker}
    (failed : Failed D s th lead rejected b) (proper : th.pc.Proper th.req) :
    lead = .pass ↔ th.req.isCacheableMethod = false := by
  cases failed with
  | rejected here _ => simpa only [here, Pc.Proper] using proper
  | failed here _ => simpa only [here, Pc.Proper] using proper

omit [DecidableEq ι] in
/-- A move leads from a proper place to proper places. -/
theorem proper_of_move (move : Move D s t th input o) (proper : th.pc.Proper th.req) :
    o.pc.Proper th.req ∧ ∀ u pc, o.child = some (u, pc) → pc.Proper th.req := by
  cases move with
  | lead here absent =>
      rw [here] at proper
      by_cases l2 : D.l2Enabled = true <;> simp_all [Pc.Proper]
  | put here =>
      rw [here] at proper
      by_cases l2 : D.l2Enabled = true <;> simp_all [Pc.Proper, Deployment.afterPut]
  | leadFailure role failed =>
      have cacheable := (failed.proper proper).not.mp role
      simp_all [Pc.Proper]
  | _ => simp_all [Pc.Proper]

/-- A step of a thread keeps every thread in its place. -/
theorem allProper_commit {key : ByteString} (proper : AllProper s)
    (running : s.threads t = some th) (move : Move D s t th input o) :
    AllProper (s.commit key t th o) := by
  have places := proper_of_move move (proper t th running)
  intro u uh found
  rcases threads_commit found with ⟨-, rfl⟩ | ⟨pc, born, rfl⟩ | ⟨-, before⟩
  · exact places.1
  · exact places.2 u pc born
  · exact proper u uh before

/-- Every step keeps every thread in its place. -/
theorem allProper_step {a : Action ι} (taken : D.step s a = some s') (before : AllProper s) :
    AllProper s' := by
  refine threads_step taken (fun t i req _ => ?_) (fun t th input o _ _ _ move proper => ?_) before
  · unfold Deployment.entryPoint
    split <;> simp_all [Pc.Proper]
  · have next := proper_of_move move proper
    exact next

/-! ## The copy a leader could fall back on -/

/-- A lookup found nothing that may be served stale at the time it was made. -/
def Lead.Hopeless : Lead → Prop
  | .miss _ now cached => ∀ e ∈ cached, e.isServeableStale now = false
  | _ => True

/-- **A thread that gets past its lookup has nothing to fall back on**: what could
be served stale has been served. -/
def Pc.Hopeless : Pc → Prop
  | .acquire now cached => ∀ e ∈ cached, e.isServeableStale now = false
  | pc => ∀ lead ∈ pc.lead?, lead.Hopeless

/-- No thread has anything to fall back on. -/
def AllHopeless (s : State ι) : Prop := ∀ t th, s.threads t = some th → th.pc.Hopeless

omit [DecidableEq ι] in
theorem Failed.hopeless {lead : Lead} {rejected : Bool} {b : CircuitBreaker}
    (failed : Failed D s th lead rejected b) (hopeless : th.pc.Hopeless) : lead.Hopeless := by
  cases failed with
  | rejected here _ => rw [here] at hopeless; exact hopeless lead rfl
  | failed here _ => rw [here] at hopeless; exact hopeless lead rfl

omit [DecidableEq ι] in
theorem hopeless_of_move (move : Move D s t th input o) (hopeless : th.pc.Hopeless) :
    o.pc.Hopeless ∧ ∀ u pc, o.child = some (u, pc) → pc.Hopeless := by
  cases move with
  | miss here found useless => exact ⟨fun e mem => (useless e mem).2, by simp⟩
  | lead here absent =>
      rw [here] at hopeless
      by_cases l2 : D.l2Enabled = true <;> simp_all [Pc.Hopeless, Pc.lead?, Lead.Hopeless]
  | put here =>
      rw [here] at hopeless
      by_cases l2 : D.l2Enabled = true <;>
        simp_all [Pc.Hopeless, Pc.lead?, Deployment.afterPut]
  | leadFailure role failed =>
      have none := failed.hopeless hopeless
      simp_all [Pc.Hopeless, Pc.lead?]
  | _ => simp_all [Pc.Hopeless, Pc.lead?, Lead.Hopeless]

omit [DecidableEq ι] in
theorem allHopeless_initial (clock : ℕ) : AllHopeless (D.initial clock) :=
  fun t th running => by cases running

theorem allHopeless_step {a : Action ι} (taken : D.step s a = some s') (before : AllHopeless s) :
    AllHopeless s' := by
  refine threads_step taken (fun t i req _ => ?_) (fun t th input o _ _ _ move hopeless => ?_) before
  · unfold Deployment.entryPoint
    split <;> simp [Pc.Hopeless, Pc.lead?, Lead.Hopeless]
  · have next := hopeless_of_move move hopeless
    exact next

theorem allHopeless_of_steps {guard : State ι → Action ι → Prop} {clock : ℕ}
    (run : Transition.Steps D.step guard (D.initial clock) s) : AllHopeless s :=
  run.invariant (fun _ _ _ _ taken => allHopeless_step taken) (allHopeless_initial clock)

omit [DecidableEq ι] in
/-- **A failed leader answers an error**: the branch that answers a stale copy is
never taken. -/
theorem failureResponse_of_hopeless {lead : Lead} (hopeless : lead.Hopeless) (rejected : Bool) :
    D.failureResponse th lead rejected =
      match lead with
      | .pass => decorate (D.replicaId th.replica) (errorResponse rejected) (bytes "PASS") []
      | .miss _ _ _ => decorate (D.replicaId th.replica) (errorResponse rejected) (bytes "MISS") []
      | .revalidate _ => HttpResponse.default := by
  cases lead with
  | miss n now cached =>
      cases cached with
      | none => rfl
      | some e => simp [Deployment.failureResponse, hopeless e rfl]
  | _ => rfl

end EdgeCache

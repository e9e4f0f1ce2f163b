import EdgeCache.Provenance
import EdgeCache.Threads

/-!
# Cached answers

A request that finds its page in L1, fresh or still within its stale-while-revalidate window, is
answered from L1 whatever L2, the breaker, the registry and the origin are doing.  After the lookup
the thread has the answer in hand.  A stale answer is given after one more operation, the `acquire`
of `triggerRevalidation`, which never waits: either the key is being fetched already, or a new
thread is started to fetch it.

So the statements here are about an arbitrary state, reachable or not, and about everything that
can happen after the lookup (`cached_served`).
-/

namespace EdgeCache

variable {ι : Type} [DecidableEq ι] {D : Deployment ι} {guard : State ι → Action ι → Prop}
  {start final s s' s'' : State ι} {t : ℕ} {i : ι} {req : HttpRequest} {resp : HttpResponse}

open Transition

/-! ## What is answered -/

/-- What `process` answers from L1. -/
def cachedResponse (replicaId : ByteString) (e : CacheEntry) (now : ℤ) : HttpResponse :=
  if e.isFresh now then hitResponse replicaId e now else staleResponse replicaId e

/-- **The response serves the entry**: only the mark, the replica and, where the entry is fresh, the
age are the proxy's. -/
structure Serves (replicaId : ByteString) (e : CacheEntry) (now : ℤ) (resp : HttpResponse) :
    Prop where
  status : resp.status = e.status
  reason : resp.reason = e.reason
  body : resp.body = e.body
  xcache : resp.headers.find? (bytes "X-Cache") =
    some (if e.isFresh now then bytes "HIT" else bytes "STALE")
  replica : resp.headers.find? (bytes "X-EdgeCache-Replica") = some replicaId
  age : e.isFresh now = true →
    resp.headers.find? (bytes "Age") = some (intToString ((now - e.storedAt).tdiv second))
  others : ∀ name, lower name ≠ lower (bytes "X-Cache") →
    lower name ≠ lower (bytes "X-EdgeCache-Replica") →
    (e.isFresh now = true → lower name ≠ lower (bytes "Age")) →
    resp.headers.find? name = e.headers.find? name

/-- The headers of a response that is decorated without a reason. -/
theorem find?_decorate_plain (id xcache name : ByteString) (resp : HttpResponse) :
    (decorate id resp xcache []).headers.find? name =
      if lower (bytes "X-EdgeCache-Replica") = lower name then some id
      else if lower (bytes "X-Cache") = lower name then some xcache
      else resp.headers.find? name := by
  rw [find?_decorate, if_neg (fun named => named.1 rfl)]

/-- **What is answered from L1 serves the entry.** -/
theorem serves_cachedResponse (id : ByteString) (e : CacheEntry) (now : ℤ) :
    Serves id e now (cachedResponse id e now) := by
  by_cases fresh : e.isFresh now = true
  · rw [cachedResponse, if_pos fresh, hitResponse]
    exact
      { status := decorate_status ..
        reason := decorate_reason ..
        body := decorate_body ..
        xcache := by rw [find?_decorate_plain, if_neg (by decide), if_pos rfl, if_pos fresh]
        replica := by rw [find?_decorate_plain, if_pos rfl]
        age := fun _ => by
          rw [find?_decorate_plain, if_neg (by decide), if_neg (by decide)]
          exact Headers.find?_insert_self ..
        others := fun name xcache replica age => by
          rw [find?_decorate_plain, if_neg replica.symm, if_neg xcache.symm]
          exact Headers.find?_insert_of_ne _ _ (age fresh).symm }
  · rw [cachedResponse, if_neg fresh, staleResponse]
    exact
      { status := decorate_status ..
        reason := decorate_reason ..
        body := decorate_body ..
        xcache := by rw [find?_decorate_plain, if_neg (by decide), if_pos rfl, if_neg fresh]
        replica := by rw [find?_decorate_plain, if_pos rfl]
        age := fun other => absurd other fresh
        others := fun name xcache replica _ => by
          rw [find?_decorate_plain, if_neg replica.symm, if_neg xcache.symm]
          rfl }

/-! ## After the lookup -/

/-- **Since the state `s` the thread has done nothing but answer `resp`**, or has yet to do so and
holds the answer. -/
def Answering (s s' : State ι) (t : ℕ) (i : ι) (req : HttpRequest) (resp : HttpResponse) : Prop :=
  ∃ new, s'.trace = new ++ s.trace ∧
    (∀ ev ∈ new, ev.actor = some t → ∃ hit, ev = .answered t i req resp hit) ∧
    (s'.threads t = some ⟨i, req, .trigger resp⟩ ∨
      (s'.threads t = some ⟨i, req, .done⟩ ∧ ∃ hit, .answered t i req resp hit ∈ new))

omit [DecidableEq ι] in
/-- A thread that is done makes no move. -/
theorem Move.ne_done {th : Thread ι} {input : Input} {o : Outcome ι}
    (move : Move D s t th input o) : th.pc ≠ .done := by
  intro done
  cases move with
  | passFailure failed => cases failed <;> simp_all
  | leadFailure role failed => cases failed <;> simp_all
  | _ => simp_all

/-- The lookup answers, or leaves the thread with the answer in hand. -/
theorem answering_of_get {now : ℤ} {e : CacheEntry} {c : ShardedCache}
    (running : s.threads t = some ⟨i, req, .get now⟩)
    (found : (s.cache i).get D.hash (D.key req) = (some e, c))
    (useful : e.isFresh now = true ∨ e.isServeableStale now = true) (input : Input) :
    ∃ s', D.step s (.step t input) = some s' ∧
      Answering s s' t i req (cachedResponse (D.replicaId i) e now) := by
  have looks : D.advance s t ⟨i, req, .get now⟩ input =
      some (D.lookedUp t ⟨i, req, .get now⟩ now (some e) c) := by
    simp only [Deployment.advance, found]
  have stands : (s.commit (D.key req) t ⟨i, req, .get now⟩
      (D.lookedUp t ⟨i, req, .get now⟩ now (some e) c)).threads t =
        some ⟨i, req, (D.lookedUp t ⟨i, req, .get now⟩ now (some e) c).pc⟩ :=
    threads_commit_self (move_of_advance looks) running
  refine ⟨_, step_of_advance running looks, ?_⟩
  unfold cachedResponse
  unfold Deployment.lookedUp at stands ⊢
  by_cases fresh : e.isFresh now = true
  · simp only [fresh, if_true] at stands ⊢
    exact ⟨_, rfl, fun ev mem _ => ⟨some now, List.mem_singleton.mp mem⟩,
      Or.inr ⟨stands, some now, List.mem_singleton_self _⟩⟩
  · have serveable := useful.resolve_left fresh
    simp only [fresh, serveable, if_true, if_false, Bool.false_eq_true] at stands ⊢
    exact ⟨[], rfl, fun ev mem => (by cases mem), Or.inl stands⟩

omit [DecidableEq ι] in
/-- The thread that holds the answer gives it in its next step, whatever is in flight. -/
theorem done_of_trigger {input : Input} {th : Thread ι} {o : Outcome ι}
    (running : s.threads t = some th) (here : th.pc = .trigger resp) (move : Move D s t th input o) :
    o.pc = .done ∧ .answered t th.replica th.req resp none ∈ o.events ∧
      ∀ ev ∈ o.events, ev.actor = some t → ev = .answered t th.replica th.req resp none := by
  cases move with
  | triggerJoin here' found =>
      rw [here, Pc.trigger.injEq] at here'
      subst here'
      exact ⟨rfl, List.mem_singleton_self _, fun ev mem _ => List.mem_singleton.mp mem⟩
  | triggerLead here' absent unused =>
      rw [here, Pc.trigger.injEq] at here'
      subst here'
      refine ⟨rfl, List.mem_cons_self, fun ev mem mine => ?_⟩
      rw [List.mem_cons, List.mem_singleton] at mem
      rcases mem with answer | rfl
      · exact answer
      · -- The thread that is started is a new one.
        rw [Event.actor, Option.some.injEq] at mine
        rw [mine, running] at unused
        cases unused
  | passFailure failed => cases failed <;> simp_all
  | leadFailure role failed => cases failed <;> simp_all
  | _ => simp_all

/-- **No step of the fleet comes between a thread and its answer.** -/
theorem answering_step {a : Action ι} (taken : D.step s' a = some s'')
    (before : Answering s s' t i req resp) : Answering s s'' t i req resp := by
  obtain ⟨new, grown, own, stands⟩ := before
  have other : ∀ {th : Thread ι}, s''.threads t = some th →
      (∃ more, s''.trace = more ++ s'.trace ∧ ∀ ev ∈ more, ev.actor ≠ some t) →
      s'.threads t = some th → Answering s s'' t i req resp := by
    rintro th still ⟨more, grown', silent⟩ was
    refine ⟨more ++ new, by rw [grown', grown, List.append_assoc], fun ev mem mine => ?_, ?_⟩
    · rcases List.mem_append.mp mem with later | earlier
      · exact absurd mine (silent ev later)
      · exact own ev earlier mine
    · rw [still, ← was]
      exact stands.imp_right fun ⟨done, hit, answered⟩ =>
        ⟨done, hit, List.mem_append_right _ answered⟩
  rcases stands with running | ⟨running, hit, answered⟩
  · rcases own_or_other taken running with ⟨input, o, -, move, rfl⟩ | ⟨still, silent⟩
    · obtain ⟨done, answer, only⟩ := done_of_trigger running rfl move
      refine ⟨o.events ++ new, by rw [commit_trace, grown, List.append_assoc],
        fun ev mem mine => ?_, Or.inr ⟨?_, none, List.mem_append_left _ answer⟩⟩
      · rcases List.mem_append.mp mem with later | earlier
        · exact ⟨none, only ev later mine⟩
        · exact own ev earlier mine
      · rw [threads_commit_self move running, done]
    · exact other still silent running
  · rcases own_or_other taken running with ⟨input, o, -, move, -⟩ | ⟨still, silent⟩
    · exact absurd rfl move.ne_done
    · exact other still silent running

theorem answering_of_steps (run : Steps D.step guard s' s'')
    (before : Answering s s' t i req resp) : Answering s s'' t i req resp := by
  induction run with
  | refl => exact before
  | tail front last ih =>
      obtain ⟨a, -, taken⟩ := last
      exact answering_step taken ih

/-- The operation between a stale answer and its client never waits. -/
theorem exists_step_of_trigger {input : Input} (running : s.threads t = some ⟨i, req, .trigger resp⟩)
    (unused : s.threads input.child = none) :
    ∃ s', D.step s (.step t input) = some s' ∧ s'.threads t = some ⟨i, req, .done⟩ := by
  have advances : (D.advance s t ⟨i, req, .trigger resp⟩ input).isSome = true := by
    cases found : s.inflight i (D.key req) with
    | none => simp [Deployment.advance, found, unused]
    | some n => simp [Deployment.advance, found]
  obtain ⟨o, advanced⟩ := Option.isSome_iff_exists.mp advances
  have move := move_of_advance advanced
  refine ⟨_, step_of_advance running advanced, ?_⟩
  rw [threads_commit_self move running, (done_of_trigger running rfl move).1]

/-! ## Server errors -/

/-- The statements of the statuses: no server error is stored. -/
def statuses (ι : Type) : Labels ι where
  Entry _ _ e := e.status < 500
  Blob _ blob := ∀ wallMs now e, RedisL2Cache.decode blob wallMs now = some e → e.status < 500
  Own _ _ _ _ := True
  Slot _ _ _ _ _ := True
  Answer _ _ _ _ _ := True

omit [DecidableEq ι] in
theorem statuses_published {th : Thread ι} {lead : Lead} {n : ℕ} {hit : Option ℤ} {success : Bool} :
    (statuses ι).Published D t th lead n hit resp success :=
  Labels.published_of_slot trivial fun _ => trivial

omit [DecidableEq ι] in
/-- What may be stored is no server error. -/
theorem status_of_decision (refuses : D.policy.RefusesErrors) {d : CacheDecision}
    (granted : D.decision req resp = some d) : resp.status < 500 := by
  refine refuses req.path resp ?_
  by_contra refused
  simp [Deployment.decision, refused] at granted

/-- **The statuses are closed** where the policy refuses server errors. -/
theorem statuses_closed (refuses : D.policy.RefusesErrors) :
    (statuses ι).Closed D guard start final where
  hit _ _ _ _ := trivial
  stale _ _ := trivial
  decoded _ _ _ _ held got := ⟨held _ _ _ got, fun n _ => statuses_published⟩
  fetched _ _ _ _ := trivial
  pass _ _ := trivial
  passFailure _ _ := trivial
  failure _ _ _ _ := statuses_published
  success _ _ _ _ _ _ := statuses_published
  entry _ _ _ granted _ := status_of_decision refuses granted
  encoded _ _ entry put wallMs now e got := by
    obtain ⟨-, rfl⟩ := RedisL2Cache.decode_of_encode put got
    exact entry
  placeholder _ _ _ _ := trivial
  coalesced _ _ _ _ := trivial
  waiterEntry _ _ _ _ granted _ := status_of_decision refuses granted

/-- No server error is ever in L1. -/
theorem status_of_holds (refuses : D.policy.RefusesErrors) {clock : ℕ} {k : ByteString}
    {e : CacheEntry} (run : Steps D.step guard (D.initial clock) s)
    (held : (s.cache i).Holds D.hash k e) : e.status < 500 :=
  (flow_of_run (statuses_closed refuses) run).cache i k e held

/-! ## Serving from L1 -/

/-- **What L1 holds is served whatever everything else is doing**: in any state in which a lookup
finds an entry that is fresh or within its window, it serves that entry.  Neither the lookup nor
the operation after it ever waits, and whatever happens, the thread does nothing but answer.  With
a policy that refuses server errors, the answer is none. -/
theorem cached_served (D : Deployment ι) {now : ℤ} {e : CacheEntry} {c : ShardedCache}
    (running : s.threads t = some ⟨i, req, .get now⟩)
    (found : (s.cache i).get D.hash (D.key req) = (some e, c))
    (useful : e.isFresh now = true ∨ e.isServeableStale now = true) :
    Serves (D.replicaId i) e now (cachedResponse (D.replicaId i) e now) ∧
      (∀ input, ∃ s', D.step s (.step t input) = some s') ∧
      (∀ input s' s'', D.step s (.step t input) = some s' →
        Steps D.step (fun _ _ => True) s' s'' →
        Answering s s'' t i req (cachedResponse (D.replicaId i) e now) ∧
          ∀ input resp, s''.threads t = some ⟨i, req, .trigger resp⟩ →
            s''.threads input.child = none →
            ∃ s₃, D.step s'' (.step t input) = some s₃ ∧ s₃.threads t = some ⟨i, req, .done⟩) ∧
      (D.policy.RefusesErrors →
        ∀ clock, Steps D.step (fun _ _ => True) (D.initial clock) s →
          e.status ≠ 502 ∧ e.status ≠ 503) := by
  refine ⟨serves_cachedResponse .., fun input => ?_, fun input s' s'' taken run => ⟨?_, ?_⟩,
    fun refuses clock run => ?_⟩
  · obtain ⟨s', taken, -⟩ := answering_of_get running found useful input
    exact ⟨s', taken⟩
  · obtain ⟨s₁, taken', answering⟩ := answering_of_get running found useful input
    rw [taken, Option.some.injEq] at taken'
    subst taken'
    exact answering_of_steps run answering
  · exact fun input resp holds unused => exists_step_of_trigger holds unused
  · have small := status_of_holds refuses run
      (ShardedCache.get_eq_some_iff.mp (congrArg Prod.fst found))
    constructor
    · intro same
      rw [same] at small
      exact absurd small (by decide)
    · intro same
      rw [same] at small
      exact absurd small (by decide)

/-- A page is cached, and its revalidation has been started when it is asked for once more; the
origin is down. -/
def revalidatingRun : List (Action Unit) :=
  [.start 0 () (getRequest (bytes "/a"))] ++
    steps 11 0 (okInput (bytes "ETag") (bytes "1") (bytes "x")) ++
    [.tick 1500000000, .start 1 () (getRequest (bytes "/a"))] ++ steps 3 1 failInput ++
    [.start 2 () (getRequest (bytes "/a"))] ++ steps 1 2 failInput

/-- Whether the last request is about to find the page, stale, while its key is being fetched. -/
def findsStale (s : State Unit) : Bool :=
  ((s.threads 2).any fun th => th.req = getRequest (bytes "/a") ∧ th.pc = .get 1500000000) &&
    (((s.cache ()).get staleDeployment.hash
        (staleDeployment.key (getRequest (bytes "/a")))).1.any fun e =>
      e.isFresh 1500000000 = false ∧ e.isServeableStale 1500000000 = true ∧ e.body = bytes "x") &&
    (s.inflight () (staleDeployment.key (getRequest (bytes "/a")))).isSome

/-- The page is served stale while it is being fetched from an origin that is down. -/
theorem cached_served_revalidatingRun :
    ∃ s e, run staleDeployment.step (staleDeployment.initial 0) revalidatingRun = some s ∧
      e.body = bytes "x" ∧ e.status ≠ 502 ∧ e.status ≠ 503 ∧
      ∀ s' s'', staleDeployment.step s (.step 2 failInput) = some s' →
        Steps staleDeployment.step (fun _ _ => True) s' s'' →
        Answering s s'' 2 () (getRequest (bytes "/a")) (staleResponse (bytes "r1") e) := by
  obtain ⟨s, ran, finds⟩ := exists_of_run
    (show (run staleDeployment.step (staleDeployment.initial 0) revalidatingRun).any
      findsStale = true by decide +kernel)
  rw [findsStale, Bool.and_eq_true, Bool.and_eq_true, Option.any_eq_true, Option.any_eq_true] at finds
  obtain ⟨⟨⟨th, running, here⟩, e, found, stale⟩, -⟩ := finds
  obtain ⟨same, place⟩ := of_decide_eq_true here
  obtain ⟨aged, serveable, body⟩ := of_decide_eq_true stale
  obtain ⟨replica, req, pc⟩ := th
  obtain rfl : req = getRequest (bytes "/a") := same
  obtain rfl : pc = .get 1500000000 := place
  obtain ⟨-, -, served, sound⟩ := cached_served staleDeployment running
    (Prod.ext found rfl) (Or.inr serveable)
  obtain ⟨no502, no503⟩ := sound (RuleOverridePolicy.refusesErrors _ _) 0
    (.of_run (meets_true ..) ran)
  refine ⟨s, e, ran, body, no502, no503, fun s' s'' taken steps => ?_⟩
  have answering := (served failInput s' s'' taken steps).1
  rw [cachedResponse, if_neg (Bool.eq_false_iff.mp aged)] at answering
  exact answering

end EdgeCache

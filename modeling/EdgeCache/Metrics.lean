import EdgeCache.Census
import EdgeCache.Discipline

/-!
# The metrics

Every thread counts what it does, in counters that all threads of a replica share and that wrap
around at `2^64`.  `records` lists what a step counts, beside the step itself; `Metered` is a fleet
with its counters.

Nothing in the code says that the counters have to do with one another, or with what the clients
get.  `truthful_of_run` — **they do**: in every state, the hits and misses of a replica are the
requests it has looked up, its misses and stale answers are its acquisitions of slots, and its L2
hits, rejections and latencies are the passes and the leaders, each up to the threads that are in
between; and the bytes served are the bytes of the answers.
-/

namespace EdgeCache

open Transition

/-! ## The registry -/

/-- `kBounds`, as the doubles nearest to 1 ms, 5 ms, 10 ms, 50 ms, 100 ms, 500 ms, 1 s and 5 s. -/
def kBounds : List ℚ :=
  [1152921504606847 / 2 ^ 60, 5764607523034235 / 2 ^ 60, 5764607523034235 / 2 ^ 59,
    3602879701896397 / 2 ^ 56, 3602879701896397 / 2 ^ 55, 1 / 2, 1, 5]

/-- `MetricsRegistry`, with `InFlightRegistry::coalesced_`. -/
structure MetricsRegistry where
  hits : UInt64 := 0
  misses : UInt64 := 0
  staleServed : UInt64 := 0
  originErrors : UInt64 := 0
  circuitRejects : UInt64 := 0
  bytesServed : UInt64 := 0
  purgeMessages : UInt64 := 0
  l2Hits : UInt64 := 0
  l2Misses : UInt64 := 0
  bucketCounts : List UInt64 := kBounds.map fun _ => 0
  histCount : UInt64 := 0
  coalesced : UInt64 := 0

/-- What is recorded. -/
inductive Metric
  | hit
  | miss
  | staleServed
  | originError
  | circuitReject
  | bytesServed (n : ℕ)
  | purgeMessage
  | l2Hit
  | l2Miss
  | originLatency (seconds : ℚ)
  | coalesced

/-- `observeOriginLatency`. -/
def MetricsRegistry.observeOriginLatency (m : MetricsRegistry) (seconds : ℚ) : MetricsRegistry :=
  { m with
    bucketCounts := List.zipWith (fun bound c => if seconds ≤ bound then c + 1 else c) kBounds
      m.bucketCounts
    histCount := m.histCount + 1 }

/-- The `record` methods. -/
def MetricsRegistry.record (m : MetricsRegistry) : Metric → MetricsRegistry
  | .hit => { m with hits := m.hits + 1 }
  | .miss => { m with misses := m.misses + 1 }
  | .staleServed => { m with staleServed := m.staleServed + 1 }
  | .originError => { m with originErrors := m.originErrors + 1 }
  | .circuitReject => { m with circuitRejects := m.circuitRejects + 1 }
  | .bytesServed n => { m with bytesServed := m.bytesServed + UInt64.ofNat n }
  | .purgeMessage => { m with purgeMessages := m.purgeMessages + 1 }
  | .l2Hit => { m with l2Hits := m.l2Hits + 1 }
  | .l2Miss => { m with l2Misses := m.l2Misses + 1 }
  | .originLatency seconds => m.observeOriginLatency seconds
  | .coalesced => { m with coalesced := m.coalesced + 1 }

/-- Record one thing after the other. -/
def MetricsRegistry.recordAll (m : MetricsRegistry) (records : List Metric) : MetricsRegistry :=
  records.foldl MetricsRegistry.record m

/-! ## What the threads record -/

variable {ι : Type}

namespace Deployment

variable (D : Deployment ι)

/-- What `process` records before its first operation. -/
def entryRecords (req : HttpRequest) : List Metric :=
  if req.isCacheableMethod then [] else [.miss]

/-- What is recorded with an answer, where there is somebody to answer. -/
def servedRecords (lead : Lead) (resp : HttpResponse) : List Metric :=
  match lead with
  | .revalidate _ => []
  | _ => [.bytesServed resp.body.length]

/-- What is recorded after a fetch that failed or was rejected. -/
def failureRecords (th : Thread ι) (lead : Lead) (rejected : Bool) : List Metric :=
  match lead with
  | .pass => [.bytesServed (D.failureResponse th lead rejected).body.length]
  | .miss _ now (some cached) => if cached.isServeableStale now then [.staleServed] else []
  | _ => []

/-- **What the next step of a thread records**, read off the source beside `advance`; a fetch takes
the time given. -/
def records (s : State ι) (th : Thread ι) (input : Input) (latency : ℚ) : List Metric :=
  let i := th.replica
  let key := D.key th.req
  match th.pc with
  | .get now =>
      match ((s.cache i).get D.hash key).1 with
      | none => [.miss]
      | some e =>
          if e.isFresh now then
            [.hit, .bytesServed (hitResponse (D.replicaId i) e now).body.length]
          else if e.isServeableStale now then [.hit, .staleServed]
          else [.miss]
  | .trigger resp =>
      if (s.inflight i key).isSome then [.coalesced, .bytesServed resp.body.length]
      else [.bytesServed resp.body.length]
  | .acquire _ _ => if (s.inflight i key).isSome then [.coalesced] else []
  | .l2Get _ =>
      let found := if input.reachable then s.l2 key else none
      match found.bind fun blob => RedisL2Cache.decode blob (RedisL2Cache.nowWallMs s.clock)
        s.clock with
      | some _ => [.l2Hit]
      | none => [.l2Miss]
  | .allowRequest lead =>
      if ((s.breaker i).allowRequest D.limits s.clock).1 then []
      else .circuitReject :: D.failureRecords th lead true
  | .fetching _ => [.originLatency latency]
  | .record lead result =>
      if result.ok then
        match lead with
        | .pass => [.bytesServed (D.fetchedResponse th lead result.response).body.length]
        | _ => []
      else .originError :: D.failureRecords th lead false
  | .publish lead _ resp _ =>
      if (s.inflight i key).isNone then servedRecords lead resp else []
  | .fill lead _ _ resp _ => servedRecords lead resp
  | .maybeStore _ resp success =>
      if (if success then D.decision th.req resp else none).isNone then
        [.bytesServed (D.coalescedResponse th resp).body.length]
      else []
  | .waiterPut _ resp _ => [.bytesServed (D.coalescedResponse th resp).body.length]
  | _ => []

end Deployment

/-- A fleet with its counters. -/
structure Metered (ι : Type) where
  fleet : State ι
  metrics : ι → MetricsRegistry

section Steps

variable [DecidableEq ι] (D : Deployment ι)

/-- The counters after a step. -/
def Metered.count (s : Metered ι) (i : ι) (records : List Metric) : ι → MetricsRegistry :=
  Function.update s.metrics i ((s.metrics i).recordAll records)

/-- **The steps of a fleet with its counters.** -/
def Deployment.meteredStep (s : Metered ι) (a : Action ι × ℚ) : Option (Metered ι) :=
  (D.step s.fleet a.1).map fun fleet =>
    { fleet := fleet
      metrics := match a.1 with
        | .start _ i req => s.count i (Deployment.entryRecords req)
        | .step t input =>
            match s.fleet.threads t with
            | none => s.metrics
            | some th => s.count th.replica (D.records s.fleet th input a.2)
        | .purgeStart _ i _ => s.count i [.purgeMessage]
        | _ => s.metrics }

/-- A fleet with its counters, at the start. -/
def Deployment.meteredInitial (clock : ℕ) : Metered ι where
  fleet := D.initial clock
  metrics := fun _ => {}

end Steps

/-! ## What the counters read -/

/-- The counters. -/
inductive Counter
  | hits
  | misses
  | staleServed
  | originErrors
  | circuitRejects
  | bytesServed
  | purgeMessages
  | l2Hits
  | l2Misses
  | histCount
  | coalesced
  deriving DecidableEq

/-- The value of a counter. -/
def MetricsRegistry.read (m : MetricsRegistry) : Counter → UInt64
  | .hits => m.hits
  | .misses => m.misses
  | .staleServed => m.staleServed
  | .originErrors => m.originErrors
  | .circuitRejects => m.circuitRejects
  | .bytesServed => m.bytesServed
  | .purgeMessages => m.purgeMessages
  | .l2Hits => m.l2Hits
  | .l2Misses => m.l2Misses
  | .histCount => m.histCount
  | .coalesced => m.coalesced

/-- The counter that a record changes. -/
def Metric.counter : Metric → Counter
  | .hit => .hits
  | .miss => .misses
  | .staleServed => .staleServed
  | .originError => .originErrors
  | .circuitReject => .circuitRejects
  | .bytesServed _ => .bytesServed
  | .purgeMessage => .purgeMessages
  | .l2Hit => .l2Hits
  | .l2Miss => .l2Misses
  | .originLatency _ => .histCount
  | .coalesced => .coalesced

/-- By how much a record changes it. -/
def Metric.amount : Metric → ℕ
  | .bytesServed n => n
  | _ => 1

/-- What a record adds to a number of counters. -/
def Metric.adds (x : Metric) (counters : List Counter) : ℕ :=
  (counters.map fun c => if x.counter = c then x.amount else 0).sum

/-- What a number of counters read together. -/
def MetricsRegistry.sum (m : MetricsRegistry) (counters : List Counter) : UInt64 :=
  (counters.map m.read).sum

/-- What a number of records add to a number of counters. -/
def added (counters : List Counter) (records : List Metric) : ℕ :=
  (records.map fun x => x.adds counters).sum

@[simp] theorem added_nil (counters : List Counter) : added counters [] = 0 := rfl

@[simp] theorem added_cons (counters : List Counter) (x : Metric) (records : List Metric) :
    added counters (x :: records) = x.adds counters + added counters records := by
  simp [added]

@[simp] theorem added_append (counters : List Counter) (front back : List Metric) :
    added counters (front ++ back) = added counters front + added counters back := by
  simp [added]

theorem read_record (m : MetricsRegistry) (x : Metric) (c : Counter) :
    (m.record x).read c = m.read c + UInt64.ofNat (if x.counter = c then x.amount else 0) := by
  cases x <;> cases c <;>
    simp [MetricsRegistry.record, MetricsRegistry.read, MetricsRegistry.observeOriginLatency,
      Metric.counter, Metric.amount]

theorem sum_record (m : MetricsRegistry) (x : Metric) (counters : List Counter) :
    (m.record x).sum counters = m.sum counters + UInt64.ofNat (x.adds counters) := by
  induction counters with
  | nil => simp [MetricsRegistry.sum, Metric.adds]
  | cons c rest ih =>
      simp only [MetricsRegistry.sum, Metric.adds, List.map_cons, List.sum_cons,
        UInt64.ofNat_add, read_record] at ih ⊢
      rw [ih]
      ac_rfl

theorem sum_initial (counters : List Counter) : ({} : MetricsRegistry).sum counters = 0 := by
  induction counters with
  | nil => rfl
  | cons c rest ih =>
      simp only [MetricsRegistry.sum, List.map_cons, List.sum_cons] at ih ⊢
      rw [ih]
      cases c <;> rfl

/-- **What the counters read after a number of records.** -/
theorem sum_recordAll (m : MetricsRegistry) (records : List Metric) (counters : List Counter) :
    (m.recordAll records).sum counters =
      m.sum counters + UInt64.ofNat (added counters records) := by
  induction records generalizing m with
  | nil => simp [MetricsRegistry.recordAll]
  | cons x rest ih =>
      have later := ih (m.record x)
      rw [MetricsRegistry.recordAll] at later
      rw [MetricsRegistry.recordAll, List.foldl_cons, later, sum_record, added_cons,
        UInt64.ofNat_add, UInt64.add_assoc]

/-! ## What happens, and where threads stand -/

namespace Event

/-- A call. -/
def calls : Event ι → ℕ
  | .began _ _ _ => 1
  | _ => 0

/-- A call that bypasses the cache. -/
def passes : Event ι → ℕ
  | .began _ _ req => if req.isCacheableMethod then 0 else 1
  | _ => 0

/-- A thread becomes the leader for a key. -/
def leads : Event ι → ℕ
  | .led _ _ _ _ => 1
  | _ => 0

/-- A thread waits for a leader. -/
def joins : Event ι → ℕ
  | .joined _ _ _ _ => 1
  | _ => 0

/-- A fetch ends. -/
def fetches : Event ι → ℕ
  | .fetched _ _ _ _ _ => 1
  | _ => 0

/-- A fetch fails. -/
def failures : Event ι → ℕ
  | .fetched _ _ _ result _ => if result.ok then 0 else 1
  | _ => 0

/-- The bytes of the bodies that are answered. -/
def bodyBytes : Event ι → ℕ
  | .answered _ _ _ resp _ => resp.body.length
  | _ => 0

/-- A purge message. -/
def purgeMessages : Event ι → ℕ
  | .purgeBegan _ _ _ => 1
  | _ => 0

/-- None of these. -/
def uncounted : Event ι → Bool
  | .fetchStarted _ _ _ | .granted _ _ _ _ _ _ | .withdrawn _ _ _ _ | .filled _ _ _ _ => true
  | _ => false

end Event

namespace Pc

/-- Before the lookup. -/
def looking : Pc → ℕ
  | .lookup | .get _ => 1
  | _ => 0

/-- Between the lookup and the registry. -/
def entering : Pc → ℕ
  | .trigger _ | .acquire _ _ => 1
  | _ => 0

/-- Between the lookup and L2. -/
def seeking : Pc → ℕ
  | .acquire _ _ | .l2Get _ => 1
  | _ => 0

/-- A pass or a leader, before the origin has answered. -/
def asking : Pc → ℕ
  | .l2Get _ | .allowRequest _ | .fetch _ | .fetching _ => 1
  | _ => 0

/-- Between the origin's failure and the breaker. -/
def erring : Pc → ℕ
  | .record _ result => if result.ok then 0 else 1
  | _ => 0

/-- Past the breaker, or behind a leader. -/
def finishing : Pc → Bool
  | .promote _ _ | .storeTiers _ _ | .put _ _ _ | .l2Put _ _ _ | .publish _ _ _ _
  | .fill _ _ _ _ _ | .wait _ | .maybeStore _ _ _ | .waiterPut _ _ _ | .done => true
  | _ => false

end Pc

/-! ## What a step records, case by case -/

section Recorded

variable [DecidableEq ι] {D : Deployment ι} {s : State ι} {t : ℕ} {th : Thread ι} {input : Input}
  {o : Outcome ι}

/-- **The cases of a step, as far as they are counted**: where the thread stands, what it records,
and what it does. -/
inductive Recorded (D : Deployment ι) (t : ℕ) (th : Thread ι) :
    Pc → List Metric → Outcome ι → Prop
  | lookup {now : ℤ} {w : Write} : Recorded D t th .lookup [] { pc := .get now, write := w }
  | hit {now : ℤ} {resp : HttpResponse} {hit : Option ℤ} {w : Write} :
      Recorded D t th (.get now) [.hit, .bytesServed resp.body.length]
        { pc := .done, write := w, events := [.answered t th.replica th.req resp hit] }
  | stale {now : ℤ} {resp : HttpResponse} {w : Write} :
      Recorded D t th (.get now) [.hit, .staleServed] { pc := .trigger resp, write := w }
  | miss {now : ℤ} {cached : Option CacheEntry} {w : Write} :
      Recorded D t th (.get now) [.miss] { pc := .acquire now cached, write := w }
  | triggerJoin {resp : HttpResponse} :
      Recorded D t th (.trigger resp) [.coalesced, .bytesServed resp.body.length]
        { pc := .done, events := [.answered t th.replica th.req resp none] }
  | triggerLead {resp : HttpResponse} {u n : ℕ} :
      Recorded D t th (.trigger resp) [.bytesServed resp.body.length]
        { pc := .done
          write := .enter
          events := [.answered t th.replica th.req resp none,
            .led u th.replica (D.key th.req) n]
          child := some (u, .allowRequest (.revalidate n)) }
  | join {now : ℤ} {cached : Option CacheEntry} {n : ℕ} :
      Recorded D t th (.acquire now cached) [.coalesced]
        { pc := .wait n, events := [.joined t th.replica (D.key th.req) n] }
  | lead {now : ℤ} {cached : Option CacheEntry} {n : ℕ} {lead : Lead} :
      Recorded D t th (.acquire now cached) []
        { pc := if D.l2Enabled then .l2Get lead else .allowRequest lead
          write := .enter
          events := [.led t th.replica (D.key th.req) n] }
  | l2Hit {lead : Lead} {entry : CacheEntry} :
      Recorded D t th (.l2Get lead) [.l2Hit] { pc := .promote lead entry }
  | l2Miss {lead : Lead} : Recorded D t th (.l2Get lead) [.l2Miss] { pc := .allowRequest lead }
  | allow {lead : Lead} {w : Write} :
      Recorded D t th (.allowRequest lead) [] { pc := .fetch lead, write := w }
  | rejectPass {resp : HttpResponse} {w : Write} :
      Recorded D t th (.allowRequest .pass) [.circuitReject, .bytesServed resp.body.length]
        { pc := .done, write := w, events := [.answered t th.replica th.req resp none] }
  | reject {lead : Lead} {resp : HttpResponse} {w : Write} :
      Recorded D t th (.allowRequest lead) [.circuitReject]
        { pc := .publish lead none resp false, write := w }
  | fetch {lead : Lead} :
      Recorded D t th (.fetch lead) []
        { pc := .fetching lead, events := [.fetchStarted t th.replica th.req] }
  | fetched {lead : Lead} {result : OriginResult} {latency : ℚ} {now : ℕ} :
      Recorded D t th (.fetching lead) [.originLatency latency]
        { pc := .record lead result, events := [.fetched t th.replica th.req result now] }
  | failPass {result : OriginResult} {resp : HttpResponse} {w : Write}
      (notOk : result.ok = false) :
      Recorded D t th (.record .pass result) [.originError, .bytesServed resp.body.length]
        { pc := .done, write := w, events := [.answered t th.replica th.req resp none] }
  | fail {lead : Lead} {result : OriginResult} {resp : HttpResponse} {w : Write}
      (notOk : result.ok = false) :
      Recorded D t th (.record lead result) [.originError]
        { pc := .publish lead none resp false, write := w }
  | succeedPass {result : OriginResult} {resp : HttpResponse} {w : Write} (ok : result.ok = true) :
      Recorded D t th (.record .pass result) [.bytesServed resp.body.length]
        { pc := .done, write := w, events := [.answered t th.replica th.req resp none] }
  | succeed {lead : Lead} {result : OriginResult} {resp : HttpResponse} {w : Write}
      (ok : result.ok = true) :
      Recorded D t th (.record lead result) [] { pc := .storeTiers lead resp, write := w }
  | finish {pc pc' : Pc} {w : Write} {events : List (Event ι)} (before : pc.finishing = true)
      (after : pc'.finishing = true) (uncounted : ∀ e ∈ events, e.uncounted = true) :
      Recorded D t th pc [] { pc := pc', write := w, events := events }
  | answer {pc : Pc} {resp : HttpResponse} {hit : Option ℤ} {w : Write} {events : List (Event ι)}
      (before : pc.finishing = true) (uncounted : ∀ e ∈ events, e.uncounted = true) :
      Recorded D t th pc [.bytesServed resp.body.length]
        { pc := .done
          write := w
          events := .answered t th.replica th.req resp hit :: events }

omit [DecidableEq ι] in
/-- A leader that is through records what it answers. -/
theorem recorded_conclude {pc : Pc} {lead : Lead} {hit : Option ℤ} {resp : HttpResponse}
    {w : Write} {events : List (Event ι)} (before : pc.finishing = true) (role : lead ≠ .pass)
    (uncounted : ∀ e ∈ events, e.uncounted = true) :
    Recorded D t th pc (Deployment.servedRecords lead resp)
      { pc := .done, write := w, events := conclude t th lead hit resp ++ events } := by
  cases lead with
  | pass => exact absurd rfl role
  | miss n now cached => exact .answer before uncounted
  | revalidate n => exact .finish before rfl uncounted

omit [DecidableEq ι] in
/-- A leader that failed has nothing to fall back on. -/
theorem failureRecords_of_hopeless {lead : Lead} (role : lead ≠ .pass) (hopeless : lead.Hopeless)
    (rejected : Bool) : D.failureRecords th lead rejected = [] := by
  cases lead with
  | pass => exact absurd rfl role
  | miss n now cached =>
      cases cached with
      | none => rfl
      | some e => simp [Deployment.failureRecords, hopeless e rfl]
  | revalidate n => rfl

omit [DecidableEq ι] in
/-- A lookup that leads to the registry is a miss. -/
theorem records_of_useless {now : ℤ} {cached : Option CacheEntry} {c : ShardedCache}
    (latency : ℚ) (here : th.pc = .get now)
    (found : (s.cache th.replica).get D.hash (D.key th.req) = (cached, c))
    (useless : ∀ e ∈ cached, e.isFresh now = false ∧ e.isServeableStale now = false) :
    D.records s th input latency = [.miss] := by
  cases cached with
  | none => simp [Deployment.records, here, found]
  | some e => simp [Deployment.records, here, found, useless e rfl]

omit [DecidableEq ι] in
/-- A step that leaves L2 for the origin is an L2 miss. -/
theorem records_of_l2Miss {lead : Lead} (latency : ℚ) (here : th.pc = .l2Get lead)
    (advanced : D.advance s t th input = some { pc := .allowRequest lead }) :
    D.records s th input latency = [.l2Miss] := by
  cases read : (if input.reachable then s.l2 (D.key th.req) else none).bind fun blob =>
      RedisL2Cache.decode blob (RedisL2Cache.nowWallMs s.clock) s.clock with
  | some e =>
      simp only [Deployment.advance, here, read] at advanced
      cases advanced
  | none => simp only [Deployment.records, here, read]

omit [DecidableEq ι] in
/-- **Every step is one of the cases.** -/
theorem recorded_of_advance (latency : ℚ) (proper : th.pc.Proper th.req)
    (hopeless : th.pc.Hopeless) (advanced : D.advance s t th input = some o) :
    Recorded D t th th.pc (D.records s th input latency) o := by
  cases move_of_advance advanced with
  | lookup here => simpa only [Deployment.records, here] using Recorded.lookup
  | hit here found fresh =>
      simpa only [Deployment.records, here, found, fresh, if_true] using Recorded.hit
  | stale here found aged serveable =>
      simpa only [Deployment.records, here, found, aged, serveable, if_true, Bool.false_eq_true,
        if_false] using Recorded.stale
  | miss here found useless =>
      rw [records_of_useless latency here found useless, here]
      exact .miss
  | triggerJoin here found =>
      simpa only [Deployment.records, here, found, Option.isSome_some, if_true]
        using Recorded.triggerJoin
  | triggerLead here absent unused =>
      simpa only [Deployment.records, here, absent, Option.isSome_none, Bool.false_eq_true,
        if_false] using Recorded.triggerLead
  | join here found =>
      simpa only [Deployment.records, here, found, Option.isSome_some, if_true]
        using Recorded.join
  | lead here absent =>
      simpa only [Deployment.records, here, absent, Option.isSome_none, Bool.false_eq_true,
        if_false] using Recorded.lead
  | l2Hit here reached held decoded =>
      simpa only [Deployment.records, here, reached, if_true, held, Option.bind_some, decoded]
        using Recorded.l2Hit
  | l2Miss here =>
      rw [records_of_l2Miss latency here advanced, here]
      exact .l2Miss
  | promote here => simpa only [Deployment.records, here] using Recorded.finish rfl rfl (by simp)
  | allow here allowed =>
      simpa only [Deployment.records, here, allowed, if_true] using Recorded.allow
  | fetch here => simpa only [Deployment.records, here] using Recorded.fetch
  | fetched here => simpa only [Deployment.records, here] using Recorded.fetched
  | passFailure failed =>
      cases failed with
      | rejected here refused =>
          simpa only [Deployment.records, here, refused, Bool.false_eq_true, if_false,
            Deployment.failureRecords] using Recorded.rejectPass
      | failed here notOk =>
          simpa only [Deployment.records, here, notOk, Bool.false_eq_true, if_false,
            Deployment.failureRecords] using Recorded.failPass notOk
  | @leadFailure lead rejected b role failed =>
      have none : D.failureRecords th lead rejected = [] :=
        failureRecords_of_hopeless role (failed.hopeless hopeless) rejected
      cases failed with
      | rejected here refused =>
          simpa only [Deployment.records, here, refused, Bool.false_eq_true, if_false, none]
            using Recorded.reject
      | failed here notOk =>
          simpa only [Deployment.records, here, notOk, Bool.false_eq_true, if_false, none]
            using Recorded.fail notOk
  | passSuccess here ok =>
      simpa only [Deployment.records, here, ok, if_true] using Recorded.succeedPass ok
  | @leadSuccess lead result role here ok =>
      have records : D.records s th input latency = [] := by
        cases lead <;> simp_all [Deployment.records]
      rw [records, here]
      exact .succeed ok
  | refuse here refused =>
      simpa only [Deployment.records, here] using Recorded.finish rfl rfl (by simp)
  | grant here granted =>
      simpa only [Deployment.records, here]
        using Recorded.finish rfl rfl (by simp [Event.uncounted])
  | put here =>
      rw [here, show D.records s th input latency = [] by simp only [Deployment.records, here]]
      refine .finish rfl ?_ (by simp)
      unfold Deployment.afterPut
      split <;> rfl
  | l2Put here encoded =>
      simpa only [Deployment.records, here] using Recorded.finish rfl rfl (by simp)
  | l2Skip here =>
      simpa only [Deployment.records, here] using Recorded.finish rfl rfl (by simp)
  | withdraw here found =>
      simpa only [Deployment.records, here, found, Option.isNone_some, Bool.false_eq_true, if_false]
        using Recorded.finish rfl rfl (by simp [Event.uncounted])
  | @lost lead hit resp success here absent =>
      rw [here] at proper
      have records : D.records s th input latency = Deployment.servedRecords lead resp := by
        simp only [Deployment.records, here, absent, Option.isNone_none, if_true]
      rw [records, here, ← List.append_nil (conclude t th lead hit resp)]
      exact recorded_conclude rfl proper.1 (by simp)
  | @fill lead n hit resp success here =>
      rw [here] at proper
      have records : D.records s th input latency = Deployment.servedRecords lead resp := by
        simp only [Deployment.records, here]
      rw [records, here]
      exact recorded_conclude rfl proper.1 (by simp [Event.uncounted])
  | wait here ready =>
      simpa only [Deployment.records, here] using Recorded.finish rfl rfl (by simp)
  | @coalescedRefuse n resp success here refused =>
      have none : (if success then D.decision th.req resp else none) = none := by
        simpa using refused
      simpa only [Deployment.records, here, none, Option.isNone_none, if_true]
        using Recorded.answer rfl (by simp)
  | coalescedGrant here granted =>
      simpa only [Deployment.records, here, if_true, granted, Option.isNone_some,
      Bool.false_eq_true,
        if_false] using Recorded.finish rfl rfl (by simp [Event.uncounted])
  | waiterPut here =>
      simpa only [Deployment.records, here] using Recorded.answer rfl (by simp)

end Recorded

/-! ## Audits -/

/-- The replica of an event. -/
def Event.replica? : Event ι → Option ι
  | .began _ i _ | .led _ i _ _ | .joined _ i _ _ | .fetchStarted _ i _ | .fetched _ i _ _ _
  | .granted _ i _ _ _ _ | .withdrawn _ i _ _ | .answered _ i _ _ _ | .purgeBegan _ i _
  | .purgeReturned _ i _ => some i
  | .filled _ _ _ _ => none

/-- An equation between counters, up to what has happened and where threads stand. -/
structure Audit (ι : Type) where
  left : List Counter
  right : List Counter
  income : Event ι → ℕ
  outgo : Event ι → ℕ
  held : Pc → ℕ

section Audits

variable [DecidableEq ι] {D : Deployment ι} {s s' : State ι} {t : ℕ} {th : Thread ι}
  {input : Input} {o : Outcome ι}

/-- A quantity over the events of a replica. -/
def onReplica (i : ι) (q : Event ι → ℕ) (e : Event ι) : ℕ := if e.replica? = some i then q e else 0

/-- A quantity over the threads of a replica. -/
def heldOn (i : ι) (held : Pc → ℕ) (_ : ℕ) (th : Thread ι) : ℕ :=
  if th.replica = i then held th.pc else 0

namespace Metered

/-- What has happened on a replica. -/
def happened (s : Metered ι) (i : ι) (q : Event ι → ℕ) : UInt64 :=
  UInt64.ofNat (tally (onReplica i q) s.fleet.trace)

/-- Where the threads of a replica stand. -/
noncomputable def standing (s : Metered ι) (i : ι) (held : Pc → ℕ) : UInt64 :=
  UInt64.ofNat (weigh (heldOn i held) s.fleet.threads)

end Metered

/-- The equation holds on every replica. -/
def Audit.Holds (audit : Audit ι) (s : Metered ι) : Prop :=
  ∀ i, (s.metrics i).sum audit.left + s.happened i audit.outgo + s.standing i audit.held =
    (s.metrics i).sum audit.right + s.happened i audit.income

/-- What an audit has to check for its equation to be kept, beside that it is blind to what is not
counted. -/
structure Audit.Sound (audit : Audit ι) (D : Deployment ι) : Prop where
  start : ∀ t i req, added audit.left (Deployment.entryRecords req) + audit.outgo (.began t i req) +
    audit.held (Deployment.entryPoint req) =
      added audit.right (Deployment.entryRecords req) + audit.income (.began t i req)
  move : ∀ {t th pc records o}, Recorded D t th pc records o → pc.finishing = false →
    added audit.left records + tally audit.outgo o.events +
        (audit.held o.pc + o.child.elim 0 fun child => audit.held child.2) =
      added audit.right records + tally audit.income o.events + audit.held pc
  answer : ∀ t i req resp hit, added audit.left [.bytesServed resp.body.length] +
      audit.outgo (.answered t i req resp hit) =
    added audit.right [.bytesServed resp.body.length] + audit.income (.answered t i req resp hit)
  purge : ∀ p i pattern, added audit.left [.purgeMessage] + audit.outgo (.purgeBegan p i pattern) =
      added audit.right [.purgeMessage] + audit.income (.purgeBegan p i pattern) ∧
    audit.outgo (.purgeReturned p i pattern) = audit.income (.purgeReturned p i pattern)
  held : ∀ pc : Pc, pc.finishing = true → audit.held pc = 0
  income : ∀ e : Event ι, e.uncounted = true → audit.income e = 0
  outgo : ∀ e : Event ι, e.uncounted = true → audit.outgo e = 0

omit [DecidableEq ι] in
/-- What is not counted adds nothing. -/
theorem tally_uncounted {q : Event ι → ℕ} {events : List (Event ι)}
    (zero : ∀ e : Event ι, e.uncounted = true → q e = 0)
    (uncounted : ∀ e ∈ events, e.uncounted = true) : tally q events = 0 := by
  rw [tally, List.map_congr_left fun e mem => zero e (uncounted e mem)]
  simp

omit [DecidableEq ι] in
/-- **Every move keeps the equation.** -/
theorem Audit.Sound.law {audit : Audit ι} (sound : audit.Sound D) {pc : Pc} {records : List Metric}
    (recorded : Recorded D t th pc records o) :
    added audit.left records + tally audit.outgo o.events +
        (audit.held o.pc + o.child.elim 0 fun child => audit.held child.2) =
      added audit.right records + tally audit.income o.events + audit.held pc := by
  by_cases unfinished : pc.finishing = false
  · exact sound.move recorded unfinished
  cases recorded with
  | finish before after uncounted =>
      simp [sound.held _ before, sound.held _ after, tally_uncounted sound.income uncounted,
        tally_uncounted sound.outgo uncounted]
  | @answer pc resp hit w events before uncounted =>
      have balance := sound.answer t th.replica th.req resp hit
      simp only [tally_cons, tally_uncounted sound.income uncounted,
        tally_uncounted sound.outgo uncounted, sound.held _ before, sound.held .done rfl,
        Option.elim_none, add_zero]
      exact balance
  | _ => exact absurd rfl unfinished

/-- **A step keeps an equation on a replica** where what it records there, what happens there and
where the threads end up agree. -/
def Audit.Kept (audit : Audit ι) (i : ι) (s s' : Metered ι) : Prop :=
  ∃ records events, s'.metrics i = (s.metrics i).recordAll records ∧
    s'.fleet.trace = events ++ s.fleet.trace ∧
    added audit.left records + tally (onReplica i audit.outgo) events +
        weigh (heldOn i audit.held) s'.fleet.threads =
      added audit.right records + tally (onReplica i audit.income) events +
        weigh (heldOn i audit.held) s.fleet.threads

theorem Audit.Kept.holds {audit : Audit ι} {s s' : Metered ι} (kept : ∀ i, audit.Kept i s s')
    (before : audit.Holds s) : audit.Holds s' := by
  intro i
  obtain ⟨records, events, metrics, trace, change⟩ := kept i
  have balance := before i
  have change' := congrArg UInt64.ofNat change
  simp only [UInt64.ofNat_add] at change'
  simp only [Metered.happened, Metered.standing, metrics, trace, tally_append, sum_recordAll,
    UInt64.ofNat_add] at balance ⊢
  grind

omit [DecidableEq ι] in
theorem replica?_conclude {ev : Event ι} {lead : Lead} {hit : Option ℤ} {resp : HttpResponse}
    (mem : ev ∈ conclude t th lead hit resp) : ev.replica? = some th.replica := by
  cases lead with
  | revalidate n => cases mem
  | _ => cases List.mem_singleton.mp mem; rfl

omit [DecidableEq ι] in
/-- A move happens on the replica of its thread. -/
theorem replica?_of_move {ev : Event ι} (move : Move D s t th input o) (mem : ev ∈ o.events) :
    ev.replica? = some th.replica ∨ ∃ t n resp success, ev = .filled t n resp success := by
  cases move with
  | lost here absent => exact Or.inl (replica?_conclude mem)
  | fill here =>
      rw [List.mem_append, List.mem_singleton] at mem
      rcases mem with mine | rfl
      · exact Or.inl (replica?_conclude mine)
      · exact Or.inr ⟨_, _, _, _, rfl⟩
  | triggerLead here absent unused =>
      rw [List.mem_cons, List.mem_singleton] at mem
      rcases mem with rfl | rfl <;> exact Or.inl rfl
  | _ => simp_all [Event.replica?]

/-- What a move does counts on its replica. -/
theorem tally_onReplica (i : ι) {q : Event ι → ℕ}
    (filled : ∀ t n resp success, q (.filled t n resp success) = 0)
    (move : Move D s t th input o) :
    tally (onReplica i q) o.events = if th.replica = i then tally q o.events else 0 := by
  have each : ∀ ev ∈ o.events, onReplica i q ev = if th.replica = i then q ev else 0 := by
    intro ev mem
    rcases replica?_of_move move mem with here | ⟨t, n, resp, success, rfl⟩
    · simp [onReplica, here]
    · simp [onReplica, filled]
  rw [tally, List.map_congr_left each]
  split <;> simp [tally]

/-- A move of a thread of the fleet keeps the equation. -/
theorem Audit.Sound.kept_of_advance {audit : Audit ι} (sound : audit.Sound D) {s : Metered ι}
    (few : Few s.fleet.threads) (running : s.fleet.threads t = some th)
    (proper : th.pc.Proper th.req) (hopeless : th.pc.Hopeless)
    (advanced : D.advance s.fleet t th input = some o) (latency : ℚ) (i : ι) :
    audit.Kept i s
      { fleet := s.fleet.commit (D.key th.req) t th o
        metrics := s.count th.replica (D.records s.fleet th input latency) } := by
  have move := move_of_advance advanced
  have change := weigh_commit (heldOn i audit.held) (D.key th.req) few running move
  have income := tally_onReplica i (fun t n resp success => sound.income _ rfl) move
  have outgo := tally_onReplica i (fun t n resp success => sound.outgo _ rfl) move
  have law := sound.law (recorded_of_advance latency proper hopeless advanced)
  have child : childWeight (heldOn i audit.held) th o.child =
      if th.replica = i then o.child.elim 0 fun child => audit.held child.2 else 0 := by
    cases o.child <;> simp [childWeight, heldOn]
  by_cases mine : th.replica = i
  · subst mine
    refine ⟨D.records s.fleet th input latency, o.events, Function.update_self .., rfl, ?_⟩
    simp only [heldOn, if_true] at change child income outgo
    rw [child] at change
    dsimp only
    rw [income, outgo]
    omega
  · refine ⟨[], o.events, Function.update_of_ne (Ne.symm mine) .., rfl, ?_⟩
    simp only [heldOn, if_neg mine] at change child income outgo
    rw [child] at change
    dsimp only
    rw [income, outgo, added_nil, added_nil]
    omega

/-- What a call or a purge records counts on its replica. -/
theorem Audit.kept_of_event {audit : Audit ι} {s : Metered ι} {fleet : State ι} {i : ι}
    {records : List Metric} {ev : Event ι} (here : ev.replica? = some i)
    (trace : fleet.trace = ev :: s.fleet.trace) (pc : Option Pc) (j : ι)
    (threads : weigh (heldOn j audit.held) fleet.threads =
      weigh (heldOn j audit.held) s.fleet.threads + if i = j then pc.elim 0 audit.held else 0)
    (law : added audit.left records + audit.outgo ev + pc.elim 0 audit.held =
      added audit.right records + audit.income ev) :
    audit.Kept j s { fleet := fleet, metrics := s.count i records } := by
  by_cases mine : i = j
  · subst mine
    refine ⟨records, [ev], Function.update_self .., trace, ?_⟩
    simp only [tally_cons, tally_nil, onReplica, here, if_true] at threads ⊢
    omega
  · refine ⟨[], [ev], Function.update_of_ne (Ne.symm mine) .., trace, ?_⟩
    simp only [tally_cons, tally_nil, onReplica, here, Option.some.injEq, if_neg mine,
      added_nil] at threads ⊢
    omega

/-- **Every step keeps the equation.** -/
theorem Audit.Sound.step {audit : Audit ι} (sound : audit.Sound D) {s s' : Metered ι}
    {a : Action ι × ℚ} (taken : D.meteredStep s a = some s') (few : Few s.fleet.threads)
    (proper : AllProper s.fleet) (hopeless : AllHopeless s.fleet) (before : audit.Holds s) :
    audit.Holds s' := by
  obtain ⟨a, latency⟩ := a
  obtain ⟨fleet, stepped, rfl⟩ := Option.map_eq_some_iff.mp taken
  refine Audit.Kept.holds (fun j => ?_) before
  -- What neither records nor happens changes nothing.
  have silent : ∀ fleet : State ι, fleet.trace = s.fleet.trace →
      fleet.threads = s.fleet.threads → audit.Kept j s ⟨fleet, s.metrics⟩ := by
    intro fleet trace threads
    refine ⟨[], [], rfl, trace, ?_⟩
    simp only [threads, added_nil, tally_nil]
  cases a with
  | step t input =>
      obtain ⟨th, running, o, advanced, rfl⟩ := by
        simpa only [Deployment.step, Option.bind_eq_some_iff, Option.map_eq_some_iff] using stepped
      simp only [running]
      exact sound.kept_of_advance few running (proper t th running) (hopeless t th running) advanced
        latency j
  | start t i req =>
      cases turn_of_step stepped with
      | start unused =>
          refine Audit.kept_of_event rfl rfl (some (Deployment.entryPoint req)) j ?_
            (sound.start t i req)
          exact weigh_start (heldOn j audit.held) few unused i req
  | purgeStart p i pattern =>
      cases turn_of_step stepped with
      | purgeStart unused =>
          exact Audit.kept_of_event rfl rfl none j (by simp) (sound.purge p i pattern).1
  | purgeStep p =>
      cases turn_of_step stepped with
      | purgeShard running more => exact silent _ rfl rfl
      | @purgeReturn p g running last =>
          refine ⟨[], [.purgeReturned p g.replica g.pattern], rfl, rfl, ?_⟩
          have even := (sound.purge p g.replica g.pattern).2
          simp only [added_nil, tally_cons, tally_nil, onReplica, even]
  | sweep i shard => cases turn_of_step stepped; exact silent _ rfl rfl
  | tick d => cases turn_of_step stepped; exact silent _ rfl rfl
  | l2Drop key => cases turn_of_step stepped; exact silent _ rfl rfl

/-- **An equation that the calls and the moves keep holds in every state of a run.** -/
theorem Audit.Sound.holds_of_run {audit : Audit ι} (sound : audit.Sound D) {clock : ℕ}
    {acts : List (Action ι × ℚ)} {s : Metered ι}
    (ran : run D.meteredStep (D.meteredInitial clock) acts = some s) : audit.Holds s := by
  have known : ∀ s', Steps D.meteredStep (fun _ _ => True) (D.meteredInitial clock) s' →
      Few s'.fleet.threads ∧ AllProper s'.fleet ∧ AllHopeless s'.fleet := by
    intro s' front
    have fleet : Steps D.step (fun _ _ => True) (D.initial clock) s'.fleet :=
      front.map Metered.fleet fun _ a _ _ taken => by
        obtain ⟨fleet, stepped, rfl⟩ := Option.map_eq_some_iff.mp taken
        exact .single (a := a.1) trivial stepped
    exact ⟨few_of_steps fleet, fleet.invariant (fun _ _ _ _ taken => allProper_step taken)
      (fun _ _ running => by cases running), allHopeless_of_steps fleet⟩
  refine (Steps.of_run (meets_true _ _ _) ran).invariant_of known
    (fun _ _ _ _ taken here _ before => sound.step taken here.1 here.2.1 here.2.2 before)
    fun i => ?_
  simp only [Metered.happened, Metered.standing, Deployment.meteredInitial, Deployment.initial,
    sum_initial, tally_nil, weigh_none]
  rfl

end Audits

/-! ## The truth of the counters -/

section Truth

variable [DecidableEq ι] {D : Deployment ι}

/-- Every call is a hit or a miss. -/
def callsAudit : Audit ι where
  left := [.hits, .misses]
  right := []
  income := Event.calls
  outgo := fun _ => 0
  held := Pc.looking

/-- Every miss and every stale answer goes to the registry, or passes. -/
def slotsAudit : Audit ι where
  left := [.coalesced]
  right := [.misses, .staleServed]
  income := fun _ => 0
  outgo := fun e => e.passes + e.leads
  held := Pc.entering

/-- Every miss passes, waits, or asks L2 where there is one. -/
def l2Audit : Audit ι where
  left := [.l2Hits, .l2Misses]
  right := [.misses]
  income := fun _ => 0
  outgo := fun e => e.passes + e.joins
  held := Pc.seeking

/-- Every pass and every leader finds L2, the open breaker, or the origin. -/
def originAudit : Audit ι where
  left := [.l2Hits, .circuitRejects, .histCount]
  right := []
  income := fun e => e.passes + e.leads
  outgo := fun _ => 0
  held := Pc.asking

/-- Every fetch is observed. -/
def latencyAudit : Audit ι where
  left := [.histCount]
  right := []
  income := Event.fetches
  outgo := fun _ => 0
  held := fun _ => 0

/-- Every failed fetch is an origin error. -/
def errorsAudit : Audit ι where
  left := [.originErrors]
  right := []
  income := Event.failures
  outgo := fun _ => 0
  held := Pc.erring

/-- The bytes served are the bytes of the answers. -/
def bytesAudit : Audit ι where
  left := [.bytesServed]
  right := []
  income := Event.bodyBytes
  outgo := fun _ => 0
  held := fun _ => 0

/-- Every purge message is counted. -/
def purgesAudit : Audit ι where
  left := [.purgeMessages]
  right := []
  income := Event.purgeMessages
  outgo := fun _ => 0
  held := fun _ => 0

section Checks

attribute [local simp] Metric.adds Metric.counter Metric.amount Deployment.entryRecords
  Deployment.entryPoint Event.calls Event.passes Event.leads Event.joins Event.fetches
  Event.failures Event.bodyBytes Event.purgeMessages Event.uncounted Pc.looking Pc.entering
  Pc.seeking Pc.asking Pc.erring Pc.finishing callsAudit slotsAudit l2Audit originAudit
  latencyAudit errorsAudit bytesAudit purgesAudit

omit [DecidableEq ι] in
theorem callsAudit_sound : (callsAudit : Audit ι).Sound D where
  start t i req := by by_cases cacheable : req.isCacheableMethod = true <;> simp [cacheable]
  move recorded unfinished := by
    cases recorded with
    | lead => by_cases l2 : D.l2Enabled = true <;> simp [l2]
    | _ => simp_all
  answer t i req resp hit := by simp
  purge p i pattern := by simp
  held pc := by cases pc <;> simp
  income e := by cases e <;> simp
  outgo e := by cases e <;> simp

omit [DecidableEq ι] in
theorem slotsAudit_sound : (slotsAudit : Audit ι).Sound D where
  start t i req := by by_cases cacheable : req.isCacheableMethod = true <;> simp [cacheable]
  move recorded unfinished := by
    cases recorded with
    | lead => by_cases l2 : D.l2Enabled = true <;> simp [l2]
    | _ => simp_all
  answer t i req resp hit := by simp
  purge p i pattern := by simp
  held pc := by cases pc <;> simp
  income e := by cases e <;> simp
  outgo e := by cases e <;> simp

omit [DecidableEq ι] in
theorem l2Audit_sound (enabled : D.l2Enabled = true) : (l2Audit : Audit ι).Sound D where
  start t i req := by by_cases cacheable : req.isCacheableMethod = true <;> simp [cacheable]
  move recorded unfinished := by
    cases recorded with
    | lead => simp [enabled]
    | _ => simp_all
  answer t i req resp hit := by simp
  purge p i pattern := by simp
  held pc := by cases pc <;> simp
  income e := by cases e <;> simp
  outgo e := by cases e <;> simp

omit [DecidableEq ι] in
theorem originAudit_sound : (originAudit : Audit ι).Sound D where
  start t i req := by by_cases cacheable : req.isCacheableMethod = true <;> simp [cacheable]
  move recorded unfinished := by
    cases recorded with
    | lead => by_cases l2 : D.l2Enabled = true <;> simp [l2]
    | _ => simp_all
  answer t i req resp hit := by simp
  purge p i pattern := by simp
  held pc := by cases pc <;> simp
  income e := by cases e <;> simp
  outgo e := by cases e <;> simp

omit [DecidableEq ι] in
theorem latencyAudit_sound : (latencyAudit : Audit ι).Sound D where
  start t i req := by by_cases cacheable : req.isCacheableMethod = true <;> simp [cacheable]
  move recorded unfinished := by
    cases recorded with
    | lead => simp
    | _ => simp_all
  answer t i req resp hit := by simp
  purge p i pattern := by simp
  held pc := by cases pc <;> simp
  income e := by cases e <;> simp
  outgo e := by cases e <;> simp

omit [DecidableEq ι] in
theorem errorsAudit_sound : (errorsAudit : Audit ι).Sound D where
  start t i req := by by_cases cacheable : req.isCacheableMethod = true <;> simp [cacheable]
  move recorded unfinished := by
    cases recorded with
    | lead => by_cases l2 : D.l2Enabled = true <;> simp [l2]
    | _ => simp_all
  answer t i req resp hit := by simp
  purge p i pattern := by simp
  held pc := by cases pc <;> simp
  income e := by cases e <;> simp
  outgo e := by cases e <;> simp

omit [DecidableEq ι] in
theorem bytesAudit_sound : (bytesAudit : Audit ι).Sound D where
  start t i req := by by_cases cacheable : req.isCacheableMethod = true <;> simp [cacheable]
  move recorded unfinished := by
    cases recorded with
    | lead => simp
    | _ => simp_all
  answer t i req resp hit := by simp
  purge p i pattern := by simp
  held pc := by cases pc <;> simp
  income e := by cases e <;> simp
  outgo e := by cases e <;> simp

omit [DecidableEq ι] in
theorem purgesAudit_sound : (purgesAudit : Audit ι).Sound D where
  start t i req := by by_cases cacheable : req.isCacheableMethod = true <;> simp [cacheable]
  move recorded unfinished := by
    cases recorded with
    | lead => simp
    | _ => simp_all
  answer t i req resp hit := by simp
  purge p i pattern := by simp
  held pc := by cases pc <;> simp
  income e := by cases e <;> simp
  outgo e := by cases e <;> simp

end Checks

/-- **The counters of a replica tell the truth.** -/
structure Truthful (D : Deployment ι) (s : Metered ι) (i : ι) : Prop where
  calls : (s.metrics i).hits + (s.metrics i).misses + s.standing i Pc.looking =
    s.happened i Event.calls
  slots : (s.metrics i).coalesced + (s.happened i Event.passes + s.happened i Event.leads) +
      s.standing i Pc.entering =
    (s.metrics i).misses + (s.metrics i).staleServed
  l2 : D.l2Enabled = true →
    (s.metrics i).l2Hits + (s.metrics i).l2Misses +
        (s.happened i Event.passes + s.happened i Event.joins) + s.standing i Pc.seeking =
      (s.metrics i).misses
  origin : (s.metrics i).l2Hits + (s.metrics i).circuitRejects + (s.metrics i).histCount +
      s.standing i Pc.asking =
    s.happened i Event.passes + s.happened i Event.leads
  latency : (s.metrics i).histCount = s.happened i Event.fetches
  errors : (s.metrics i).originErrors + s.standing i Pc.erring = s.happened i Event.failures
  bytes : (s.metrics i).bytesServed = s.happened i Event.bodyBytes
  purges : (s.metrics i).purgeMessages = s.happened i Event.purgeMessages

theorem happened_add (s : Metered ι) (i : ι) (q q' : Event ι → ℕ) :
    s.happened i (fun e => q e + q' e) = s.happened i q + s.happened i q' := by
  have parts : ∀ e, onReplica i (fun e => q e + q' e) e = onReplica i q e + onReplica i q' e := by
    intro e
    unfold onReplica
    split <;> rfl
  simp only [Metered.happened, tally, ← UInt64.ofNat_add, ← List.sum_map_add]
  rw [List.map_congr_left fun e _ => parts e]

theorem happened_zero (s : Metered ι) (i : ι) : s.happened i (fun _ => 0) = 0 := by
  have nothing : onReplica i (fun _ => 0) = fun _ : Event ι => 0 := by
    funext e
    simp [onReplica]
  simp [Metered.happened, nothing, tally]

theorem standing_zero (s : Metered ι) (i : ι) : s.standing i (fun _ => 0) = 0 := by
  have light : weigh (heldOn i fun _ => 0) s.fleet.threads = 0 := by
    rw [weigh, finsum_eq_zero_of_forall_eq_zero]
    intro k
    cases s.fleet.threads k <;> simp [heldOn]
  simp [Metered.standing, light]

/-- **In every state of a run the counters tell the truth**, modulo `2^64`, whatever the threads are
about to do. -/
theorem truthful_of_run (D : Deployment ι) {clock : ℕ} {acts : List (Action ι × ℚ)} {s : Metered ι}
    (ran : run D.meteredStep (D.meteredInitial clock) acts = some s) (i : ι) : Truthful D s i where
  calls := by
    have holds := callsAudit_sound.holds_of_run ran i
    simpa [callsAudit, MetricsRegistry.sum, MetricsRegistry.read, happened_zero] using holds
  slots := by
    have holds := slotsAudit_sound.holds_of_run ran i
    simpa [slotsAudit, MetricsRegistry.sum, MetricsRegistry.read,
      happened_zero, happened_add] using holds
  l2 enabled := by
    have holds := (l2Audit_sound enabled).holds_of_run ran i
    simpa [l2Audit, MetricsRegistry.sum, MetricsRegistry.read,
      happened_zero, happened_add] using holds
  origin := by
    have holds := originAudit_sound.holds_of_run ran i
    simpa [originAudit, MetricsRegistry.sum, MetricsRegistry.read, happened_zero, happened_add,
      UInt64.add_assoc] using holds
  latency := by
    have holds := latencyAudit_sound.holds_of_run ran i
    simpa [latencyAudit, MetricsRegistry.sum, MetricsRegistry.read,
      happened_zero, standing_zero] using holds
  errors := by
    have holds := errorsAudit_sound.holds_of_run ran i
    simpa [errorsAudit, MetricsRegistry.sum, MetricsRegistry.read, happened_zero] using holds
  bytes := by
    have holds := bytesAudit_sound.holds_of_run ran i
    simpa [bytesAudit, MetricsRegistry.sum, MetricsRegistry.read,
      happened_zero, standing_zero] using holds
  purges := by
    have holds := purgesAudit_sound.holds_of_run ran i
    simpa [purgesAudit, MetricsRegistry.sum, MetricsRegistry.read,
      happened_zero, standing_zero] using holds

/-- The metered run of two requests for one key. -/
def meteredRun : List (Action Unit × ℚ) := coalescedRun.map fun a => (a, 1 / 4)

theorem truthful_meteredRun :
    ∃ s, run soloDeployment.meteredStep (soloDeployment.meteredInitial 0) meteredRun = some s ∧
      ((s.metrics ()).misses = 2 ∧ (s.metrics ()).coalesced = 1 ∧ (s.metrics ()).histCount = 1 ∧
        (s.metrics ()).bytesServed = 2) ∧ Truthful soloDeployment s () := by
  obtain ⟨s, ran, counted⟩ := exists_of_run
    (show (run soloDeployment.meteredStep (soloDeployment.meteredInitial 0) meteredRun).any
      (fun s => (s.metrics ()).misses = 2 ∧ (s.metrics ()).coalesced = 1 ∧
        (s.metrics ()).histCount = 1 ∧ (s.metrics ()).bytesServed = 2) = true by decide +kernel)
  exact ⟨s, ran, by simpa using counted, truthful_of_run soloDeployment ran ()⟩

end Truth

end EdgeCache

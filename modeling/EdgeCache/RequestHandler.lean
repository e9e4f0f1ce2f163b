import EdgeCache.CachePolicy
import EdgeCache.CircuitBreaker
import EdgeCache.OriginClient
import EdgeCache.RedisL2Cache
import EdgeCache.ShardedCache

/-!
# The request handler as a transition system

`RequestHandler::process` runs in any number of threads at once, on any number of
replicas that share one L2.  What the threads share is guarded by mutexes: the
cache shards, the in-flight registry, the slots, the breaker and the L2
connection.  A step of a thread is the code from one such operation up to the
next, so it changes **at most one** shared object; `Write` says which.

* `Pc` — where a thread stands in `process` or in a background revalidation,
  with the local variables that are live there.
* `advance` — the step of one thread, read off the source.
* `step` — the steps of the whole fleet: threads, purges, the sweeper, the
  clock, and Redis dropping a key.

The clock counts nanoseconds; the steady and the wall clock are this one clock.
`trace` records what happened, newest first, and `owner` the registry entry a
slot was made for.  The program has neither; nothing reads them but the
statements.
-/

namespace EdgeCache

/-- What is fixed while the fleet runs: the configuration, the policy and
`std::hash`. -/
structure Deployment (ι : Type) where
  policy : CachePolicy
  hash : ByteString → UInt64
  defaultOriginHost : ByteString
  replicaId : ι → ByteString
  maxCacheBytes : UInt64
  workerThreads : ℕ
  l2Enabled : Bool
  limits : BreakerLimits

/-! ## The responses the handler builds -/

/-- `decorate`. -/
def decorate (replicaId : ByteString) (resp : HttpResponse) (xcache policyReason : ByteString) :
    HttpResponse :=
  let resp := (resp.setHeader (bytes "X-Cache") xcache).setHeader
    (bytes "X-EdgeCache-Replica") replicaId
  if policyReason = [] then resp else resp.setHeader (bytes "X-Cache-Policy") policyReason

@[simp] theorem decorate_status (replicaId : ByteString) (resp : HttpResponse)
    (xcache policyReason : ByteString) :
    (decorate replicaId resp xcache policyReason).status = resp.status := by
  simp only [decorate]
  split <;> rfl

@[simp] theorem decorate_body (replicaId : ByteString) (resp : HttpResponse)
    (xcache policyReason : ByteString) :
    (decorate replicaId resp xcache policyReason).body = resp.body := by
  simp only [decorate]
  split <;> rfl

@[simp] theorem decorate_reason (replicaId : ByteString) (resp : HttpResponse)
    (xcache policyReason : ByteString) :
    (decorate replicaId resp xcache policyReason).reason = resp.reason := by
  simp only [decorate]
  split <;> rfl

/-- The headers of a decorated response. -/
theorem find?_decorate (replicaId : ByteString) (resp : HttpResponse)
    (xcache policyReason name : ByteString) :
    (decorate replicaId resp xcache policyReason).headers.find? name =
      if policyReason ≠ [] ∧ lower (bytes "X-Cache-Policy") = lower name then some policyReason
      else if lower (bytes "X-EdgeCache-Replica") = lower name then some replicaId
      else if lower (bytes "X-Cache") = lower name then some xcache
      else resp.headers.find? name := by
  simp only [decorate]
  split
  · rename_i plain
    simp only [plain, ne_eq, not_true_eq_false, false_and, if_false, HttpResponse.setHeader,
      Headers.find?_insert]
  · rename_i reason
    simp only [reason, ne_eq, not_false_eq_true, true_and, HttpResponse.setHeader,
      Headers.find?_insert]

/-- `entryFrom` at the clock reading `now`. -/
def entryFrom (resp : HttpResponse) (d : CacheDecision) (now : ℤ) : CacheEntry where
  status := resp.status
  reason := resp.reason
  headers := resp.headers
  body := resp.body
  storedAt := now
  ttlSeconds := d.ttlSeconds
  staleWhileRevalidateSeconds := d.staleWhileRevalidateSeconds
  etag := resp.header (bytes "ETag")

/-- The response to a fresh L1 hit. -/
def hitResponse (replicaId : ByteString) (e : CacheEntry) (now : ℤ) : HttpResponse :=
  let age := (now - e.storedAt).tdiv second
  decorate replicaId (e.toResponse.setHeader (bytes "Age") (intToString age)) (bytes "HIT") []

/-- The response to a stale L1 hit that starts a revalidation. -/
def staleResponse (replicaId : ByteString) (e : CacheEntry) : HttpResponse :=
  decorate replicaId e.toResponse (bytes "STALE") []

/-- The response to an L2 hit. -/
def l2Response (replicaId : ByteString) (e : CacheEntry) : HttpResponse :=
  (decorate replicaId (e.toResponse.setHeader (bytes "Age") (bytes "0")) (bytes "HIT")
    (bytes "l2")).setHeader (bytes "X-Cache-Tier") (bytes "L2")

/-- The proxy's own error: 503 where the breaker rejected the fetch, 502 where it failed. -/
def errorResponse (rejected : Bool) : HttpResponse :=
  if rejected then
    HttpResponse.simple 503 (bytes "Service Unavailable") (bytes "origin circuit open\n")
  else HttpResponse.simple 502 (bytes "Bad Gateway") (bytes "origin error\n")

/-! ## Threads -/

/-- In what role a thread fetches: for a method that is not cached, as the
leader of a miss with what its lookup found, or as a background revalidation. -/
inductive Lead
  | pass
  | miss (slot : ℕ) (now : ℤ) (cached : Option CacheEntry)
  | revalidate (slot : ℕ)
  deriving DecidableEq

/-- The slot the thread acquired as leader. -/
def Lead.slot? : Lead → Option ℕ
  | .pass => none
  | .miss n _ _ => some n
  | .revalidate n => some n

/-- The next operation of a thread. -/
inductive Pc
  /-- `Clock::now()` at the head of `process`. -/
  | lookup
  /-- `cache.get(key)`. -/
  | get (now : ℤ)
  /-- The `acquire` of `triggerRevalidation`, with the stale response in hand. -/
  | trigger (resp : HttpResponse)
  /-- The `acquire` of `process`. -/
  | acquire (now : ℤ) (cached : Option CacheEntry)
  /-- `l2_->get(key)`. -/
  | l2Get (lead : Lead)
  /-- `cache.put(key, *l2entry)`. -/
  | promote (lead : Lead) (entry : CacheEntry)
  /-- `cb.allowRequest()`. -/
  | allowRequest (lead : Lead)
  /-- The call of `origin_.fetch`. -/
  | fetch (lead : Lead)
  /-- The return of `origin_.fetch`. -/
  | fetching (lead : Lead)
  /-- `cb.recordSuccess()` or `cb.recordFailure()`. -/
  | record (lead : Lead) (result : OriginResult)
  /-- `storeTiers` up to the cache: the decision and `entryFrom`. -/
  | storeTiers (lead : Lead) (resp : HttpResponse)
  /-- `cache.put` in `storeTiers`. -/
  | put (lead : Lead) (resp : HttpResponse) (entry : CacheEntry)
  /-- `l2_->put` in `storeTiers`. -/
  | l2Put (lead : Lead) (resp : HttpResponse) (entry : CacheEntry)
  /-- `publish` under the registry's mutex. -/
  | publish (lead : Lead) (hit : Option ℤ) (resp : HttpResponse) (success : Bool)
  /-- `publish` under the slot's mutex. -/
  | fill (lead : Lead) (slot : ℕ) (hit : Option ℤ) (resp : HttpResponse) (success : Bool)
  /-- `waitReady` on the acquired slot. -/
  | wait (slot : ℕ)
  /-- `maybeStore` up to the cache, on what the slot held. -/
  | maybeStore (slot : ℕ) (resp : HttpResponse) (success : Bool)
  /-- `cache.put` in `maybeStore`. -/
  | waiterPut (slot : ℕ) (resp : HttpResponse) (entry : CacheEntry)
  | done
  deriving DecidableEq

/-- A thread: the replica it runs on, its request and its next operation. -/
structure Thread (ι : Type) where
  replica : ι
  req : HttpRequest
  pc : Pc

/-- `InFlightRegistry::InFlight`. -/
structure InFlight where
  ready : Bool
  success : Bool
  response : HttpResponse
  deriving DecidableEq

/-- A newly made slot. -/
def InFlight.initial : InFlight where
  ready := false
  success := false
  response := HttpResponse.default

/-- A call of `ShardedCache::purge`: the next shard it locks. -/
structure Purge (ι : Type) where
  replica : ι
  pattern : ByteString
  next : ℕ

/-- What a run leaves in its trace. -/
inductive Event (ι : Type)
  /-- A call of `handle` begins. -/
  | began (t : ℕ) (i : ι) (req : HttpRequest)
  /-- A thread becomes the leader for the key, with a new slot. -/
  | led (t : ℕ) (i : ι) (key : ByteString) (slot : ℕ)
  /-- A thread acquires the slot of a fetch in flight. -/
  | joined (t : ℕ) (i : ι) (key : ByteString) (slot : ℕ)
  /-- A fetch from the origin starts. -/
  | fetchStarted (t : ℕ) (i : ι) (req : HttpRequest)
  /-- A fetch from the origin ends at the given time. -/
  | fetched (t : ℕ) (i : ι) (req : HttpRequest) (result : OriginResult) (time : ℕ)
  /-- The policy grants a response a lifetime, and it is about to be stored. -/
  | granted (t : ℕ) (i : ι) (req : HttpRequest) (resp : HttpResponse) (d : CacheDecision)
      (time : ℕ)
  /-- `publish` removes the slot from the registry. -/
  | withdrawn (t : ℕ) (i : ι) (key : ByteString) (slot : ℕ)
  /-- `publish` makes the slot ready. -/
  | filled (t : ℕ) (slot : ℕ) (resp : HttpResponse) (success : Bool)
  /-- `handle` returns; for a cached copy, with the clock reading it was fresh at. -/
  | answered (t : ℕ) (i : ι) (req : HttpRequest) (resp : HttpResponse) (hit : Option ℤ)
  /-- `ShardedCache::purge` begins. -/
  | purgeBegan (p : ℕ) (i : ι) (pattern : ByteString)
  /-- `ShardedCache::purge` returns. -/
  | purgeReturned (p : ℕ) (i : ι) (pattern : ByteString)
  deriving DecidableEq

/-! ## The state of the fleet -/

/-- The state of the fleet. -/
structure State (ι : Type) where
  clock : ℕ
  cache : ι → ShardedCache
  inflight : ι → ByteString → Option ℕ
  slots : ℕ → InFlight
  owner : ℕ → Option (ι × ByteString)
  nextSlot : ℕ
  breaker : ι → CircuitBreaker
  l2 : ByteString → Option ByteString
  threads : ℕ → Option (Thread ι)
  purges : ℕ → Option (Purge ι)
  trace : List (Event ι)

/-- The one shared object a step of a thread changes. -/
inductive Write
  | none
  /-- A cache operation. -/
  | cache (c : ShardedCache)
  /-- A breaker operation. -/
  | breaker (b : CircuitBreaker)
  /-- `inflight_.emplace(key, slot)` with a new slot. -/
  | enter
  /-- `inflight_.erase(it)`. -/
  | withdraw
  /-- The slot becomes ready. -/
  | fill (slot : ℕ) (resp : HttpResponse) (success : Bool)
  /-- Redis `SET`. -/
  | l2 (blob : ByteString)

/-- What a step of a thread does: its next operation, the shared object it
changes, what it adds to the trace, and the thread it starts. -/
structure Outcome (ι : Type) where
  pc : Pc
  write : Write := .none
  events : List (Event ι) := []
  child : Option (ℕ × Pc) := none

/-- What the environment contributes to a step: the identity of a thread that is
started, whether Redis can be reached, and the origin's answer. -/
structure Input where
  child : ℕ
  reachable : Bool
  result : OriginResult

/-- A leader is through: a request answers, a revalidation has nobody to answer. -/
def conclude {ι : Type} (t : ℕ) (th : Thread ι) (lead : Lead) (hit : Option ℤ) (resp : HttpResponse) :
    List (Event ι) :=
  match lead with
  | .revalidate _ => []
  | _ => [.answered t th.replica th.req resp hit]

namespace Deployment

variable {ι : Type} (D : Deployment ι)

/-- The cache key of a request: `CacheKey::fromRequest(req, targetFor(req.path).host)`. -/
def key (r : HttpRequest) : ByteString := CacheKey.fromRequest r D.defaultOriginHost

/-- The decision `maybeStore` and `storeTiers` act on; `none` where they return. -/
def decision (r : HttpRequest) (resp : HttpResponse) : Option CacheDecision :=
  if r.isCacheableMethod = false then none
  else
    let d := D.policy r.path resp
    if d.cacheable = false then none else some d

/-- The initial state of the fleet: empty caches, nothing in flight. -/
def initial (clock : ℕ) : State ι where
  clock := clock
  cache := fun _ => ShardedCache.create D.maxCacheBytes D.workerThreads
  inflight := fun _ _ => none
  slots := fun _ => InFlight.initial
  owner := fun _ => none
  nextSlot := 0
  breaker := fun _ => CircuitBreaker.initial
  l2 := fun _ => none
  threads := fun _ => none
  purges := fun _ => none
  trace := []

/-- What a leader answers and publishes once the origin has answered. -/
def fetchedResponse (th : Thread ι) (lead : Lead) (resp : HttpResponse) : HttpResponse :=
  match lead with
  | .pass => decorate (D.replicaId th.replica) resp (bytes "PASS") []
  | .miss _ _ _ =>
      decorate (D.replicaId th.replica) resp (bytes "MISS") (D.policy th.req.path resp).reason
  | .revalidate _ => resp

/-- What a leader answers and publishes where the fetch failed or was rejected.
A revalidation publishes the `HttpResponse` it never assigned. -/
def failureResponse (th : Thread ι) (lead : Lead) (rejected : Bool) : HttpResponse :=
  match lead with
  | .pass => decorate (D.replicaId th.replica) (errorResponse rejected) (bytes "PASS") []
  | .miss _ now (some cached) =>
      if cached.isServeableStale now then
        decorate (D.replicaId th.replica) cached.toResponse (bytes "STALE")
          (bytes "origin-unavailable")
      else decorate (D.replicaId th.replica) (errorResponse rejected) (bytes "MISS") []
  | .miss _ _ none =>
      decorate (D.replicaId th.replica) (errorResponse rejected) (bytes "MISS") []
  | .revalidate _ => HttpResponse.default

/-- What a coalesced waiter answers. -/
def coalescedResponse (th : Thread ι) (resp : HttpResponse) : HttpResponse :=
  decorate (D.replicaId th.replica) resp (bytes "MISS") (bytes "coalesced")

/-- A fetch failed or was rejected. -/
def afterFailure (t : ℕ) (th : Thread ι) (lead : Lead) (rejected : Bool)
    (b : CircuitBreaker) : Outcome ι :=
  let resp := D.failureResponse th lead rejected
  match lead with
  | .pass =>
      { pc := .done
        write := .breaker b
        events := conclude t th lead none resp }
  | _ =>
      { pc := .publish lead none resp false
        write := .breaker b }

/-- `cache.put` in `storeTiers` is done. -/
def afterPut (th : Thread ι) (lead : Lead) (resp : HttpResponse) (entry : CacheEntry) : Pc :=
  if D.l2Enabled then .l2Put lead resp entry
  else .publish lead none (D.fetchedResponse th lead resp) true

/-! ## One step of a thread -/

/-- `cache.get` and the branches on what it finds. -/
def lookedUp (t : ℕ) (th : Thread ι) (now : ℤ) (cached : Option CacheEntry)
    (cache : ShardedCache) : Outcome ι :=
  match cached with
  | none => { pc := .acquire now none, write := .cache cache }
  | some e =>
      if e.isFresh now then
        { pc := .done
          write := .cache cache
          events := [.answered t th.replica th.req
            (hitResponse (D.replicaId th.replica) e now) (some now)] }
      else if e.isServeableStale now then
        { pc := .trigger (staleResponse (D.replicaId th.replica) e), write := .cache cache }
      else { pc := .acquire now (some e), write := .cache cache }

/-- **The next step of a thread**, or `none` while it has to wait. -/
def advance (s : State ι) (t : ℕ) (th : Thread ι) (input : Input) : Option (Outcome ι) :=
  let i := th.replica
  let key := D.key th.req
  match th.pc with
  | .lookup => some { pc := .get s.clock }
  | .get now =>
      let (cached, cache) := (s.cache i).get D.hash key
      some (D.lookedUp t th now cached cache)
  | .trigger resp =>
      match s.inflight i key with
      | some _ => some { pc := .done, events := [.answered t i th.req resp none] }
      | none =>
          if (s.threads input.child).isNone then
            some
              { pc := .done
                write := .enter
                events := [.answered t i th.req resp none, .led input.child i key s.nextSlot]
                child := some (input.child, .allowRequest (.revalidate s.nextSlot)) }
          else none
  | .acquire now cached =>
      match s.inflight i key with
      | some n => some { pc := .wait n, events := [.joined t i key n] }
      | none =>
          let lead := Lead.miss s.nextSlot now cached
          some
            { pc := if D.l2Enabled then .l2Get lead else .allowRequest lead
              write := .enter
              events := [.led t i key s.nextSlot] }
  | .l2Get lead =>
      let found := if input.reachable then s.l2 key else none
      match found.bind fun blob => RedisL2Cache.decode blob (RedisL2Cache.nowWallMs s.clock)
        s.clock with
      | some entry => some { pc := .promote lead entry }
      | none => some { pc := .allowRequest lead }
  | .promote lead entry =>
      some
        { pc := .publish lead (some entry.storedAt) (l2Response (D.replicaId i) entry) true
          write := .cache ((s.cache i).put D.hash key entry) }
  | .allowRequest lead =>
      let (allowed, b) := (s.breaker i).allowRequest D.limits s.clock
      some (if allowed then { pc := .fetch lead, write := .breaker b }
        else D.afterFailure t th lead true b)
  | .fetch lead => some { pc := .fetching lead, events := [.fetchStarted t i th.req] }
  | .fetching lead =>
      some
        { pc := .record lead input.result
          events := [.fetched t i th.req input.result s.clock] }
  | .record lead result =>
      if result.ok then
        let b := (s.breaker i).recordSuccess
        match lead with
        | .pass =>
            some
              { pc := .done
                write := .breaker b
                events := conclude t th lead none (D.fetchedResponse th lead result.response) }
        | _ => some { pc := .storeTiers lead result.response, write := .breaker b }
      else
        some (D.afterFailure t th lead false ((s.breaker i).recordFailure D.limits s.clock))
  | .storeTiers lead resp =>
      match D.decision th.req resp with
      | none => some { pc := .publish lead none (D.fetchedResponse th lead resp) true }
      | some d =>
          some
            { pc := .put lead resp (entryFrom resp d s.clock)
              events := [.granted t i th.req resp d s.clock] }
  | .put lead resp entry =>
      some
        { pc := D.afterPut th lead resp entry
          write := .cache ((s.cache i).put D.hash key entry) }
  | .l2Put lead resp entry =>
      let blob := if input.reachable then
        RedisL2Cache.encode entry entry.ttlSeconds (RedisL2Cache.nowWallMs s.clock) else none
      some
        { pc := .publish lead none (D.fetchedResponse th lead resp) true
          write := blob.elim .none .l2 }
  | .publish lead hit resp success =>
      match s.inflight i key with
      | some n =>
          some
            { pc := .fill lead n hit resp success
              write := .withdraw
              events := [.withdrawn t i key n] }
      | none => some { pc := .done, events := conclude t th lead hit resp }
  | .fill lead n hit resp success =>
      some
        { pc := .done
          write := .fill n resp success
          events := conclude t th lead hit resp ++ [.filled t n resp success] }
  | .wait n =>
      let slot := s.slots n
      if slot.ready then some { pc := .maybeStore n slot.response slot.success } else none
  | .maybeStore n resp success =>
      match if success then D.decision th.req resp else none with
      | none =>
          some
            { pc := .done
              events := [.answered t i th.req (D.coalescedResponse th resp) none] }
      | some d =>
          some
            { pc := .waiterPut n resp (entryFrom resp d s.clock)
              events := [.granted t i th.req resp d s.clock] }
  | .waiterPut _ resp entry =>
      some
        { pc := .done
          write := .cache ((s.cache i).put D.hash key entry)
          events := [.answered t i th.req (D.coalescedResponse th resp) none] }
  | .done => none

end Deployment

/-! ## The steps of the fleet -/

namespace State

variable {ι : Type} [DecidableEq ι]

/-- Change the shared object a step writes to. -/
def apply (s : State ι) (i : ι) (key : ByteString) : Write → State ι
  | .none => s
  | .cache c => { s with cache := Function.update s.cache i c }
  | .breaker b => { s with breaker := Function.update s.breaker i b }
  | .enter =>
      { s with
        inflight := Function.update s.inflight i
          (Function.update (s.inflight i) key (some s.nextSlot))
        slots := Function.update s.slots s.nextSlot InFlight.initial
        owner := Function.update s.owner s.nextSlot (some (i, key))
        nextSlot := s.nextSlot + 1 }
  | .withdraw =>
      { s with inflight := Function.update s.inflight i (Function.update (s.inflight i) key none) }
  | .fill n resp success =>
      { s with
        slots := Function.update s.slots n
          { ready := true, success := success, response := resp } }
  | .l2 blob => { s with l2 := Function.update s.l2 key (some blob) }

/-- Start the thread of a background revalidation. -/
def spawn (threads : ℕ → Option (Thread ι)) (th : Thread ι) :
    Option (ℕ × Pc) → ℕ → Option (Thread ι)
  | none => threads
  | some (u, pc) => Function.update threads u (some { th with pc := pc })

/-- The state after a step of the thread `t`. -/
def commit (s : State ι) (key : ByteString) (t : ℕ) (th : Thread ι) (o : Outcome ι) : State ι :=
  { s.apply th.replica key o.write with
    threads := spawn (Function.update s.threads t (some { th with pc := o.pc })) th o.child
    trace := o.events ++ s.trace }

end State

/-- What can happen next. -/
inductive Action (ι : Type)
  /-- `handle(req, cache)` is called. -/
  | start (t : ℕ) (i : ι) (req : HttpRequest)
  /-- A thread takes its next step. -/
  | step (t : ℕ) (input : Input)
  /-- `ShardedCache::purge(pattern)` is called. -/
  | purgeStart (p : ℕ) (i : ι) (pattern : ByteString)
  /-- A purge takes its next shard, or returns after the last. -/
  | purgeStep (p : ℕ)
  /-- The sweeper goes over one shard. -/
  | sweep (i : ι) (shard : ℕ)
  /-- Time passes. -/
  | tick (d : ℕ)
  /-- Redis drops a key: it expired, was evicted or was deleted. -/
  | l2Drop (key : ByteString)

namespace Deployment

variable {ι : Type} [DecidableEq ι] (D : Deployment ι)

/-- Where `process` starts. -/
def entryPoint (req : HttpRequest) : Pc :=
  if req.isCacheableMethod then .lookup else .allowRequest .pass

/-- **The steps of the fleet.** -/
def step (s : State ι) : Action ι → Option (State ι)
  | .start t i req =>
      if (s.threads t).isNone then
        some { s with
          threads := Function.update s.threads t (some ⟨i, req, entryPoint req⟩)
          trace := .began t i req :: s.trace }
      else none
  | .step t input =>
      (s.threads t).bind fun th => (D.advance s t th input).map (s.commit (D.key th.req) t th)
  | .purgeStart p i pattern =>
      if (s.purges p).isNone then
        some { s with
          purges := Function.update s.purges p (some ⟨i, pattern, 0⟩)
          trace := .purgeBegan p i pattern :: s.trace }
      else none
  | .purgeStep p =>
      (s.purges p).bind fun g =>
        let purges := Function.update s.purges p (some { g with next := g.next + 1 })
        if g.next < (s.cache g.replica).shards.length then
          some { s with
            cache := Function.update s.cache g.replica
              ((s.cache g.replica).purgeShard g.next g.pattern)
            purges := purges }
        else if g.next = (s.cache g.replica).shards.length then
          some { s with
            purges := purges
            trace := .purgeReturned p g.replica g.pattern :: s.trace }
        else none
  | .sweep i shard =>
      some { s with
        cache := Function.update s.cache i ((s.cache i).sweepShard shard s.clock) }
  | .tick d => if s.clock + d < 2 ^ 63 then some { s with clock := s.clock + d } else none
  | .l2Drop key => some { s with l2 := Function.update s.l2 key none }

end Deployment

/-! ## Small deployments -/

/-- One replica without L2, with two shards and the header policy. -/
def soloDeployment : Deployment Unit where
  policy := HeaderBasedPolicy.decide 60
  hash := fun key => UInt64.ofNat key.length
  defaultOriginHost := bytes "origin"
  replicaId := fun _ => bytes "r1"
  maxCacheBytes := 1000000
  workerThreads := 2
  l2Enabled := false
  limits := { failureThreshold := 5, openMs := 10000, halfOpenMaxProbes := 1 }

/-- Two replicas with one L2. -/
def pairDeployment : Deployment Bool where
  policy := HeaderBasedPolicy.decide 60
  hash := fun key => UInt64.ofNat key.length
  defaultOriginHost := bytes "origin"
  replicaId := fun _ => bytes "r"
  maxCacheBytes := 1000000
  workerThreads := 2
  l2Enabled := true
  limits := { failureThreshold := 5, openMs := 10000, halfOpenMaxProbes := 1 }

/-- A `GET` without headers, body and query. -/
def getRequest (path : ByteString) : HttpRequest where
  method := bytes "GET"
  target := path
  version := bytes "HTTP/1.1"
  headers := Headers.empty
  body := []
  path := path
  query := []

/-- The input of a step in which the origin, if it is asked, answers `200` with
the given header and body. -/
def okInput (name value body : ByteString) : Input where
  child := 100
  reachable := true
  result := .success
    { HttpResponse.default with headers := Headers.empty.insert name value, body := body }

/-- The input of a step in which the origin, if it is asked, cannot be reached. -/
def failInput : Input where
  child := 100
  reachable := true
  result := { ok := false, timedOut := false, response := HttpResponse.default, error := [] }

/-- A number of steps of one thread with the same input. -/
def steps (n t : ℕ) (input : Input) : List (Action Unit) := List.replicate n (.step t input)

end EdgeCache

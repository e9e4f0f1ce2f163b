import EdgeCache.Sharing

/-!
# What a purge leaves behind

`ShardedCache::purge` clears L1 shard by shard.  It does not reach the threads
that are under way: a leader that has fetched before the purge stores after it,
and so does a waiter.  `Underway` names what the threads for a key hold at the
moment the key's shard is cleared.

**Main result.**  A request that arrives after a purge is served what was fetched
since the purge began, or what was under way at that moment, or an error
(`served_after_purge`).
-/

namespace EdgeCache

variable {ι : Type} [DecidableEq ι] {D : Deployment ι} {start final s s' : State ι}

/-! ## Contents -/

/-- Status and body. -/
def HttpResponse.content (r : HttpResponse) : Int32 × ByteString := (r.status, r.body)

/-- Status and body. -/
def CacheEntry.content (e : CacheEntry) : Int32 × ByteString := (e.status, e.body)

section Content

omit [DecidableEq ι]

@[simp] theorem hitResponse_content (id : ByteString) (e : CacheEntry) (now : ℤ) :
    (hitResponse id e now).content = e.content := by simp [HttpResponse.content, CacheEntry.content]

@[simp] theorem staleResponse_content (id : ByteString) (e : CacheEntry) :
    (staleResponse id e).content = e.content := by simp [HttpResponse.content, CacheEntry.content]

@[simp] theorem l2Response_content (id : ByteString) (e : CacheEntry) :
    (l2Response id e).content = e.content := by simp [HttpResponse.content, CacheEntry.content]

@[simp] theorem coalescedResponse_content (th : Thread ι) (resp : HttpResponse) :
    (D.coalescedResponse th resp).content = resp.content := by simp [HttpResponse.content]

@[simp] theorem fetchedResponse_content (th : Thread ι) (lead : Lead) (resp : HttpResponse) :
    (D.fetchedResponse th lead resp).content = resp.content := by simp [HttpResponse.content]

@[simp] theorem entryFrom_content (resp : HttpResponse) (d : CacheDecision) (now : ℤ) :
    (entryFrom resp d now).content = resp.content := rfl

end Content

/-- The contents a thread holds and may store or publish. -/
def Pc.contents : Pc → List (Int32 × ByteString)
  | .promote _ e => [e.content]
  | .record _ result => if result.ok then [result.response.content] else []
  | .storeTiers _ resp => [resp.content]
  | .put _ resp e | .l2Put _ resp e => [resp.content, e.content]
  | .publish _ _ resp _ | .fill _ _ _ resp _ | .maybeStore _ resp _ => [resp.content]
  | .waiterPut _ resp e => [resp.content, e.content]
  | _ => []

/-! ## Since when -/

/-- The event happened between the two states of a run. -/
def Since (start final : State ι) (e : Event ι) : Prop :=
  ∃ new, final.trace = new ++ start.trace ∧ e ∈ new

omit [DecidableEq ι] in
/-- What happened in a part of a run happened in the run. -/
theorem Since.widen {r r' : State ι} {e : Event ι} (since : Since r r' e)
    (before : start.trace <:+ r.trace) (after : r'.trace <:+ final.trace) :
    Since start final e := by
  obtain ⟨new, same, mem⟩ := since
  obtain ⟨front, old⟩ := before
  obtain ⟨back, late⟩ := after
  refine ⟨back ++ (new ++ front), ?_, by simp [mem]⟩
  rw [← late, same, ← old]
  simp

/-- Every fetch that is out was started since the given state, or was out there. -/
def Started (m s : State ι) : Prop :=
  ∀ t th lead, s.threads t = some th → th.pc = .fetching lead →
    (∃ lead', m.threads t = some { th with pc := .fetching lead' }) ∨
      Since m s (.fetchStarted t th.replica th.req)

theorem started_step {m : State ι} {a : Action ι} (past : m.trace <:+ s.trace)
    (taken : D.step s a = some s') (before : Started m s) : Started m s' := by
  have grows := (persists_step taken).1
  have old : ∀ t th lead, s.threads t = some th → th.pc = .fetching lead →
      (∃ lead', m.threads t = some { th with pc := .fetching lead' }) ∨
        Since m s' (.fetchStarted t th.replica th.req) := by
    intro t th lead running here
    exact (before t th lead running here).imp_right fun since =>
      since.widen (List.suffix_refl _) grows
  have step := threads_step taken (fun u i req _ => ?_) (fun t th input o _ after running move _ => ?_)
    fun t th running lead => old t th lead running
  · exact fun t th lead running => step t th running lead
  · intro lead here
    change (if _ then Pc.lookup else Pc.allowRequest _) = _ at here
    split at here <;> cases here
  · refine ⟨fun lead here => ?_, fun u pc born lead here => ?_⟩
    · cases move with
      | fetch before =>
          obtain ⟨new, same⟩ := past
          refine Or.inr ⟨[.fetchStarted t th.replica th.req] ++ new, ?_, by simp⟩
          rw [after, commit_trace, ← same, List.append_assoc]
      | lead before absent =>
          change (if _ then Pc.l2Get _ else Pc.allowRequest _) = _ at here
          split at here <;> cases here
      | put before =>
          change (if _ then Pc.l2Put _ _ _ else Pc.publish _ _ _ _) = _ at here
          split at here <;> cases here
      | _ => cases here
    · cases move with
      | triggerLead before absent unused =>
          cases born
          cases here
      | _ => cases born

theorem started_of_steps {m : State ι} {guard : State ι → Action ι → Prop}
    (run : Transition.Steps D.step guard m s) : Started m s :=
  run.invariant_of (fun _ front => (persists_of_steps front).1)
    (fun _ _ _ _ taken past _ => started_step past taken)
    fun _ _ lead running here => Or.inl ⟨lead, here ▸ running⟩

/-! ## Without L2 -/

/-- An operation on L2. -/
def Pc.OnL2 : Pc → Prop
  | .l2Get _ | .promote _ _ | .l2Put _ _ _ => True
  | _ => False

/-- Without L2 no thread gets to an operation on it. -/
theorem offL2_step {a : Action ι} (off : D.l2Enabled = false) (taken : D.step s a = some s')
    (before : ∀ t th, s.threads t = some th → ¬ th.pc.OnL2) :
    ∀ t th, s'.threads t = some th → ¬ th.pc.OnL2 := by
  refine threads_step taken (fun t i req _ => ?_) (fun t th input o _ _ _ move idle => ?_) before
  · unfold Deployment.entryPoint
    split <;> simp [Pc.OnL2]
  · cases move <;> simp_all [Pc.OnL2, Deployment.afterPut]

/-! ## The course of a purge -/

omit [DecidableEq ι] in
/-- A move answers for its own thread. -/
theorem answered_of_move {t u : ℕ} {th : Thread ι} {input : Input} {o : Outcome ι} {i : ι}
    {req : HttpRequest} {resp : HttpResponse} {hit : Option ℤ} (move : Move D s t th input o)
    (mem : .answered u i req resp hit ∈ o.events) : u = t := by
  have concluded : ∀ lead hit' resp', .answered u i req resp hit ∈ conclude t th lead hit' resp' →
      u = t := by
    intro lead hit' resp' here
    cases lead with
    | revalidate n => cases here
    | _ => cases List.mem_singleton.mp here; rfl
  cases move with
  | lost here absent => exact concluded _ _ _ mem
  | fill here =>
      rcases List.mem_append.mp mem with mine | other
      · exact concluded _ _ _ mine
      · cases List.mem_singleton.mp other
  | _ => simp_all

omit [DecidableEq ι] in
/-- A move is no part of a purge. -/
theorem purgeReturned_notMem_of_move {t p : ℕ} {th : Thread ι} {input : Input} {o : Outcome ι}
    {i : ι} {pattern : ByteString} (move : Move D s t th input o) :
    .purgeReturned p i pattern ∉ o.events := by
  have concluded : ∀ lead hit resp, .purgeReturned p i pattern ∉ conclude t th lead hit resp := by
    intro lead hit resp here
    cases lead <;> simp [conclude] at here
  cases move with
  | lost here absent => exact concluded _ _ _
  | fill here => simp [concluded]
  | _ => simp

/-- Whoever has answered has been started. -/
theorem answered_started {a : Action ι} (taken : D.step s a = some s')
    (before : ∀ t i req resp hit, .answered t i req resp hit ∈ s.trace → s.threads t ≠ none) :
    ∀ t i req resp hit, .answered t i req resp hit ∈ s'.trace → s'.threads t ≠ none := by
  have persists := (persists_step taken).2.2
  intro t i req resp hit mem
  have old : .answered t i req resp hit ∈ s.trace → s'.threads t ≠ none := by
    intro was
    obtain ⟨th, running⟩ := Option.ne_none_iff_exists'.mp (before t i req resp hit was)
    obtain ⟨pc, running⟩ := persists t th running
    simp [running]
  cases turn_of_step taken with
  | @thread u input th o running move =>
      rcases List.mem_append.mp mem with new | was
      · cases answered_of_move move new
        rw [threads_commit_self move running]
        simp
      · exact old was
  | start unused => exact old ((List.mem_cons.mp mem).resolve_left (by simp))
  | purgeStart unused => exact old ((List.mem_cons.mp mem).resolve_left (by simp))
  | purgeReturn running last => exact old ((List.mem_cons.mp mem).resolve_left (by simp))
  | _ => exact old mem

theorem started_of_answered {guard : State ι → Action ι → Prop} {clock t : ℕ} {i : ι}
    {req : HttpRequest} {resp : HttpResponse} {hit : Option ℤ}
    (run : Transition.Steps D.step guard (D.initial clock) s)
    (mem : .answered t i req resp hit ∈ s.trace) : s.threads t ≠ none :=
  run.invariant (fun _ _ _ _ taken => answered_started taken)
    (fun _ _ _ _ _ never => by cases never) t i req resp hit mem

/-- A purge that has returned has begun. -/
theorem returned_started {a : Action ι} (taken : D.step s a = some s')
    (before : ∀ p i pattern, .purgeReturned p i pattern ∈ s.trace → s.purges p ≠ none) :
    ∀ p i pattern, .purgeReturned p i pattern ∈ s'.trace → s'.purges p ≠ none := by
  intro p i pattern mem
  have updated : ∀ (q : ℕ) (g : Purge ι), .purgeReturned p i pattern ∈ s.trace ∨ p = q →
      Function.update s.purges q (some g) p ≠ none := by
    intro q g cases
    by_cases here : p = q
    · rw [here, Function.update_self]
      simp
    · rw [Function.update_of_ne here]
      exact before p i pattern (cases.resolve_right here)
  cases turn_of_step taken with
  | @thread t input th o running move =>
      rw [commit_purges]
      exact before p i pattern
        ((List.mem_append.mp mem).resolve_left (purgeReturned_notMem_of_move move))
  | start unused => exact before p i pattern ((List.mem_cons.mp mem).resolve_left (by simp))
  | purgeStart unused =>
      exact updated _ _ (Or.inl ((List.mem_cons.mp mem).resolve_left (by simp)))
  | purgeShard running more => exact updated _ _ (Or.inl mem)
  | purgeReturn running last =>
      refine updated _ _ ((List.mem_cons.mp mem).symm.imp_right fun new => ?_)
      cases new
      rfl
  | _ => exact before p i pattern mem

/-- The purge `p` is going on, and where it has returned it has been through all shards. -/
def Purging (p : ℕ) (i : ι) (pattern : ByteString) (s : State ι) : Prop :=
  ∃ g, s.purges p = some g ∧ g.replica = i ∧ g.pattern = pattern ∧
    (.purgeReturned p i pattern ∈ s.trace → (s.cache i).shards.length < g.next)

omit [DecidableEq ι] in
/-- A move keeps the number of shards. -/
theorem length_of_move {t : ℕ} {th : Thread ι} {input : Input} {o : Outcome ι}
    {c : ShardedCache} (move : Move D s t th input o) (write : o.write = .cache c) :
    c.shards.length = (s.cache th.replica).shards.length := by
  have looked : ∀ {cached : Option CacheEntry} {c' : ShardedCache},
      (s.cache th.replica).get D.hash (D.key th.req) = (cached, c') → c' = c →
      c.shards.length = (s.cache th.replica).shards.length := by
    intro cached c' found same
    have after : c' = ((s.cache th.replica).get D.hash (D.key th.req)).2 := by rw [found]
    rw [← same, after, ShardedCache.length_get]
  cases move with
  | hit here found fresh => exact looked found (Write.cache.inj write)
  | stale here found aged serveable => exact looked found (Write.cache.inj write)
  | miss here found useless => exact looked found (Write.cache.inj write)
  | promote here => rw [← Write.cache.inj write, ShardedCache.length_put]
  | put here => rw [← Write.cache.inj write, ShardedCache.length_put]
  | waiterPut here => rw [← Write.cache.inj write, ShardedCache.length_put]
  | _ => cases write

/-- The number of shards is fixed. -/
theorem length_step {a : Action ι} (taken : D.step s a = some s') (i : ι) :
    (s'.cache i).shards.length = (s.cache i).shards.length := by
  have updated : ∀ (j : ι) (c : ShardedCache),
      c.shards.length = (s.cache j).shards.length →
      (Function.update s.cache j c i).shards.length = (s.cache i).shards.length := by
    intro j c same
    by_cases here : i = j
    · rw [here, Function.update_self, same]
    · rw [Function.update_of_ne here]
  cases turn_of_step taken with
  | @thread t input th o running move =>
      rw [commit_cache]
      cases write : o.write with
      | cache c => exact updated _ _ (length_of_move move write)
      | _ => rfl
  | purgeShard running more => exact updated _ _ ShardedCache.length_update
  | sweep => exact updated _ _ ShardedCache.length_update
  | _ => rfl

/-- A purge goes on until it has returned. -/
theorem purging_step {a : Action ι} {p : ℕ} {i : ι} {pattern : ByteString}
    (taken : D.step s a = some s') (before : Purging p i pattern s) : Purging p i pattern s' := by
  obtain ⟨g, running, replica, same, through⟩ := before
  have length := length_step taken i
  unfold Purging
  rw [length]
  cases turn_of_step taken with
  | @thread t input th o _ move =>
      refine ⟨g, by rw [commit_purges]; exact running, replica, same, fun mem => ?_⟩
      exact through ((List.mem_append.mp mem).resolve_left (purgeReturned_notMem_of_move move))
  | start unused =>
      exact ⟨g, running, replica, same, fun mem =>
        through ((List.mem_cons.mp mem).resolve_left (by simp))⟩
  | @purgeStart q j pattern' unused =>
      have apart : p ≠ q := by
        rintro rfl
        rw [unused] at running
        cases running
      exact ⟨g, (Function.update_of_ne apart ..).trans running, replica, same, fun mem =>
        through ((List.mem_cons.mp mem).resolve_left (by simp))⟩
  | @purgeShard q h running' more =>
      by_cases here : p = q
      · subst here
        rw [running, Option.some.injEq] at running'
        subst running'
        exact ⟨_, Function.update_self .., replica, same, fun mem =>
          Nat.lt_succ_of_lt (through mem)⟩
      · exact ⟨g, (Function.update_of_ne here ..).trans running, replica, same, through⟩
  -- Returning counts one past the last shard.
  | @purgeReturn q h running' last =>
      by_cases here : p = q
      · subst here
        rw [running, Option.some.injEq] at running'
        subst running'
        refine ⟨_, Function.update_self .., replica, same, fun _ => ?_⟩
        rw [← replica, ← last]
        exact Nat.lt_succ_self _
      · refine ⟨g, (Function.update_of_ne here ..).trans running, replica, same, fun mem => ?_⟩
        refine through ((List.mem_cons.mp mem).resolve_left fun new => here ?_)
        cases new
        rfl
  | _ => exact ⟨g, running, replica, same, through⟩

/-- A purge that has begun is going on. -/
theorem going_of_purgeStart {guard : State ι → Action ι → Prop} {clock p : ℕ} {i : ι}
    {pattern : ByteString} (earlier : Transition.Steps D.step guard (D.initial clock) s)
    (began : D.step s (.purgeStart p i pattern) = some s') : Purging p i pattern s' := by
  cases turn_of_step began with
  | purgeStart unused =>
      refine ⟨_, Function.update_self .., rfl, rfl, fun mem => ?_⟩
      have old := (List.mem_cons.mp mem).resolve_left (by simp)
      refine absurd unused
        (earlier.invariant (fun _ _ _ _ taken => returned_started taken) ?_ _ _ _ old)
      exact fun _ _ _ none => by cases none

/-! ## What can be served after a purge -/

/-- A fetch for the key that started since the state `start` delivered this content.
A thread fetches once. -/
def FetchedSince (D : Deployment ι) (start final : State ι) (i : ι) (k : ByteString)
    (content : Int32 × ByteString) : Prop :=
  ∃ t req result time, .fetched t i req result time ∈ final.trace ∧ D.key req = k ∧
    result.ok = true ∧ result.response.content = content ∧
    Since start final (.fetchStarted t i req)

/-- **What is under way** in the state `m`: a thread for the key holds this content, or
waits on a slot that is ready with it, or has a fetch out that will deliver it. -/
def Underway (D : Deployment ι) (m final : State ι) (i : ι) (k : ByteString)
    (content : Int32 × ByteString) : Prop :=
  ∃ t th, m.threads t = some th ∧ th.replica = i ∧ D.key th.req = k ∧
    (content ∈ th.pc.contents ∨
      (∃ n, th.pc = .wait n ∧ (m.slots n).ready = true ∧ content = (m.slots n).response.content) ∨
      ∃ lead result time, th.pc = .fetching lead ∧
        .fetched t i th.req result time ∈ final.trace ∧ result.ok = true ∧
        content = result.response.content)

/-- What a purge that began in `start` and cleared the shard of the key in `m` leaves. -/
def Leftover (D : Deployment ι) (start m final : State ι) (i : ι) (k : ByteString)
    (content : Int32 × ByteString) : Prop :=
  FetchedSince D start final i k content ∨ Underway D m final i k content

/-- The thread was handed the placeholder of a failed revalidation. -/
def HandedPlaceholder (s : State ι) (t : ℕ) (i : ι) (k : ByteString) : Prop :=
  ∃ n u, .joined t i k n ∈ s.trace ∧ .filled u n HttpResponse.default false ∈ s.trace

/-! ### Good content

The statement that only good content is at the places of some keys on some replicas, and is
what later requests for them get, is closed as soon as what comes out of L2 and what the
origin delivers are good. -/

/-- The content at the places of the keys `Key` on the replicas `Rep` is good, and the later
requests get good content, an error, or the placeholder. -/
def supplied (D : Deployment ι) (Rep : ι → Prop) (Key : ByteString → Prop)
    (Good : ByteString → Int32 × ByteString → Prop) (Of : ByteString → ByteString → Prop)
    (Later : ℕ → Prop) (Handed : ℕ → ι → ByteString → Prop) : Labels ι where
  Entry j l e := Rep j → Key l → Good l e.content
  Blob := Of
  Own _ j req resp := Rep j → Key (D.key req) → Good (D.key req) resp.content
  Slot _ j l resp success := Rep j → Key l → Good l resp.content ∨
    (success = false ∧ (OwnError resp.status resp.body ∨ resp = HttpResponse.default))
  Answer u j req resp _ := Later u → Rep j → Key (D.key req) → Good (D.key req) resp.content ∨
    OwnError resp.status resp.body ∨ Handed u j (D.key req)

/-- **The statement is closed** if what L2 and the origin contribute is good. -/
theorem supplied_closed {guard : State ι → Action ι → Prop} {m : State ι} {Rep : ι → Prop}
    {Key : ByteString → Prop} {Good : ByteString → Int32 × ByteString → Prop}
    {Of : ByteString → ByteString → Prop} {Later : ℕ → Prop}
    {Handed : ℕ → ι → ByteString → Prop}
    (decoded : ∀ {s t th input lead blob e}, Scene D guard m final s t th input →
      th.pc = .l2Get lead → Of (D.key th.req) blob →
      RedisL2Cache.decode blob (RedisL2Cache.nowWallMs s.clock) s.clock = some e →
      Rep th.replica → Key (D.key th.req) → Good (D.key th.req) e.content)
    (fetched : ∀ {s t th input lead}, Scene D guard m final s t th input →
      th.pc = .fetching lead →
      .fetched t th.replica th.req input.result s.clock ∈ final.trace → input.result.ok = true →
      Rep th.replica → Key (D.key th.req) → Good (D.key th.req) input.result.response.content)
    (encoded : ∀ {s t th input lead resp e blob}, Scene D guard m final s t th input →
      th.pc = .l2Put lead resp e →
      (Rep th.replica → Key (D.key th.req) → Good (D.key th.req) e.content) →
      RedisL2Cache.encode e e.ttlSeconds (RedisL2Cache.nowWallMs s.clock) = some blob →
      Of (D.key th.req) blob)
    (handed : ∀ {u j l n v}, Later u → Rep j → Key l → .joined u j l n ∈ final.trace →
      .filled v n HttpResponse.default false ∈ final.trace → Handed u j l) :
    (supplied D Rep Key Good Of Later Handed).Closed D guard m final where
  hit _ _ entry _ _ replica key := by
    rw [hitResponse_content]
    exact Or.inl (entry replica key)
  stale _ entry _ replica key := by
    rw [staleResponse_content]
    exact Or.inl (entry replica key)
  decoded {s t th input lead blob e} scene here _ _ held got := by
    have good := decoded scene here held got
    refine ⟨good, fun n _ => ?_⟩
    have same := l2Response_content (D.replicaId th.replica) e
    exact Labels.published_of_slot (fun replica key => Or.inl (same ▸ good replica key))
      fun _ _ replica key => Or.inl (same ▸ good replica key)
  fetched scene here event ok := fetched scene here event ok
  pass _ own _ replica key := by
    rw [fetchedResponse_content]
    exact Or.inl (own replica key)
  passFailure {s u th input rejected b} _ _ _ _ _ :=
    Or.inr (Or.inl ⟨rejected, decorate_status .., decorate_body ..⟩)
  failure {s u th input lead rejected b} scene failed n _ := by
    have hopeless := failed.hopeless (scene.hopeless u th scene.running)
    -- A client gets an error; only a background revalidation leaves the placeholder.
    rcases failureResponse_contents hopeless rejected with error | ⟨l, rfl, placeholder⟩
    · exact Labels.published_of_slot (fun _ _ => Or.inr ⟨rfl, Or.inl error⟩)
        fun _ _ _ _ => Or.inr (Or.inl error)
    · exact Or.inr ⟨rfl, placeholder⟩
  success {s u th input lead resp} _ _ _ own n _ := by
    have same := @fetchedResponse_content ι D th lead resp
    exact Labels.published_of_slot (fun replica key => Or.inl (same ▸ own replica key))
      fun _ _ replica key => Or.inl (same ▸ own replica key)
  entry _ _ own _ _ := own
  encoded scene here entry put := encoded scene here entry put
  placeholder _ _ _ _ _ _ := Or.inr ⟨rfl, Or.inr rfl⟩
  coalesced {s u th input n resp success} scene read joined slot later replica key := by
    rcases slot replica key with left | ⟨rfl, error | rfl⟩
    · rw [coalescedResponse_content]
      exact Or.inl left
    · refine Or.inr (Or.inl ?_)
      rw [coalescedResponse_status, coalescedResponse_body]
      exact error
    · obtain ⟨v, filled⟩ := scene.registry.read u th n _ _ scene.running read
      exact Or.inr (Or.inr (handed later replica key (scene.past.subset joined)
        (scene.past.subset filled)))
  waiterEntry _ _ _ slot _ _ replica key := (slot replica key).resolve_right (by simp)

/-- The statements of a purge about the key it cleared, and the thread `t`. -/
def purged (D : Deployment ι) (start m final : State ι) (t : ℕ) (i : ι) (k : ByteString) :
    Labels ι where
  Entry j l e := j = i → l = k → Leftover D start m final i k e.content
  Blob _ _ := True
  Own _ j req resp := j = i → D.key req = k → Leftover D start m final i k resp.content
  Slot _ j l resp success := j = i → l = k → Leftover D start m final i k resp.content ∨
    (success = false ∧ (OwnError resp.status resp.body ∨ resp = HttpResponse.default))
  Answer u j req resp _ := u = t → j = i → D.key req = k →
    Leftover D start m final i k resp.content ∨ OwnError resp.status resp.body ∨
      HandedPlaceholder final t i k

/-- **The statements of a purge are closed** after it has cleared the shard of the key. -/
theorem purged_closed {guard : State ι → Action ι → Prop} {m : State ι} {t : ℕ} {i : ι}
    {k : ByteString} (off : ∀ s, Transition.Steps D.step guard m s →
      ∀ t th, s.threads t = some th → ¬ th.pc.OnL2)
    (started : ∀ s, Transition.Steps D.step guard m s → Started m s)
    (began : start.trace <:+ m.trace) : (purged D start m final t i k).Closed D guard m final := by
  show (supplied D (· = i) (· = k) (fun _ content => Leftover D start m final i k content)
    (fun _ _ => True) (· = t) (fun _ _ _ => HandedPlaceholder final t i k)).Closed D guard m final
  refine supplied_closed ?_ ?_ (fun _ _ _ _ => trivial) ?_
  · intro s u th input lead blob e scene here _ _
    exact absurd (by rw [here]; trivial) (off _ scene.front _ _ scene.running)
  · intro s u th input lead scene here event ok replica key
    subst replica
    rcases started s scene.front u th lead scene.running here with ⟨lead', out⟩ | since
    · exact Or.inr ⟨u, _, out, rfl, key,
        Or.inr (Or.inr ⟨lead', input.result, s.clock, rfl, event, ok, rfl⟩)⟩
    · exact Or.inl ⟨u, th.req, input.result, s.clock, event, key, ok, rfl,
        since.widen began scene.past⟩
  · intro u j l n v same replica key joined filled
    subst same replica key
    exact ⟨n, v, joined, filled⟩

omit [DecidableEq ι] in
/-- **What the threads hold when the shard of the key has been cleared** is under way. -/
theorem flow_purged {m : State ι} {t : ℕ} {i : ι} {k : ByteString}
    (cleared : ∀ e, ¬ (m.cache i).Holds D.hash k e) (absent : m.threads t = none)
    (unanswered : ∀ j req resp hit, .answered t j req resp hit ∉ m.trace) :
    Flow D (purged D start m final t i k) m where
  cache j l e held replica key := by
    subst replica key
    exact absurd held (cleared e)
  l2 l blob held := trivial
  threads u th running := by
    have apart : u ≠ t := by
      rintro rfl
      rw [absent] at running
      cases running
    have under : ∀ content ∈ th.pc.contents, th.replica = i → D.key th.req = k →
        Leftover D start m final i k content :=
      fun content mem replica key => Or.inr ⟨u, th, running, replica, key, Or.inl mem⟩
    have published : ∀ (lead : Lead) (n : ℕ) (hit : Option ℤ) (resp : HttpResponse)
        (success : Bool), resp.content ∈ th.pc.contents →
        (purged D start m final t i k).Published D u th lead n hit resp success := by
      intro lead n hit resp success mem
      exact Labels.published_of_slot (fun replica key => Or.inl (under _ mem replica key))
        fun _ same => absurd same apart
    cases here : th.pc with
    | trigger resp => exact fun same => absurd same apart
    | promote lead e =>
        exact ⟨under _ (by simp [here, Pc.contents]),
          fun n _ => published lead n _ _ true (by simp [here, Pc.contents])⟩
    | record lead result =>
        intro ok replica key
        exact under _ (by simp [here, Pc.contents, ok]) replica key
    | storeTiers lead resp => exact under _ (by simp [here, Pc.contents])
    | put lead resp e =>
        exact ⟨under _ (by simp [here, Pc.contents]), under _ (by simp [here, Pc.contents])⟩
    | l2Put lead resp e =>
        exact ⟨under _ (by simp [here, Pc.contents]), under _ (by simp [here, Pc.contents])⟩
    | publish lead hit resp success =>
        exact fun n _ => published lead n hit resp success (by simp [here, Pc.contents])
    | fill lead n hit resp success =>
        exact published lead n hit resp success (by simp [here, Pc.contents])
    | maybeStore n resp success =>
        exact fun replica key => Or.inl (under _ (by simp [here, Pc.contents]) replica key)
    | waiterPut n resp e =>
        exact ⟨fun replica key => Or.inl (under _ (by simp [here, Pc.contents]) replica key),
          under _ (by simp [here, Pc.contents])⟩
    | _ => trivial
  waiters u th n running waits ready replica key :=
    Or.inl (Or.inr ⟨u, th, running, replica, key, Or.inr (Or.inl ⟨n, waits, ready, rfl⟩)⟩)
  answers u j req resp hit mem same := by
    subst same
    exact absurd mem (unanswered j req resp hit)

/-- A purge that has begun and returned has cleared each shard at some step in between. -/
theorem exists_clearing {guard : State ι → Action ι → Prop} {a b : State ι} {p : ℕ} {i : ι}
    {pattern : ByteString} (k : ByteString) (run : Transition.Steps D.step guard a b)
    (began : a.purges p = some ⟨i, pattern, 0⟩) (going : Purging p i pattern a)
    (returned : .purgeReturned p i pattern ∈ b.trace) :
    ∃ r m g, Transition.Steps D.step guard a r ∧ guard r (.purgeStep p) ∧
      D.step r (.purgeStep p) = some m ∧ Transition.Steps D.step guard m b ∧
      r.purges p = some g ∧ g.replica = i ∧ g.next = (r.cache i).shardIndex D.hash k ∧
      m.cache i = (r.cache i).purgeShard g.next pattern ∧ m.threads = r.threads ∧
      m.slots = r.slots ∧ m.l2 = r.l2 := by
  let Passed (s : State ι) : Prop :=
    ∃ g, s.purges p = some g ∧ (s.cache i).shardIndex D.hash k < g.next
  have before : ¬ Passed a := by
    rintro ⟨g, running, passed⟩
    rw [began, Option.some.injEq] at running
    subst running
    exact Nat.not_lt_zero _ passed
  have after : Passed b := by
    obtain ⟨g, running, -, -, through⟩ :=
      run.invariant (fun _ _ _ _ taken => purging_step taken) going
    exact ⟨g, running, (ShardedCache.shardIndex_lt ..).trans (through returned)⟩
  -- Where the purge gets past the shard of `k` is the step that clears it.
  obtain ⟨r, act, m, front, notYet, meets, taken, passed, rest⟩ := run.exists_crossing before after
  obtain ⟨g, running, replica, same, -⟩ :=
    front.invariant (fun _ _ _ _ taken => purging_step taken) going
  obtain ⟨g', running', ahead⟩ := passed
  rw [ShardedCache.shardIndex_congr (length_step taken i)] at ahead
  have behind : ¬ (r.cache i).shardIndex D.hash k < g.next := fun ahead => notYet ⟨g, running, ahead⟩
  have moved : m.purges p ≠ r.purges p := by
    intro still
    rw [still, running, Option.some.injEq] at running'
    subst running'
    exact behind ahead
  -- Only a step of the purge `p` itself moves it on.
  cases turn_of_step taken with
  | thread _ move => exact absurd (by rw [commit_purges]) moved
  | @purgeStart q j pattern' unused =>
      refine absurd (Function.update_of_ne ?_ ..) moved
      rintro rfl
      rw [unused] at running
      cases running
  | @purgeShard q h running'' more =>
      by_cases here : p = q
      · subst here
        rw [running, Option.some.injEq] at running''
        subst running''
        refine ⟨r, _, g, front, meets, taken, rest, running, replica, ?_, ?_, rfl, rfl, rfl⟩
        · change Function.update r.purges p _ p = some g' at running'
          rw [Function.update_self, Option.some.injEq] at running'
          subst running'
          simp only at ahead
          omega
        · subst replica same
          exact Function.update_self ..
      · exact absurd (Function.update_of_ne here ..) moved
  | @purgeReturn q h running'' last =>
      by_cases here : p = q
      · subst here
        rw [running, Option.some.injEq] at running''
        subst running''
        -- A purge that returns is past every shard.
        refine absurd ?_ behind
        rw [last, replica]
        exact ShardedCache.shardIndex_lt ..
      · exact absurd (Function.update_of_ne here ..) moved
  | _ => exact absurd rfl moved

/-- Clearing the shard of a key that matches leaves nothing under it. -/
theorem not_holds_cleared {c : ShardedCache} {hash : ByteString → UInt64}
    {pattern k : ByteString} {i : ℕ} (index : i = c.shardIndex hash k)
    (matched : purgeMatches pattern k = true) (e : CacheEntry) :
    ¬ (c.purgeShard i pattern).Holds hash k e := by
  intro held
  rw [(ShardedCache.holds_purgeShard.mp held).2 index] at matched
  cases matched

/-- **What a request that arrives after a purge is served**: what was fetched since the
purge began, or was under way when the purge cleared the shard of its key, or an error, or
the placeholder of a failed revalidation. -/
theorem served_after_purge (D : Deployment ι) (off : D.l2Enabled = false)
    (host : BAR ∉ D.defaultOriginHost) {clock : ℕ} {a a' b b' final : State ι}
    {acts acts' acts'' : List (Action ι)} {p t : ℕ} {i : ι} {pattern : ByteString}
    {req : HttpRequest} {resp : HttpResponse} {hit : Option ℤ}
    (earlier : Transition.run D.step (D.initial clock) acts = some a)
    (began : D.step a (.purgeStart p i pattern) = some a')
    (meanwhile : Transition.run D.step a' acts' = some b)
    (returned : .purgeReturned p i pattern ∈ b.trace)
    (arrived : D.step b (.start t i req) = some b')
    (later : Transition.run D.step b' acts'' = some final)
    (cacheable : req.isCacheableMethod = true) (plain : req.PlainPath)
    (matched : PathMatches pattern req.path)
    (answered : .answered t i req resp hit ∈ final.trace) :
    ∃ m, Transition.Steps D.step (fun _ _ => True) a' m ∧
      Transition.Steps D.step (fun _ _ => True) m b ∧
      (∀ e, ¬ (m.cache i).Holds D.hash (D.key req) e) ∧
      (FetchedSince D a' final i (D.key req) resp.content ∨
        Underway D m final i (D.key req) resp.content ∨ OwnError resp.status resp.body ∨
        HandedPlaceholder final t i (D.key req)) := by
  have toA := Transition.Steps.of_run (Transition.meets_true ..) earlier
  have toA' := toA.trans (.single trivial began)
  have toB := Transition.Steps.of_run (Transition.meets_true ..) meanwhile
  have toFinal := Transition.Steps.of_run (Transition.meets_true ..) later
  have unused : a.purges p = none ∧ a'.purges p = some ⟨i, pattern, 0⟩ := by
    cases turn_of_step began with
    | purgeStart unused => exact ⟨unused, Function.update_self ..⟩
  have absent : b.threads t = none := by
    cases turn_of_step arrived with
    | start unused => exact unused
  have going : Purging p i pattern a' := going_of_purgeStart toA began
  have match_ : purgeMatches pattern (D.key req) = true :=
    (purgeMatches_fromRequest pattern cacheable host plain).mpr matched
  -- `m` is the state in which the shard of the key has just been cleared.
  obtain ⟨r, m, g, toR, -, clearing, back, -, -, index, after, -, -, -⟩ :=
    exists_clearing (D.key req) toB unused.2 going returned
  have front := toR.trans (.single trivial clearing)
  have cleared : ∀ e, ¬ (m.cache i).Holds D.hash (D.key req) e := by
    rw [after]
    exact not_holds_cleared index match_
  refine ⟨m, front, back, cleared, ?_⟩
  have toM := toA'.trans front
  have fromM := (back.trans (.single trivial arrived)).trans toFinal
  have offAt : ∀ s, Transition.Steps D.step (fun _ _ => True) m s →
      ∀ t th, s.threads t = some th → ¬ th.pc.OnL2 := fun s run =>
    (toM.trans run).invariant (fun _ _ _ _ taken => offL2_step off taken)
      fun t th running => by cases running
  -- The thread of the request is not there yet, so it has been answered nothing.
  have noThread : m.threads t = none := absent_of_steps back absent
  have unanswered : ∀ j req resp hit, .answered t j req resp hit ∉ m.trace :=
    fun _ _ _ _ mem => started_of_answered toM mem noThread
  have flow := flow_of_steps
    (purged_closed offAt (fun _ run => started_of_steps run) (persists_of_steps front).1) fromM
    (registry_of_steps toM) (allHopeless_of_steps toM) (flow_purged cleared noThread unanswered)
  rcases flow.answers t i req resp hit answered rfl rfl rfl with (since | under) | error | placeholder
  · exact Or.inl since
  · exact Or.inr (Or.inl under)
  · exact Or.inr (Or.inr (Or.inl error))
  · exact Or.inr (Or.inr (Or.inr placeholder))

/-! ## Reading a run off its trace -/

/-- The thread an event starts. -/
def Event.thread? : Event ι → Option ℕ
  | .began t _ _ | .led t _ _ _ => some t
  | _ => none

/-- **Threads and L2 keys are on the trace**: each thread was started by an event, and each
key comes from a request. -/
structure Traced (D : Deployment ι) (s : State ι) : Prop where
  threads : ∀ t th, s.threads t = some th → (∃ e ∈ s.trace, e.thread? = some t) ∧
    ∃ u i, .began u i th.req ∈ s.trace
  l2 : ∀ k, s.l2 k ≠ none → ∃ u i req, .began u i req ∈ s.trace ∧ D.key req = k

theorem traced_step {a : Action ι} (taken : D.step s a = some s') (traced : Traced D s) :
    Traced D s' := by
  have grows := (persists_step taken).1
  have old : ∀ {t th}, ((∃ e ∈ s.trace, e.thread? = some t) ∧ ∃ u i, .began u i th.req ∈ s.trace) →
      (∃ e ∈ s'.trace, e.thread? = some t) ∧ ∃ u i, .began u i (th : Thread ι).req ∈ s'.trace := by
    rintro t th ⟨⟨e, mem, named⟩, u, i, began⟩
    exact ⟨⟨e, grows.subset mem, named⟩, u, i, grows.subset began⟩
  constructor
  · refine threads_step taken (fun t i req act => ?_) (fun t th input o _ after running move kept => ?_)
      fun t th running => old (traced.threads t th running)
    · subst act
      cases turn_of_step taken with
      | start unused => exact ⟨⟨_, List.mem_cons_self, rfl⟩, t, i, List.mem_cons_self⟩
    · refine ⟨kept, fun u pc born => ⟨?_, kept.2⟩⟩
      cases move with
      | triggerLead here absent unused =>
          cases born
          rw [after]
          exact ⟨_, List.mem_append_left _ (List.mem_cons_of_mem _ List.mem_cons_self), rfl⟩
      | _ => cases born
  · intro k held
    obtain ⟨blob, held⟩ := Option.ne_none_iff_exists'.mp held
    have before : s.l2 k = some blob → ∃ u i req, .began u i req ∈ s'.trace ∧ D.key req = k := by
      intro was
      obtain ⟨u, i, req, mem, same⟩ := traced.l2 k (by simp [was])
      exact ⟨u, i, req, grows.subset mem, same⟩
    cases turn_of_step taken with
    | @thread t input th o running move =>
        rcases l2_commit held with was | ⟨rfl, -⟩
        · exact before was
        · obtain ⟨-, u, i, mem⟩ := traced.threads t th running
          exact ⟨u, i, th.req, grows.subset mem, rfl⟩
    | @l2Drop key =>
        change Function.update s.l2 key none k = some blob at held
        by_cases dropped : k = key
        · rw [dropped, Function.update_self] at held
          cases held
        · rw [Function.update_of_ne dropped] at held
          exact before held
    | _ => exact before held

theorem traced_of_run {clock : ℕ} {guard : State ι → Action ι → Prop}
    (run : Transition.Steps D.step guard (D.initial clock) s) : Traced D s :=
  run.invariant (fun _ _ _ _ taken => traced_step taken)
    ⟨fun t th running => (by cases running), fun k held => absurd rfl held⟩

/-- Whether every thread passes a test. -/
def everyThread (test : Thread ι → Bool) (s : State ι) : Bool :=
  s.trace.all fun e => (e.thread?.bind s.threads).all test

/-- Whether every key of a request passes a test. -/
def everyKey (D : Deployment ι) (test : ByteString → Bool) (s : State ι) : Bool :=
  s.trace.all fun
    | .began _ _ req => test (D.key req)
    | _ => true

omit [DecidableEq ι] in
theorem Traced.of_everyThread {test : Thread ι → Bool} (traced : Traced D s)
    (passed : everyThread test s = true) {t : ℕ} {th : Thread ι} (running : s.threads t = some th) :
    test th = true := by
  obtain ⟨⟨e, mem, named⟩, -⟩ := traced.threads t th running
  have here := List.all_eq_true.mp passed e mem
  rw [named, Option.bind_some, running] at here
  exact here

omit [DecidableEq ι] in
theorem Traced.of_everyKey {test : ByteString → Bool} (traced : Traced D s)
    (passed : everyKey D test s = true) {k : ByteString} (held : s.l2 k ≠ none) :
    test k = true := by
  obtain ⟨u, i, req, mem, rfl⟩ := traced.l2 k held
  exact List.all_eq_true.mp passed _ mem

/-! ## A purge that is overtaken -/

/-- The event is the start of a fetch. -/
def Event.startsFetch : Event ι → Bool
  | .fetchStarted _ _ _ => true
  | _ => false

omit [DecidableEq ι] in
/-- Where no fetch started since, nothing was fetched since. -/
theorem not_fetchedSince {i : ι} {k : ByteString} {content : Int32 × ByteString}
    (idle : final.trace.countP Event.startsFetch = start.trace.countP Event.startsFetch) :
    ¬ FetchedSince D start final i k content := by
  rintro ⟨t, req, result, time, -, -, -, -, new, same, mem⟩
  rw [same, List.countP_append] at idle
  have positive := List.countP_pos_iff.mpr ⟨_, mem, show Event.startsFetch _ = true from rfl⟩
  omega

/-- A request misses and has fetched its page when everything is purged. -/
def beforePurge : List (Action Unit) :=
  .start 0 () (getRequest (bytes "/a")) :: steps 7 0 (okInput (bytes "ETag") (bytes "1") (bytes "x"))

/-- The purge goes over both shards and returns. -/
def duringPurge : List (Action Unit) := List.replicate 3 (.purgeStep 0)

/-- Then the first request stores its page, and a second one looks it up. -/
def afterPurge : List (Action Unit) := steps 4 0 failInput ++ steps 2 1 failInput

/-- A page is answered to the second request, no fetch has started since `s`, and
nobody waited. -/
def overtakes (s final : State Unit) : Bool :=
  (final.trace.any fun
    | .answered t _ req resp _ => t = 1 ∧ req = getRequest (bytes "/a") ∧ resp.status = 200
    | _ => false) &&
  (final.trace.countP Event.startsFetch == s.trace.countP Event.startsFetch) &&
  final.trace.all fun
    | .joined _ _ _ _ => false
    | _ => true

/-- The run of the two requests around the purge. -/
theorem exists_overtakenPurge :
    ∃ a a' b b' final resp hit,
      Transition.run soloDeployment.step (soloDeployment.initial 0) beforePurge = some a ∧
      soloDeployment.step a (.purgeStart 0 () [STAR]) = some a' ∧
      Transition.run soloDeployment.step a' duringPurge = some b ∧
      .purgeReturned 0 () [STAR] ∈ b.trace ∧
      soloDeployment.step b (.start 1 () (getRequest (bytes "/a"))) = some b' ∧
      Transition.run soloDeployment.step b' afterPurge = some final ∧
      .answered 1 () (getRequest (bytes "/a")) resp hit ∈ final.trace ∧ resp.status = 200 ∧
      final.trace.countP Event.startsFetch = a'.trace.countP Event.startsFetch ∧
      ∀ t i k n, .joined t i k n ∉ final.trace := by
  have passed : ((Transition.run soloDeployment.step (soloDeployment.initial 0) beforePurge).any
      fun a => (soloDeployment.step a (.purgeStart 0 () [STAR])).any fun a' =>
        (Transition.run soloDeployment.step a' duringPurge).any fun b =>
          b.trace.contains (.purgeReturned 0 () [STAR]) &&
            (soloDeployment.step b (.start 1 () (getRequest (bytes "/a")))).any fun b' =>
              (Transition.run soloDeployment.step b' afterPurge).any (overtakes a')) = true := by
    decide +kernel
  obtain ⟨a, ranA, passed⟩ := (Option.any_eq_true _ _).mp passed
  obtain ⟨a', began, passed⟩ := (Option.any_eq_true _ _).mp passed
  obtain ⟨b, ranB, passed⟩ := (Option.any_eq_true _ _).mp passed
  rw [Bool.and_eq_true, List.contains_iff_mem] at passed
  obtain ⟨returned, passed⟩ := passed
  obtain ⟨b', arrived, passed⟩ := (Option.any_eq_true _ _).mp passed
  obtain ⟨final, ran, passed⟩ := (Option.any_eq_true _ _).mp passed
  rw [overtakes, Bool.and_eq_true, Bool.and_eq_true, beq_iff_eq, List.any_eq_true,
    List.all_eq_true] at passed
  obtain ⟨⟨⟨e, mem, matched⟩, idle⟩, alone⟩ := passed
  cases e with
  | answered t i req resp hit =>
      simp only [decide_eq_true_eq] at matched
      obtain ⟨rfl, rfl, status⟩ := matched
      exact ⟨a, a', b, b', final, resp, hit, ranA, began, ranB, returned, arrived, ran, mem,
        status, idle, fun t i k n waited => by simpa using alone _ waited⟩
  | _ => cases matched

/-- **A page fetched before a purge is served after it.** -/
theorem not_fetchedSince_overtakenPurge :
    ∃ a a' b b' final resp hit,
      Transition.run soloDeployment.step (soloDeployment.initial 0) beforePurge = some a ∧
      soloDeployment.step a (.purgeStart 0 () [STAR]) = some a' ∧
      Transition.run soloDeployment.step a' duringPurge = some b ∧
      .purgeReturned 0 () [STAR] ∈ b.trace ∧
      soloDeployment.step b (.start 1 () (getRequest (bytes "/a"))) = some b' ∧
      Transition.run soloDeployment.step b' afterPurge = some final ∧
      .answered 1 () (getRequest (bytes "/a")) resp hit ∈ final.trace ∧
      PathMatches [STAR] (bytes "/a") ∧
      ¬ (FetchedSince soloDeployment a' final () (soloDeployment.key (getRequest (bytes "/a")))
          resp.content ∨ resp.status = 502 ∨ resp.status = 503) := by
  obtain ⟨a, a', b, b', final, resp, hit, ranA, began, ranB, returned, arrived, ran, mem, status,
    idle, alone⟩ := exists_overtakenPurge
  refine ⟨a, a', b, b', final, resp, hit, ranA, began, ranB, returned, arrived, ran, mem,
    Or.inl rfl, ?_⟩
  rw [status]
  rintro (since | bad | bad)
  · exact not_fetchedSince idle since
  · exact absurd bad (by decide)
  · exact absurd bad (by decide)

/-- The page that is served after that purge was under way when it was made. -/
theorem underway_overtakenPurge :
    ∃ m final resp hit, .answered 1 () (getRequest (bytes "/a")) resp hit ∈ final.trace ∧
      Underway soloDeployment m final () (soloDeployment.key (getRequest (bytes "/a")))
        resp.content := by
  obtain ⟨a, a', b, b', final, resp, hit, ranA, began, ranB, returned, arrived, ran, mem, status,
    idle, alone⟩ := exists_overtakenPurge
  obtain ⟨m, -, -, -, since | under | error | placeholder⟩ := served_after_purge soloDeployment rfl
    (by decide +kernel) ranA began ranB returned arrived ran (by decide +kernel)
    (by unfold HttpRequest.PlainPath; decide +kernel) (Or.inl rfl) mem
  · exact absurd since (not_fetchedSince idle)
  · exact ⟨m, final, resp, hit, mem, under⟩
  · obtain ⟨rejected, own, -⟩ := error
    rw [status] at own
    cases rejected <;> exact absurd own (by decide)
  · obtain ⟨n, u, waited, -⟩ := placeholder
    exact absurd waited (alone _ _ _ _)

end EdgeCache

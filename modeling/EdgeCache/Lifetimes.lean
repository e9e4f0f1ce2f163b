import EdgeCache.Purging

/-!
# How long a copy is served

The age of a copy is carried in three ways: in L1 as the moment it was stored, in
L2 as the time it was written together with the lifetime it was granted, and in a
slot not at all.  A leader stores when its fetch ends, and a promotion goes on with
the lifetime of what it reads (`RedisL2Cache.deadline_of_decode`).  A waiter that
stores what it found starts a whole lifetime at whatever time it gets to run, also
where its leader promoted a copy that was about to expire.

**Main result.**  Where every waiter that stores does so within a second of the fetch,
no copy is served as fresh a second after its lifetime (`unexpired_of_run`).
-/

namespace EdgeCache

variable {ι : Type} [DecidableEq ι] {D : Deployment ι} {guard : State ι → Action ι → Prop}
  {start final s s' : State ι}

open Transition

/-! ## Lifetimes -/

/-- **A fetch for the key ended at `time`** with this content, and the policy granted it `ttl`
seconds when it was stored at that time. -/
def Stored (D : Deployment ι) (trace : List (Event ι)) (k : ByteString)
    (content : Int32 × ByteString) (time ttl : ℕ) : Prop :=
  ∃ t i req result d, .fetched t i req result time ∈ trace ∧
    .granted t i req result.response d time ∈ trace ∧ D.key req = k ∧ result.ok = true ∧
    result.response.content = content ∧ d.ttlSeconds.toNat = ttl

omit [DecidableEq ι] in
theorem Stored.mono {trace trace' : List (Event ι)} {k : ByteString}
    {content : Int32 × ByteString} {time ttl : ℕ} (grows : trace ⊆ trace')
    (stored : Stored D trace k content time ttl) : Stored D trace' k content time ttl := by
  obtain ⟨t, i, req, result, d, fetched, granted, same⟩ := stored
  exact ⟨t, i, req, result, d, grows fetched, grows granted, same⟩

/-- **Nothing is served as fresh past its lifetime**: what is answered as a hit was stored
with a lifetime that ended, at the clock reading the answer was decided on, less than a
second ago or not at all. -/
def Unexpired (D : Deployment ι) (s : State ι) : Prop :=
  ∀ t i req resp hit, .answered t i req resp hit ∈ s.trace →
    resp.header (bytes "X-Cache") = bytes "HIT" →
    ∃ now time ttl, hit = some now ∧ Stored D s.trace (D.key req) resp.content time ttl ∧
      now < time + (ttl + 1) * second

/-- Between the end of a fetch and the end of `storeTiers`. -/
def Pc.storing : Pc → Bool
  | .record lead result => lead.slot?.isSome && result.ok
  | .storeTiers _ _ | .put _ _ _ | .l2Put _ _ _ => true
  | _ => false

/-- Storing what was fetched takes no time. -/
def Instant (s : State ι) : Action ι → Prop
  | .tick _ => ∀ t th, s.threads t = some th → th.pc.storing = false
  | _ => True

/-- **A waiter that stores is in time**: the response it found was fetched and stored, with the
same lifetime, at most a second ago. -/
def Prompt (D : Deployment ι) (s : State ι) : Action ι → Prop
  | .step t _ => ∀ th n resp d, s.threads t = some th → th.pc = .maybeStore n resp true →
      D.decision th.req resp = some d →
      ∃ time, Stored D s.trace (D.key th.req) resp.content time d.ttlSeconds.toNat ∧
        s.clock ≤ time + second
  | _ => True

/-! ## What threads know of the time -/

/-- What a thread carries at each operation was fetched just now. -/
def Timely (D : Deployment ι) (clock : ℕ) (trace : List (Event ι)) (t : ℕ) (th : Thread ι) :
    Pc → Prop
  | .get now => now ≤ clock
  | .record lead result => lead ≠ .pass → result.ok = true →
      .fetched t th.replica th.req result clock ∈ trace
  | .storeTiers _ resp => ∃ result, .fetched t th.replica th.req result clock ∈ trace ∧
      result.ok = true ∧ result.response = resp
  | .put _ _ e | .l2Put _ _ e =>
      Stored D trace (D.key th.req) e.content clock e.ttlSeconds.toNat
  | _ => True

/-- The clock has not run over, and what the threads carry was fetched just now. -/
structure OnTime (D : Deployment ι) (s : State ι) : Prop where
  clock : s.clock < 2 ^ 63
  threads : ∀ t th, s.threads t = some th → Timely D s.clock s.trace t th th.pc

section Timely

omit [DecidableEq ι]

variable {clock t d : ℕ} {trace trace' : List (Event ι)} {th : Thread ι} {pc : Pc}

theorem Timely.mono (grows : trace ⊆ trace') (timely : Timely D clock trace t th pc) :
    Timely D clock trace' t th pc := by
  cases pc with
  | get now => exact timely
  | record lead result => exact fun role ok => grows (timely role ok)
  | storeTiers lead resp =>
      obtain ⟨result, fetched, same⟩ := timely
      exact ⟨result, grows fetched, same⟩
  | put lead resp e => exact Stored.mono grows timely
  | l2Put lead resp e => exact Stored.mono grows timely
  | _ => trivial

/-- Where nothing is being stored, time may pass. -/
theorem Timely.later (idle : pc.storing = false) (timely : Timely D clock trace t th pc) :
    Timely D (clock + d) trace t th pc := by
  cases pc with
  | get now =>
      change now ≤ ((clock + d : ℕ) : ℤ)
      exact le_trans timely (by omega)
  | record lead result =>
      intro role ok
      obtain ⟨n, slot⟩ := Lead.exists_slot role
      simp [Pc.storing, slot, ok] at idle
  | storeTiers lead resp => cases idle
  | put lead resp e => cases idle
  | l2Put lead resp e => cases idle
  | _ => trivial

theorem timely_of_move {input : Input} {o : Outcome ι} (move : Move D s t th input o)
    (timely : Timely D s.clock (o.events ++ s.trace) t th th.pc) :
    Timely D s.clock (o.events ++ s.trace) t th o.pc := by
  cases move with
  | lookup here => exact le_refl (s.clock : ℤ)
  | lead here absent =>
      change Timely D _ _ t th (if _ then _ else _)
      split <;> trivial
  | fetched here => exact fun _ _ => List.mem_cons_self
  | leadSuccess role here ok =>
      rw [here] at timely
      exact ⟨_, timely role ok, ok, rfl⟩
  | grant here granted =>
      rw [here] at timely
      obtain ⟨result, fetched, ok, rfl⟩ := timely
      exact ⟨t, th.replica, th.req, result, _, fetched, List.mem_cons_self, rfl, ok, rfl, rfl⟩
  | put here =>
      rw [here] at timely
      change Timely D _ _ t th (if _ then _ else _)
      split
      · exact timely
      · trivial
  | _ => trivial

end Timely

theorem onTime_step {a : Action ι} (instant : Instant s a) (taken : D.step s a = some s')
    (before : OnTime D s) : OnTime D s' := by
  have kept : s'.clock < 2 ^ 63 ∧ ∀ t th, s.threads t = some th →
      Timely D s'.clock s'.trace t th th.pc := by
    have grows := (persists_step taken).1.subset
    have same : s'.clock = s.clock → s'.clock < 2 ^ 63 ∧ ∀ t th, s.threads t = some th →
        Timely D s'.clock s'.trace t th th.pc := fun same =>
      ⟨same ▸ before.clock, fun t th running => same ▸ (before.threads t th running).mono grows⟩
    cases turn_of_step taken with
    | tick bounded =>
        exact ⟨bounded, fun t th running => (before.threads t th running).later
          (instant t th running)⟩
    | thread running move => exact same (commit_clock ..)
    | _ => exact same rfl
  refine ⟨kept.1, threads_step taken (fun t i req _ => ?_)
    (fun t th input o _ after _ move timely => ?_) kept.2⟩
  · change Timely D _ _ t _ (if _ then _ else _)
    split <;> trivial
  · subst after
    rw [commit_clock] at timely ⊢
    have next := timely_of_move move timely
    refine ⟨next, fun u pc born => ?_⟩
    cases move with
    | triggerLead here absent unused => cases born; trivial
    | _ => cases born

theorem onTime_of_steps {clock : ℕ} (fits : clock < 2 ^ 63)
    (instant : ∀ s a, guard s a → Instant s a) (steps : Steps D.step guard (D.initial clock) s) :
    OnTime D s :=
  steps.invariant (fun _ _ _ meets taken => onTime_step (instant _ _ meets) taken)
    ⟨fits, fun _ _ running => by cases running⟩

omit [DecidableEq ι] in
/-- What a leader stores was fetched just now. -/
theorem OnTime.stored {t : ℕ} {th : Thread ι} {lead : Lead} {resp : HttpResponse}
    {d : CacheDecision} {trace : List (Event ι)} (onTime : OnTime D s)
    (running : s.threads t = some th) (here : th.pc = .storeTiers lead resp)
    (past : s.trace ⊆ trace) (granted : .granted t th.replica th.req resp d s.clock ∈ trace) :
    Stored D trace (D.key th.req) resp.content s.clock d.ttlSeconds.toNat := by
  have read := onTime.threads t th running
  rw [here] at read
  obtain ⟨result, fetched, ok, rfl⟩ := read
  exact ⟨t, _, _, result, d, past fetched, granted, rfl, ok, rfl, rfl⟩

/-! ## The labels -/

/-- The statements of the lifetimes: what is in L1 expires no later than a second after what
was fetched, and what is in L2 was written when it was fetched. -/
def lifetimes (D : Deployment ι) (trace : List (Event ι)) : Labels ι where
  Entry _ k e := 0 ≤ e.storedAt ∧ ∃ time ttl, Stored D trace k e.content time ttl ∧
    e.storedAt + e.ttlSeconds.toNat * second ≤ time + (ttl + 1) * second
  Blob k blob := ∃ e time, time < 2 ^ 63 ∧
    RedisL2Cache.encode e e.ttlSeconds (RedisL2Cache.nowWallMs time) = some blob ∧
    Stored D trace k e.content time e.ttlSeconds.toNat
  Own _ _ _ _ := True
  Slot _ _ _ _ _ := True
  Answer _ _ req resp hit := resp.header (bytes "X-Cache") = bytes "HIT" →
    ∃ now time ttl, hit = some now ∧ Stored D trace (D.key req) resp.content time ttl ∧
      now < time + (ttl + 1) * second

section Headers

omit [DecidableEq ι]

/-- The mark of a decorated response. -/
theorem header_decorate (id xcache reason : ByteString) (resp : HttpResponse) :
    (decorate id resp xcache reason).header (bytes "X-Cache") = xcache := by
  have replica : lower (bytes "X-EdgeCache-Replica") ≠ lower (bytes "X-Cache") := by decide
  have policy : lower (bytes "X-Cache-Policy") ≠ lower (bytes "X-Cache") := by decide
  simp only [decorate]
  split
  · rw [HttpResponse.header_setHeader, if_neg replica, HttpResponse.header_setHeader, if_pos rfl]
  · rw [HttpResponse.header_setHeader, if_neg policy, HttpResponse.header_setHeader,
      if_neg replica, HttpResponse.header_setHeader, if_pos rfl]

/-- What is marked otherwise is no hit. -/
theorem not_hit {P : Prop} {id xcache reason : ByteString} {resp : HttpResponse}
    (other : xcache ≠ bytes "HIT") :
    (decorate id resp xcache reason).header (bytes "X-Cache") = bytes "HIT" → P := by
  rw [header_decorate]
  exact fun same => absurd same other

/-- A failed leader answers no hit. -/
theorem not_hit_failureResponse {P : Prop} {th : Thread ι} {lead : Lead} (hopeless : lead.Hopeless)
    {rejected : Bool} :
    (D.failureResponse th lead rejected).header (bytes "X-Cache") = bytes "HIT" → P := by
  have unmarked : HttpResponse.default.header (bytes "X-Cache") ≠ bytes "HIT" := by decide
  rw [failureResponse_of_hopeless hopeless]
  cases lead with
  | pass => exact not_hit (by decide)
  | miss m now cached => exact not_hit (by decide)
  | revalidate m => exact fun same => absurd same unmarked

/-- A leader that answers what it fetched answers no hit. -/
theorem not_hit_fetchedResponse {P : Prop} {th : Thread ι} {lead : Lead} {resp : HttpResponse}
    (role : ∀ m, lead ≠ .revalidate m) :
    (D.fetchedResponse th lead resp).header (bytes "X-Cache") = bytes "HIT" → P := by
  cases lead with
  | pass => exact not_hit (by decide)
  | miss m now cached => exact not_hit (by decide)
  | revalidate m => exact absurd rfl (role m)

end Headers

/-- **The lifetimes are closed** where waiters are in time. -/
theorem lifetimes_closed (onTime : ∀ s, Steps D.step guard start s → OnTime D s)
    (prompt : ∀ s a, guard s a → Prompt D s a) :
    (lifetimes D final.trace).Closed D guard start final where
  hit {s t th input now e} scene here entry fresh _ := by
    obtain ⟨early, time, ttl, stored, ends⟩ := entry
    have known := onTime s scene.front
    have read : now ≤ (s.clock : ℤ) := by
      have carried := known.threads t th scene.running
      rw [here] at carried
      exact carried
    -- The age is too small for the subtraction of `isFresh` to wrap.
    have near : now - e.storedAt < 2 ^ 63 * second := by
      have bounded := known.clock
      simp only [second]
      omega
    refine ⟨now, time, ttl, rfl, ?_, (CacheEntry.lt_of_isFresh near fresh).trans_le ends⟩
    rw [hitResponse_content]
    exact stored
  stale _ _ := not_hit (by decide)
  decoded {s t th input lead blob e} scene _ _ _ held got := by
    obtain ⟨e₀, time, fits, put, stored⟩ := held
    have bounded := (onTime s scene.front).clock
    obtain ⟨alive, ends⟩ := RedisL2Cache.deadline_of_decode fits bounded put got
    obtain ⟨-, same⟩ := RedisL2Cache.decode_of_encode put got
    have content : e.content = e₀.content := by rw [same]; rfl
    have moment : e.storedAt = s.clock := by rw [same]
    refine ⟨⟨by rw [moment]; exact Int.natCast_nonneg _, time, _, content ▸ stored, ?_⟩,
      fun n _ => ?_⟩
    · rw [moment]
      simp only [second]
      omega
    · -- The blob was alive when it was read, and the age is counted from then.
      have answer : (lifetimes D final.trace).Answer t th.replica th.req
          (l2Response (D.replicaId th.replica) e) (some e.storedAt) := fun _ => by
        refine ⟨_, time, e₀.ttlSeconds.toNat, rfl, ?_, ?_⟩
        · rw [l2Response_content, content]
          exact stored
        · rw [moment]
          simp only [second]
          omega
      exact Labels.published_of_slot trivial fun _ => answer
  fetched _ _ _ _ := trivial
  pass _ _ := not_hit (by decide)
  passFailure _ _ := not_hit (by decide)
  failure {s t th input lead rejected b} scene failed n _ := by
    have hopeless := failed.hopeless (scene.hopeless t th scene.running)
    exact Labels.published_of_slot trivial fun _ => not_hit_failureResponse hopeless
  success _ _ _ _ _ _ := Labels.published_of_slot trivial not_hit_fetchedResponse
  entry {s t th input lead resp d} scene here _ _ granted := by
    have stored := (onTime s scene.front).stored scene.running here scene.past.subset granted
    refine ⟨Int.natCast_nonneg _, s.clock, d.ttlSeconds.toNat, stored, ?_⟩
    simp only [entryFrom, second]
    omega
  encoded {s t th input lead resp e blob} scene here _ put := by
    have known := onTime s scene.front
    have stored := known.threads t th scene.running
    rw [here] at stored
    exact ⟨e, s.clock, known.clock, put, stored.mono scene.past.subset⟩
  placeholder _ _ _ _ := trivial
  coalesced _ _ _ _ := not_hit (by decide)
  waiterEntry {s t th input n resp d} scene here _ _ granted _ := by
    -- Here alone the entry is younger than what it holds.
    obtain ⟨time, stored, young⟩ := prompt _ _ scene.meets _ _ _ _ scene.running here granted
    refine ⟨Int.natCast_nonneg _, time, _, stored.mono scene.past.subset, ?_⟩
    simp only [entryFrom, second] at young ⊢
    omega

/-- **Where waiters store in time, nothing is served as fresh past its lifetime.** -/
theorem unexpired_of_run (D : Deployment ι) {clock : ℕ} {acts : List (Action ι)}
    (fits : clock < 2 ^ 63)
    (meets : Meets D.step (fun s a => Instant s a ∧ Prompt D s a) (D.initial clock) acts)
    (ran : run D.step (D.initial clock) acts = some s) : Unexpired D s := by
  have steps := Steps.of_run meets ran
  have flow := flow_of_run (lifetimes_closed
    (fun _ front => onTime_of_steps fits (fun _ _ meets => meets.1) front)
    fun _ _ meets => meets.2) steps
  exact flow.answers

/-! ## A lifetime that starts anew -/

/-- A page is stored on one replica.  When a second of its lifetime is left, a request on the other
replica reads it from L2, and another request waits for that one; half a minute later the page
is asked for once more. -/
def renewingRun (age : ℕ) : List (Action Bool) :=
  let takes (n t : ℕ) := List.replicate n
    (.step t (okInput (bytes "ETag") (bytes "1") (bytes "x")) : Action Bool)
  .start 0 false (getRequest (bytes "/a")) :: takes 13 0 ++ .tick age ::
    .start 1 true (getRequest (bytes "/a")) :: .start 2 true (getRequest (bytes "/a")) ::
    takes 3 1 ++ takes 3 2 ++ takes 4 1 ++ takes 3 2 ++ .tick 30000000000 ::
    .start 3 true (getRequest (bytes "/a")) :: takes 2 3

/-- Whether a page fetched at the start is answered as a hit after 61 seconds, and whatever was
granted was granted 60 seconds. -/
def answeredLate (s : State Bool) : Bool :=
  (s.trace.any fun
    | .answered _ _ _ resp hit =>
        resp.header (bytes "X-Cache") = bytes "HIT" ∧ ∀ now ∈ hit, 61 * second ≤ now
    | _ => false) &&
  s.trace.all fun
    | .fetched _ _ _ _ time => time = 0
    | .granted _ _ _ _ d _ => d.ttlSeconds.toNat = 60
    | _ => true

/-- Whether time passes only where nothing is being stored. -/
def isInstant (s : State Bool) : Action Bool → Bool
  | .tick _ => everyThread (fun th => !th.pc.storing) s
  | _ => true

theorem instant_of_isInstant (s : State Bool) (a : Action Bool) (traced : Traced pairDeployment s)
    (passed : isInstant s a = true) : Instant s a := by
  cases a with
  | tick d =>
      intro t th running
      simpa using traced.of_everyThread passed running
  | _ => trivial

theorem meets_instant {acts : List (Action Bool)}
    (passed : passes pairDeployment.step isInstant (pairDeployment.initial 0) acts = true) :
    Meets pairDeployment.step Instant (pairDeployment.initial 0) acts :=
  meets_of_passes_knowing (fun _ _ _ taken => traced_step taken) instant_of_isInstant
    (traced_of_run (.refl _ : Steps pairDeployment.step (fun _ _ => True)
      (pairDeployment.initial 0) _)) passed

/-- **A waiter starts a whole lifetime for a copy that is about to expire**: the page is served
as fresh 89 seconds after the only fetch, for which the policy granted 60. -/
theorem not_unexpired_renewingRun :
    ∃ s, run pairDeployment.step (pairDeployment.initial 0) (renewingRun 59000000000) = some s ∧
      Meets pairDeployment.step Instant (pairDeployment.initial 0) (renewingRun 59000000000) ∧
      ¬ Unexpired pairDeployment s := by
  obtain ⟨s, ran, late⟩ := exists_of_run
    (show (run pairDeployment.step (pairDeployment.initial 0) (renewingRun 59000000000)).any
      answeredLate = true by decide +kernel)
  have instant := meets_instant
    (show passes pairDeployment.step isInstant (pairDeployment.initial 0)
      (renewingRun 59000000000) = true by decide +kernel)
  refine ⟨s, ran, instant, fun unexpired => ?_⟩
  rw [answeredLate, Bool.and_eq_true, List.any_eq_true, List.all_eq_true] at late
  obtain ⟨⟨e, mem, matched⟩, early⟩ := late
  cases e with
  | answered t i req resp hit =>
      obtain ⟨marked, after⟩ := of_decide_eq_true matched
      obtain ⟨now, time, ttl, rfl, ⟨u, j, req', result, d, fetched, granted, -, -, -, rfl⟩, before⟩ :=
        unexpired t i req resp hit mem marked
      have zero : time = 0 := of_decide_eq_true (early _ fetched)
      have sixty : d.ttlSeconds.toNat = 60 := of_decide_eq_true (early _ granted)
      have reached := after now rfl
      rw [zero, sixty] at before
      simp only [second] at reached before
      omega
  | _ => cases matched

/-- Whether what a waiter is about to store was stored a second ago at most. -/
def isPrompt (s : State Bool) : Action Bool → Bool
  | .step t _ =>
      (s.threads t).all fun th =>
        match th.pc with
        | .maybeStore _ resp true =>
            (pairDeployment.decision th.req resp).all fun d => s.trace.any fun
              | .fetched u j req result time =>
                  .granted u j req result.response d time ∈ s.trace ∧
                    pairDeployment.key req = pairDeployment.key th.req ∧ result.ok = true ∧
                    result.response.content = resp.content ∧ s.clock ≤ time + second
              | _ => false
        | _ => true
  | _ => true

theorem prompt_of_isPrompt (s : State Bool) (a : Action Bool) (passed : isPrompt s a = true) :
    Prompt pairDeployment s a := by
  cases a with
  | step t input =>
      intro th n resp d running here decided
      simp only [isPrompt, running, here, decided, Option.all_some] at passed
      obtain ⟨e, mem, matched⟩ := List.any_eq_true.mp passed
      cases e with
      | fetched u j req result time =>
          obtain ⟨granted, key, ok, content, young⟩ := of_decide_eq_true matched
          exact ⟨time, ⟨u, j, req, result, d, mem, granted, key, ok, content, rfl⟩, young⟩
      | _ => cases matched
  | _ => trivial

/-- A second after the fetch, the waiter may still store. -/
theorem unexpired_renewingRun :
    ∃ s, run pairDeployment.step (pairDeployment.initial 0) (renewingRun 1000000000) = some s ∧
      Unexpired pairDeployment s := by
  have runs : (run pairDeployment.step (pairDeployment.initial 0)
      (renewingRun 1000000000)).isSome = true := by decide +kernel
  obtain ⟨s, ran⟩ := Option.isSome_iff_exists.mp runs
  have instant := meets_instant
    (show passes pairDeployment.step isInstant (pairDeployment.initial 0)
      (renewingRun 1000000000) = true by decide +kernel)
  have prompt := meets_of_passes prompt_of_isPrompt
    (show passes pairDeployment.step isPrompt (pairDeployment.initial 0)
      (renewingRun 1000000000) = true by decide +kernel)
  exact ⟨s, ran, unexpired_of_run pairDeployment (by decide) (instant.and prompt) ran⟩

end EdgeCache

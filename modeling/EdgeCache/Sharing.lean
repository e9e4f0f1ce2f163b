import EdgeCache.Provenance

/-!
# What the policy refuses

A response that the policy refuses to cache is never stored: the leader does not
store it, and a waiter decides on what the leader published, which differs from
the response only in headers the policy does not read.  But the slot carries it,
and a waiter answers what it finds there: coalescing shares every outcome of a
fetch.  `Confined` says how far such a body gets, and `confined_of_run` that it
gets no further.
-/

namespace EdgeCache

variable {ι : Type} [DecidableEq ι] {D : Deployment ι} {guard : State ι → Action ι → Prop}
  {start final s s' : State ι} {k b : ByteString}

/-! ## Requests as the parser makes them -/

/-- Calls of `handle` are made for requests with a plain path. -/
def StartsPlain (_ : State ι) : Action ι → Prop
  | .start _ _ req => req.PlainPath
  | _ => True

/-- Every thread runs for a request with a plain path. -/
def AllPlain (s : State ι) : Prop := ∀ t th, s.threads t = some th → th.req.PlainPath

theorem allPlain_step {a : Action ι} (plain : StartsPlain s a) (taken : D.step s a = some s')
    (before : AllPlain s) : AllPlain s' :=
  threads_step taken (fun t i req started => by rw [started] at plain; exact plain)
    (fun _ _ _ _ _ _ _ _ same => ⟨same, fun _ _ _ => same⟩) before

/-! ## Refused bodies -/

/-- The policy refused every response with the body `b` that the origin delivered
for the key `k`. -/
def AllRefused (D : Deployment ι) (trace : List (Event ι)) (k b : ByteString) : Prop :=
  ∀ t i req result time, .fetched t i req result time ∈ trace → D.key req = k →
    req.isCacheableMethod = true → result.ok = true → result.response.body = b →
    (D.policy req.path result.response).cacheable = false

/-- The thread `t` fetched the body `b` for the key `k`. -/
def FetchedBody (D : Deployment ι) (trace : List (Event ι)) (k b : ByteString) (t : ℕ) (i : ι) :
    Prop :=
  ∃ req result time, .fetched t i req result time ∈ trace ∧ D.key req = k ∧ result.ok = true ∧
    result.response.body = b

/-- **How far a body gets that the policy refuses.** -/
structure Confined (D : Deployment ι) (s : State ι) (k b : ByteString) : Prop where
  /-- No entry in L1 has it. -/
  l1 : ∀ i e, (s.cache i).Holds D.hash k e → e.body ≠ b
  /-- What is in L2 was written from an entry that does not have it. -/
  l2 : ∀ blob, s.l2 k = some blob → ∃ e written,
    RedisL2Cache.encode e e.ttlSeconds written = some blob ∧ e.body ≠ b
  /-- A client that gets it asked in the request that fetched it, or waited on the slot of
  the leader that did.  An error of the proxy may happen to have that body, and so may the
  placeholder of a failed revalidation. -/
  clients : ∀ t i req resp hit, .answered t i req resp hit ∈ s.trace → D.key req = k →
    resp.body = b →
    FetchedBody D s.trace k b t i ∨
      (∃ n u, .joined t i k n ∈ s.trace ∧ .led u i k n ∈ s.trace ∧
        FetchedBody D s.trace k b u i) ∨
      OwnError resp.status resp.body ∨
      ∃ n u, .joined t i k n ∈ s.trace ∧ .filled u n HttpResponse.default false ∈ s.trace

/-- What a leader published stands for a response of the origin in the eyes of the policy. -/
def Represents (D : Deployment ι) (trace : List (Event ι)) (k b : ByteString) (u : ℕ) (i : ι)
    (resp : HttpResponse) : Prop :=
  ∃ req result time, .fetched u i req result time ∈ trace ∧ D.key req = k ∧
    req.isCacheableMethod = true ∧ req.PlainPath ∧ result.ok = true ∧
    result.response.body = b ∧ ∀ path, D.policy path resp = D.policy path result.response

/-- The statements of confinement. -/
def confinement (D : Deployment ι) (trace : List (Event ι)) (k b : ByteString) : Labels ι where
  Entry _ k' e := k' = k → e.body ≠ b
  Blob k' blob := k' = k → ∃ e written,
    RedisL2Cache.encode e e.ttlSeconds written = some blob ∧ e.body ≠ b
  Own t i req resp :=
    ∃ result time, .fetched t i req result time ∈ trace ∧ result.ok = true ∧
      result.response = resp
  Slot n i k' resp success := k' = k → resp.body = b →
    (∃ u, .led u i k n ∈ trace ∧ Represents D trace k b u i resp) ∨
      (success = false ∧ (OwnError resp.status resp.body ∨ resp = HttpResponse.default))
  Answer t i req resp _ := D.key req = k → resp.body = b →
    FetchedBody D trace k b t i ∨
      (∃ n u, .joined t i k n ∈ trace ∧ .led u i k n ∈ trace ∧ FetchedBody D trace k b u i) ∨
      OwnError resp.status resp.body ∨
      ∃ n u, .joined t i k n ∈ trace ∧ .filled u n HttpResponse.default false ∈ trace

section Policy

omit [DecidableEq ι]

/-- A blind policy does not see the decoration. -/
theorem policy_decorate {policy : CachePolicy} (blind : policy.Blind)
    (path id xcache reason : ByteString) (resp : HttpResponse) :
    policy path (decorate id resp xcache reason) = policy path resp := by
  have own : ∀ name ∈ [bytes "X-Cache", bytes "X-EdgeCache-Replica", bytes "X-Cache-Policy"],
      name ∈ proxyHeaders := by decide
  simp only [decorate]
  split
  · rw [blind _ _ _ _ (own _ (by simp)), blind _ _ _ _ (own _ (by simp))]
  · rw [blind _ _ _ _ (own _ (by simp)), blind _ _ _ _ (own _ (by simp)),
      blind _ _ _ _ (own _ (by simp))]

/-- A blind policy decides on what a leader publishes as on what it fetched. -/
theorem policy_fetchedResponse (blind : D.policy.Blind) (path : ByteString) (th : Thread ι)
    (lead : Lead) (resp : HttpResponse) :
    D.policy path (D.fetchedResponse th lead resp) = D.policy path resp := by
  unfold Deployment.fetchedResponse
  cases lead with
  | pass => exact policy_decorate blind ..
  | miss n now cached => exact policy_decorate blind ..
  | revalidate n => rfl

/-- A decision to store is one of the policy, for a cacheable method. -/
theorem cacheable_of_decision {req : HttpRequest} {resp : HttpResponse} {d : CacheDecision}
    (granted : D.decision req resp = some d) :
    req.isCacheableMethod = true ∧ (D.policy req.path resp).cacheable = true ∧
      d = D.policy req.path resp := by
  simp only [Deployment.decision] at granted
  split at granted
  · cases granted
  · rename_i method
    split at granted
    · cases granted
    · rename_i cacheable
      exact ⟨by simpa using method, by simpa using cacheable, (Option.some.inj granted).symm⟩

end Policy

/-- **Confinement is closed** for a body the policy refuses. -/
theorem confinement_closed (blind : D.policy.Blind)
    (plain : ∀ s, Transition.Steps D.step guard start s → AllPlain s)
    (refused : AllRefused D final.trace k b) :
    (confinement D final.trace k b).Closed D guard start final where
  hit _ _ entry _ key body := absurd (by rwa [hitResponse_body] at body) (entry key)
  stale _ entry key body := absurd (by rwa [staleResponse_body] at body) (entry key)
  decoded {s t th input lead blob e} _ _ _ _ held got := by
    have entry : D.key th.req = k → e.body ≠ b := fun key => by
      obtain ⟨e₀, written, put, other⟩ := held key
      rw [(contents_of_decode put got).2]
      exact other
    refine ⟨entry, fun n _ => ?_⟩
    exact Labels.published_of_slot
      (fun key body => absurd (by rwa [l2Response_body] at body) (entry key))
      fun _ key body => absurd (by rwa [l2Response_body] at body) (entry key)
  fetched _ _ event ok := ⟨_, _, event, ok, rfl⟩
  pass {s t th input resp} _ own key body := by
    obtain ⟨result, time, event, ok, rfl⟩ := own
    rw [fetchedResponse_body] at body
    exact Or.inl ⟨_, result, time, event, key, ok, body⟩
  passFailure {s t th input rejected b} _ _ _ _ :=
    Or.inr (Or.inr (Or.inl ⟨rejected, decorate_status .., decorate_body ..⟩))
  failure {s t th input lead rejected b'} scene failed n _ := by
    have hopeless := failed.hopeless (scene.hopeless t th scene.running)
    rcases failureResponse_contents hopeless rejected with error | ⟨m, rfl, placeholder⟩
    · exact Labels.published_of_slot (fun _ _ => Or.inr ⟨rfl, Or.inl error⟩)
        fun _ _ _ => Or.inr (Or.inr (Or.inl error))
    · exact Or.inr ⟨rfl, placeholder⟩
  success {s t th input lead resp} scene holding _ own n mine := by
    obtain ⟨result, time, event, ok, rfl⟩ := own
    have proper := scene.registry.proper t th scene.running
    -- What a leader publishes represents a fetch of its own.
    have slot : D.key th.req = k → (D.fetchedResponse th lead result.response).body = b →
        ∃ u, .led u th.replica k n ∈ final.trace ∧
          Represents D final.trace k b u th.replica
            (D.fetchedResponse th lead result.response) := by
      intro key body
      have led := scene.registry.led t th n scene.running (holding.trans mine)
      rw [fetchedResponse_body] at body
      exact ⟨t, scene.past.subset (key ▸ led), th.req, result, time, event, key,
        proper.cacheable_of_holding (holding.trans mine),
        plain s scene.front t th scene.running, ok, body,
        fun path => policy_fetchedResponse blind path th lead result.response⟩
    refine Labels.published_of_slot (fun key body => Or.inl (slot key body))
      fun _ key body => Or.inl ?_
    rw [fetchedResponse_body] at body
    exact ⟨_, result, time, event, key, ok, body⟩
  entry _ _ own granted _ key body := by
    obtain ⟨result, time, event, ok, rfl⟩ := own
    obtain ⟨method, cacheable, -⟩ := cacheable_of_decision granted
    rw [refused _ _ _ _ _ event key method ok body] at cacheable
    cases cacheable
  encoded _ _ entry put key := ⟨_, _, put, entry key⟩
  placeholder _ _ _ _ _ _ := Or.inr ⟨rfl, Or.inr rfl⟩
  coalesced {s t th input n resp success} scene read joined slot key body := by
    have joined := scene.past.subset joined
    rw [key] at joined
    rw [coalescedResponse_body] at body
    rcases slot key body with ⟨u, led, req, result, time, event, key', -, -, ok, same, -⟩ |
      ⟨rfl, error | rfl⟩
    · exact Or.inr (Or.inl ⟨n, u, joined, led, req, result, time, event, key', ok, same⟩)
    · refine Or.inr (Or.inr (Or.inl ?_))
      rwa [coalescedResponse_status, coalescedResponse_body]
    · obtain ⟨u, filled⟩ := scene.registry.read t th n _ _ scene.running read
      exact Or.inr (Or.inr (Or.inr ⟨n, u, joined, scene.past.subset filled⟩))
  waiterEntry {s t th input n resp d} scene here _ slot granted _ key body := by
    rcases slot key body with ⟨u, -, req, result, time, event, key', method', plain', ok, same,
      alike⟩ | ⟨failed, -⟩
    · obtain ⟨method, cacheable, -⟩ := cacheable_of_decision granted
      -- One key is one path here, so the waiter decides as the leader did.
      have paths := (method_path_of_fromRequest_eq method method'
        (plain s scene.front t th scene.running) plain' (key.trans key'.symm)).2
      rw [alike, paths, refused _ _ _ _ _ event key' method' ok same] at cacheable
      cases cacheable
    · cases failed

/-- **A body the policy refuses is stored nowhere, and coalescing is the only way it
is shared.** -/
theorem confined_of_run (D : Deployment ι) {clock : ℕ} {acts : List (Action ι)}
    (k b : ByteString) (blind : D.policy.Blind)
    (meets : Transition.Meets D.step StartsPlain (D.initial clock) acts)
    (ran : Transition.run D.step (D.initial clock) acts = some s)
    (refused : AllRefused D s.trace k b) : Confined D s k b := by
  have run := Transition.Steps.of_run meets ran
  have plain : ∀ s, Transition.Steps D.step StartsPlain (D.initial clock) s → AllPlain s :=
    fun s front => front.invariant (fun _ _ _ starts taken => allPlain_step starts taken)
      fun t th running => by cases running
  have flow := flow_of_run (confinement_closed blind plain refused) run
  exact
    { l1 := fun i e held => flow.cache i k e held rfl
      l2 := fun blob held => flow.l2 k blob held rfl
      clients := flow.answers }

/-! ## A private response that is shared -/

/-- A miss that is answered with a private page, and a second request that waits for it. -/
def privateRun : List (Action Unit) :=
  [.start 0 () (getRequest (bytes "/a")), .start 1 () (getRequest (bytes "/a"))] ++
    steps 3 0 failInput ++ steps 3 1 failInput ++
    steps 7 0 (okInput (bytes "Cache-Control") (bytes "private") (bytes "x")) ++
    steps 2 1 failInput

/-- The second request has been answered with the page. -/
def pageAnswered (s : State Unit) : Bool :=
  s.trace.any fun
    | .answered t _ req resp _ => t = 1 ∧ req = getRequest (bytes "/a") ∧ resp.body = bytes "x"
    | _ => false

/-- Whether the first request made the only fetch, and the policy refused what it got. -/
def onlyFirstRefused (s : State Unit) : Bool :=
  s.trace.all fun
    | .fetched t _ req result _ =>
        t = 0 ∧ (soloDeployment.policy req.path result.response).cacheable = false
    | _ => true

theorem allRefused_of_onlyFirstRefused {s : State Unit} (only : onlyFirstRefused s = true)
    (k b : ByteString) : AllRefused soloDeployment s.trace k b := by
  intro t i req result time event _ _ _ _
  have refused := List.all_eq_true.mp only _ event
  simp only [decide_eq_true_eq] at refused
  exact refused.2

/-- **A waiter is answered with a page the policy refused**, which it did not fetch. -/
theorem not_unshared_privateRun :
    ∃ s, Transition.run soloDeployment.step (soloDeployment.initial 0) privateRun = some s ∧
      AllRefused soloDeployment s.trace (soloDeployment.key (getRequest (bytes "/a")))
        (bytes "x") ∧
      ¬ ∀ t i req resp hit, .answered t i req resp hit ∈ s.trace →
        soloDeployment.key req = soloDeployment.key (getRequest (bytes "/a")) →
        resp.body = bytes "x" → FetchedBody soloDeployment s.trace
          (soloDeployment.key (getRequest (bytes "/a"))) (bytes "x") t i := by
  obtain ⟨s, ran, passed⟩ := Transition.exists_of_run
    (show (Transition.run soloDeployment.step (soloDeployment.initial 0) privateRun).any
      (fun s => pageAnswered s && onlyFirstRefused s) = true by decide +kernel)
  rw [Bool.and_eq_true] at passed
  obtain ⟨answered, only⟩ := passed
  refine ⟨s, ran, allRefused_of_onlyFirstRefused only _ _, fun unshared => ?_⟩
  obtain ⟨e, mem, matched⟩ := List.any_eq_true.mp answered
  cases e with
  | answered t i req resp hit =>
      simp only [decide_eq_true_eq] at matched
      obtain ⟨rfl, rfl, body⟩ := matched
      obtain ⟨req, result, time, event, -⟩ := unshared _ _ _ _ _ mem rfl body
      have first := List.all_eq_true.mp only _ event
      simp at first
  | _ => cases matched

/-- Whether a step starts no request whose path contains its query. -/
def startsPlain (_ : State Unit) : Action Unit → Bool
  | .start _ _ req => !req.path.contains QUESTION
  | _ => true

theorem startsPlain_sound (s : State Unit) (a : Action Unit) (passed : startsPlain s a = true) :
    StartsPlain s a := by
  cases a with
  | start t i req => simpa [startsPlain, StartsPlain, HttpRequest.PlainPath] using passed
  | _ => trivial

/-- The private page is in no cache. -/
theorem confined_privateRun :
    ∃ s, Transition.run soloDeployment.step (soloDeployment.initial 0) privateRun = some s ∧
      Confined soloDeployment s (soloDeployment.key (getRequest (bytes "/a"))) (bytes "x") := by
  obtain ⟨s, ran, only⟩ := Transition.exists_of_run
    (show (Transition.run soloDeployment.step (soloDeployment.initial 0) privateRun).any
      onlyFirstRefused = true by decide +kernel)
  have meets := Transition.meets_of_passes startsPlain_sound
    (show Transition.passes soloDeployment.step startsPlain (soloDeployment.initial 0)
      privateRun = true by decide +kernel)
  exact ⟨s, ran, confined_of_run soloDeployment _ _ (HeaderBasedPolicy.blind 60) meets ran
    (allRefused_of_onlyFirstRefused only _ _)⟩

end EdgeCache

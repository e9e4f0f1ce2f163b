import EdgeCache.Flow

/-!
# Where a response comes from

`Accounted` says that the origin delivered a status and a body for a key, or that
they are one of the proxy's own errors.  The handler keeps this at every place but
one: a background revalidation that fails publishes the `HttpResponse` it declared
and never assigned, and whoever waits on its slot answers that.  `Unawaited`
excludes exactly this step, and then every answer is accounted for
(`accounted_of_run`).
-/

namespace EdgeCache

variable {ι : Type} [DecidableEq ι]

/-! ## The contents of the responses the handler builds -/

section Contents

omit [DecidableEq ι]

variable {D : Deployment ι} {th : Thread ι}

@[simp] theorem hitResponse_status (id : ByteString) (e : CacheEntry) (now : ℤ) :
    (hitResponse id e now).status = e.status := decorate_status ..

@[simp] theorem hitResponse_body (id : ByteString) (e : CacheEntry) (now : ℤ) :
    (hitResponse id e now).body = e.body := decorate_body ..

@[simp] theorem staleResponse_status (id : ByteString) (e : CacheEntry) :
    (staleResponse id e).status = e.status := decorate_status ..

@[simp] theorem staleResponse_body (id : ByteString) (e : CacheEntry) :
    (staleResponse id e).body = e.body := decorate_body ..

@[simp] theorem l2Response_status (id : ByteString) (e : CacheEntry) :
    (l2Response id e).status = e.status := decorate_status ..

@[simp] theorem l2Response_body (id : ByteString) (e : CacheEntry) :
    (l2Response id e).body = e.body := decorate_body ..

@[simp] theorem coalescedResponse_status (resp : HttpResponse) :
    (D.coalescedResponse th resp).status = resp.status := decorate_status ..

@[simp] theorem coalescedResponse_body (resp : HttpResponse) :
    (D.coalescedResponse th resp).body = resp.body := decorate_body ..

@[simp] theorem fetchedResponse_status (lead : Lead) (resp : HttpResponse) :
    (D.fetchedResponse th lead resp).status = resp.status := by
  cases lead <;> simp [Deployment.fetchedResponse]

@[simp] theorem fetchedResponse_body (lead : Lead) (resp : HttpResponse) :
    (D.fetchedResponse th lead resp).body = resp.body := by
  cases lead <;> simp [Deployment.fetchedResponse]

/-- The status and the body of one of the proxy's own errors. -/
def OwnError (status : Int32) (body : ByteString) : Prop :=
  ∃ rejected, status = (errorResponse rejected).status ∧ body = (errorResponse rejected).body

/-- **What a failed leader answers** is an error, and a failed revalidation publishes
its placeholder. -/
theorem failureResponse_contents {lead : Lead} (hopeless : lead.Hopeless) (rejected : Bool) :
    OwnError (D.failureResponse th lead rejected).status
        (D.failureResponse th lead rejected).body ∨
      ∃ n, lead = .revalidate n ∧ D.failureResponse th lead rejected = HttpResponse.default := by
  rw [failureResponse_of_hopeless hopeless]
  cases lead with
  | pass => exact Or.inl ⟨rejected, decorate_status .., decorate_body ..⟩
  | miss n now cached => exact Or.inl ⟨rejected, decorate_status .., decorate_body ..⟩
  | revalidate n => exact Or.inr ⟨n, rfl, rfl⟩

end Contents

/-! ## Accounted responses -/

/-- **The origin delivered this status and body for the key.** -/
def Genuine (D : Deployment ι) (trace : List (Event ι)) (k : ByteString) (status : Int32)
    (body : ByteString) : Prop :=
  ∃ t i req result time, .fetched t i req result time ∈ trace ∧ D.key req = k ∧
    result.ok = true ∧ result.response.status = status ∧ result.response.body = body

/-- The origin delivered this status and body for the key, or they are an error
of the proxy. -/
def Accounted (D : Deployment ι) (trace : List (Event ι)) (k : ByteString) (status : Int32)
    (body : ByteString) : Prop :=
  Genuine D trace k status body ∨ OwnError status body

/-- Every answer of the run is accounted for. -/
def AllAccounted (D : Deployment ι) (s : State ι) : Prop :=
  ∀ t i req resp hit, .answered t i req resp hit ∈ s.trace →
    Accounted D s.trace (D.key req) resp.status resp.body

/-- No step fills, for a failed revalidation, a slot on which a thread waits. -/
def Unawaited (s : State ι) : Action ι → Prop
  | .step t _ => ∀ th m n hit resp, s.threads t = some th →
      th.pc = .fill (.revalidate m) n hit resp false →
      ∀ u uh, s.threads u = some uh → uh.pc ≠ .wait n
  | _ => True

/-- The statements of provenance: the caches hold what the origin delivered, and
a slot an error only where it says so. -/
def provenance (D : Deployment ι) (trace : List (Event ι)) : Labels ι where
  Entry _ k e := Genuine D trace k e.status e.body
  Blob k blob := ∀ wallMs now e, RedisL2Cache.decode blob wallMs now = some e →
    Genuine D trace k e.status e.body
  Own _ _ req resp := Genuine D trace (D.key req) resp.status resp.body
  Slot _ _ k resp success :=
    Genuine D trace k resp.status resp.body ∨ (success = false ∧ OwnError resp.status resp.body)
  Answer _ _ req resp _ := Accounted D trace (D.key req) resp.status resp.body

variable {D : Deployment ι} {guard : State ι → Action ι → Prop} {start final s : State ι}

omit [DecidableEq ι] in
/-- What comes out of L2 is what went in. -/
theorem contents_of_decode {e e' : CacheEntry} {ttlSeconds written wallMs : UInt64} {now : ℤ}
    {blob : ByteString} (put : RedisL2Cache.encode e ttlSeconds written = some blob)
    (got : RedisL2Cache.decode blob wallMs now = some e') :
    e'.status = e.status ∧ e'.body = e.body := by
  obtain ⟨-, rfl⟩ := RedisL2Cache.decode_of_encode put got
  exact ⟨rfl, rfl⟩

section Published

omit [DecidableEq ι]

variable {t n : ℕ} {th : Thread ι} {lead : Lead} {hit : Option ℤ} {resp : HttpResponse}
  {trace : List (Event ι)}

/-- A leader may publish what the origin delivered. -/
theorem published_of_genuine {success : Bool}
    (genuine : Genuine D trace (D.key th.req) resp.status resp.body) :
    (provenance D trace).Published D t th lead n hit resp success :=
  Labels.published_of_slot (Or.inl genuine) fun _ => Or.inl genuine

/-- A leader that failed may publish an error. -/
theorem published_of_ownError (error : OwnError resp.status resp.body) :
    (provenance D trace).Published D t th lead n hit resp false :=
  Labels.published_of_slot (Or.inr ⟨rfl, error⟩) fun _ => Or.inr error

end Published

/-- **Provenance is closed** along the runs on which no failed revalidation is awaited. -/
theorem provenance_closed (unawaited : ∀ s a, guard s a → Unawaited s a) :
    (provenance D final.trace).Closed D guard start final where
  hit _ _ entry _ := Or.inl (by rw [hitResponse_status, hitResponse_body]; exact entry)
  stale _ entry := Or.inl (by rw [staleResponse_status, staleResponse_body]; exact entry)
  decoded {s t th input lead blob e} _ _ _ _ held got := by
    refine ⟨held _ _ e got, fun n _ => published_of_genuine ?_⟩
    rw [l2Response_status, l2Response_body]
    exact held _ _ e got
  fetched _ _ event ok := ⟨_, _, _, _, _, event, rfl, ok, rfl, rfl⟩
  pass _ own := Or.inl (by rw [fetchedResponse_status, fetchedResponse_body]; exact own)
  passFailure {s t th input rejected b} _ _ :=
    Or.inr ⟨rejected, decorate_status .., decorate_body ..⟩
  failure {s t th input lead rejected b} scene failed n _ := by
    have hopeless := failed.hopeless (scene.hopeless t th scene.running)
    rcases failureResponse_contents hopeless rejected with error | ⟨m, rfl, placeholder⟩
    · exact published_of_ownError error
    · exact Or.inr ⟨rfl, placeholder⟩
  success _ _ _ own n _ := published_of_genuine <| by
    rw [fetchedResponse_status, fetchedResponse_body]
    exact own
  entry _ _ own _ _ := own
  encoded _ _ entry put wallMs now e got := by
    obtain ⟨status, body⟩ := contents_of_decode put got
    rw [status, body]
    exact entry
  placeholder scene here running waits :=
    absurd waits (unawaited _ _ scene.meets _ _ _ _ _ scene.running here _ _ running)
  coalesced {s t th input n resp success} _ _ _ slot := by
    change Accounted D final.trace _ (D.coalescedResponse th resp).status
      (D.coalescedResponse th resp).body
    rw [coalescedResponse_status, coalescedResponse_body]
    exact slot.imp_right And.right
  waiterEntry _ _ _ slot _ _ := slot.resolve_right (by simp)

/-- **Where no failed revalidation is awaited, every answer is accounted for.** -/
theorem accounted_of_run (D : Deployment ι) {clock : ℕ} {acts : List (Action ι)}
    (meets : Transition.Meets D.step Unawaited (D.initial clock) acts)
    (ran : Transition.run D.step (D.initial clock) acts = some s) : AllAccounted D s := by
  have run := Transition.Steps.of_run meets ran
  have flow := flow_of_run (provenance_closed fun _ _ => id) run
  exact flow.answers

/-! ## A placeholder that is answered -/

/-- The small deployment under a rule that allows stale responses for a second. -/
def staleDeployment : Deployment Unit :=
  { soloDeployment with
    policy := RuleOverridePolicy.decide [⟨bytes "/*", 1, 1, bytes "origin"⟩] 60 }

/-- A page is cached; a second request starts its revalidation, and when the page
can no longer be served stale a third one waits for that revalidation. -/
def awaitedRun (revalidation waiter : ℕ) (input : Input) : List (Action Unit) :=
  [.start 0 () (getRequest (bytes "/a"))] ++
    steps 11 0 (okInput (bytes "ETag") (bytes "1") (bytes "x")) ++
    [.tick 1500000000, .start 1 () (getRequest (bytes "/a"))] ++ steps 3 1 input ++
    [.tick 1000000000, .start 2 () (getRequest (bytes "/a"))] ++ steps 3 2 input ++
    steps revalidation 100 input ++ steps waiter 2 input

/-- An empty page was answered, and the origin delivered none. -/
def emptyAnswered (s : State Unit) : Bool :=
  (s.trace.any fun
    | .answered _ _ _ resp _ => resp.status = 200 ∧ resp.body = []
    | _ => false) &&
  s.trace.all fun
    | .fetched _ _ _ result _ => result.ok = false ∨ result.response.body ≠ []
    | _ => true

/-- An empty page that the origin did not deliver is not accounted for. -/
theorem not_allAccounted_of_emptyAnswered {D : Deployment Unit} {s : State Unit}
    (empty : emptyAnswered s = true) : ¬ AllAccounted D s := by
  intro accounted
  rw [emptyAnswered, Bool.and_eq_true, List.any_eq_true, List.all_eq_true] at empty
  obtain ⟨⟨e, mem, answered⟩, fetches⟩ := empty
  cases e with
  | answered t i req resp hit =>
      simp only [decide_eq_true_eq] at answered
      rcases accounted t i req resp hit mem with ⟨u, j, req', result, time, event, -, ok, -, body⟩ | own
      · have other := fetches _ event
        simp_all
      · obtain ⟨rejected, status, -⟩ := own
        rw [answered.1] at status
        cases rejected <;> exact absurd status (by decide)
  | _ => simp at answered

/-- **A failed revalidation hands its placeholder to the request that waits on it.** -/
theorem not_allAccounted_awaitedRun :
    ∃ s, Transition.run staleDeployment.step (staleDeployment.initial 0)
      (awaitedRun 6 2 failInput) = some s ∧ ¬ AllAccounted staleDeployment s := by
  obtain ⟨s, ran, empty⟩ := Transition.exists_of_run
    (show (Transition.run staleDeployment.step (staleDeployment.initial 0)
      (awaitedRun 6 2 failInput)).any emptyAnswered = true by decide +kernel)
  exact ⟨s, ran, not_allAccounted_of_emptyAnswered empty⟩

/-- Whether a step is not the one that fills a slot for a failed revalidation. -/
def fillsNoPlaceholder (s : State Unit) : Action Unit → Bool
  | .step t _ =>
      match (s.threads t).map Thread.pc with
      | some (.fill (.revalidate _) _ _ _ false) => false
      | _ => true
  | _ => true

theorem unawaited_of_fillsNoPlaceholder (s : State Unit) (a : Action Unit)
    (passed : fillsNoPlaceholder s a = true) : Unawaited s a := by
  cases a with
  | step t input =>
      intro th m n hit resp running here
      simp [fillsNoPlaceholder, running, here] at passed
  | _ => trivial

/-- Where the revalidation succeeds, its waiter is served what it fetched. -/
theorem accounted_awaitedRun :
    ∃ s, Transition.run staleDeployment.step (staleDeployment.initial 0)
      (awaitedRun 8 3 (okInput (bytes "ETag") (bytes "2") (bytes "y"))) = some s ∧
      AllAccounted staleDeployment s := by
  have runs : (Transition.run staleDeployment.step (staleDeployment.initial 0)
      (awaitedRun 8 3 (okInput (bytes "ETag") (bytes "2") (bytes "y")))).isSome = true := by
    decide +kernel
  obtain ⟨s, ran⟩ := Option.isSome_iff_exists.mp runs
  have meets := Transition.meets_of_passes unawaited_of_fillsNoPlaceholder
    (show Transition.passes staleDeployment.step fillsNoPlaceholder (staleDeployment.initial 0)
      (awaitedRun 8 3 (okInput (bytes "ETag") (bytes "2") (bytes "y"))) = true by decide +kernel)
  exact ⟨s, ran, accounted_of_run staleDeployment meets ran⟩

end EdgeCache

import EdgeCache.Sharing

/-!
# What is stored

A leader stores what it fetched before it decorates it, and a promotion stores what it read.
A waiter stores what it found in the slot, and that is what its leader was about to answer: the
response with the headers the proxy adds.  Only a background revalidation leaves the response
in the slot as it came.

**Main result.**  Where waiters store only what a background revalidation fetched, every
stored object has the status, the headers and the body that the origin delivered
(`original_of_run`).
-/

namespace EdgeCache

variable {ι : Type} [DecidableEq ι] {D : Deployment ι} {guard : State ι → Action ι → Prop}
  {start final s s' : State ι}

open Transition

/-! ## Originals -/

/-- **The origin delivered exactly this for the key.** -/
def DeliveredAs (D : Deployment ι) (trace : List (Event ι)) (k : ByteString) (status : Int32)
    (headers : Headers) (body : ByteString) : Prop :=
  ∃ t i req result time, .fetched t i req result time ∈ trace ∧ D.key req = k ∧
    result.ok = true ∧ result.response.status = status ∧ result.response.headers = headers ∧
    result.response.body = body

/-- **Every stored object is the origin's**: in L1, and in L2 as any replica reads it at any
time. -/
structure Original (D : Deployment ι) (s : State ι) : Prop where
  l1 : ∀ i k e, (s.cache i).Holds D.hash k e → DeliveredAs D s.trace k e.status e.headers e.body
  l2 : ∀ k blob wallMs now e, s.l2 k = some blob →
    RedisL2Cache.decode blob wallMs now = some e → DeliveredAs D s.trace k e.status e.headers e.body

/-- The thread runs in a call of `handle`. -/
def Called (trace : List (Event ι)) (t : ℕ) : Prop := ∃ i req, .began t i req ∈ trace

/-- **A waiter stores only what a background revalidation fetched.** -/
def StoresUndecorated (D : Deployment ι) (s : State ι) : Action ι → Prop
  | .step t _ => ∀ th n resp d, s.threads t = some th → th.pc = .maybeStore n resp true →
      D.decision th.req resp = some d → ∀ u i k, .led u i k n ∈ s.trace → ¬ Called s.trace u
  | _ => True

/-! ## Leaders that run in a call -/

omit [DecidableEq ι] in
theorem Called.mono {trace trace' : List (Event ι)} {t : ℕ} (grows : trace ⊆ trace')
    (called : Called trace t) : Called trace' t := by
  obtain ⟨i, req, began⟩ := called
  exact ⟨i, req, grows began⟩

/-- **Where a thread stands, if it runs in no call**: it fetches, stores and publishes as a
background revalidation, and it does not read L2. -/
def Pc.Owned (called : Prop) : Pc → Prop
  | .done => True
  | .l2Get lead | .promote lead _ => called ∧ ∀ n, lead ≠ .revalidate n
  | pc => (∀ n, pc.lead? ≠ some (.revalidate n)) → called

/-- Every thread stands where it may. -/
def AllOwned (s : State ι) : Prop :=
  ∀ t th, s.threads t = some th → th.pc.Owned (Called s.trace t)

theorem Pc.Owned.mono {called called' : Prop} {pc : Pc} (imp : called → called')
    (owned : pc.Owned called) : pc.Owned called' := by
  cases pc with
  | done => trivial
  | l2Get lead => exact ⟨imp owned.1, owned.2⟩
  | promote lead e => exact ⟨imp owned.1, owned.2⟩
  | _ => exact fun other => imp (owned other)

omit [DecidableEq ι] in
theorem Failed.owned {th : Thread ι} {lead : Lead} {rejected : Bool} {b : CircuitBreaker}
    {called : Prop} (failed : Failed D s th lead rejected b) (owned : th.pc.Owned called) :
    (∀ n, lead ≠ .revalidate n) → called := by
  intro other
  cases failed with
  | rejected here _ => rw [here] at owned; exact owned (by simpa [Pc.lead?] using other)
  | failed here _ => rw [here] at owned; exact owned (by simpa [Pc.lead?] using other)

omit [DecidableEq ι] in
theorem owned_of_move {t : ℕ} {th : Thread ι} {input : Input} {o : Outcome ι} {called : Prop}
    (move : Move D s t th input o) (owned : th.pc.Owned called) : o.pc.Owned called := by
  cases move with
  | lead here absent =>
      rw [here] at owned
      have called : called := owned (by simp [Pc.lead?])
      change (if _ then Pc.l2Get _ else Pc.allowRequest _).Owned _
      split
      · exact ⟨called, by simp⟩
      · exact fun _ => called
  | put here =>
      rw [here] at owned
      change (if _ then Pc.l2Put _ _ _ else Pc.publish _ _ _ _).Owned _
      split
      · exact owned
      · exact owned
  | leadFailure role failed =>
      exact fun other => failed.owned owned (by simpa [Pc.lead?] using other)
  | _ => simp_all [Pc.Owned, Pc.lead?]

theorem allOwned_step {a : Action ι} (taken : D.step s a = some s') (before : AllOwned s) :
    AllOwned s' := by
  have grows := (persists_step taken).1.subset
  refine threads_step taken (fun t i req begins => ?_)
    (fun t th input o _ _ _ move owned => ⟨owned_of_move move owned, fun u pc born => ?_⟩)
    (fun t th running => (before t th running).mono (Called.mono grows))
  · subst begins
    cases turn_of_step taken with
    | start unused =>
        have called : Called (.began t i req :: s.trace) t := ⟨i, req, List.mem_cons_self⟩
        change (if _ then Pc.lookup else Pc.allowRequest _).Owned _
        split
        · exact fun _ => called
        · exact fun _ => called
  · cases move with
    | triggerLead here absent unused =>
        cases born
        exact fun other => absurd rfl (other _)
    | _ => cases born

/-- A step begins no call in a thread that exists. -/
theorem called_of_step {a : Action ι} (taken : D.step s a = some s') {t : ℕ} {th : Thread ι}
    (running : s.threads t = some th) (called : Called s'.trace t) : Called s.trace t := by
  obtain ⟨i, req, began⟩ := called
  refine ⟨i, req, ?_⟩
  cases turn_of_step taken with
  | start unused =>
      rcases List.mem_cons.mp began with new | old
      · cases new
        rw [unused] at running
        cases running
      · exact old
  | thread found move =>
      refine (List.mem_append.mp began).resolve_left fun new => ?_
      cases move with
      | @fill lead => cases lead <;> simp [conclude] at new
      | @lost lead => cases lead <;> simp [conclude] at new
      | _ => simp at new
  | purgeStart unused => exact (List.mem_cons.mp began).resolve_left (by simp)
  | purgeReturn found last => exact (List.mem_cons.mp began).resolve_left (by simp)
  | _ => exact began

/-- A thread does not come to run in a call later. -/
theorem called_of_steps (steps : Steps D.step guard s s') {t : ℕ} {th : Thread ι}
    (running : s.threads t = some th) (called : Called s'.trace t) : Called s.trace t := by
  induction steps with
  | refl => exact called
  | tail front last ih =>
      obtain ⟨a, _, taken⟩ := last
      obtain ⟨pc, persists⟩ := (persists_of_steps front).2.2 t th running
      exact ih (called_of_step taken persists called)

/-! ## The labels -/

/-- The statements of the originals: what is stored was delivered, and so is what a slot holds,
unless its leader runs in a call. -/
def originals (D : Deployment ι) (trace : List (Event ι)) : Labels ι where
  Entry _ k e := DeliveredAs D trace k e.status e.headers e.body
  Blob k blob := ∀ wallMs now e, RedisL2Cache.decode blob wallMs now = some e →
    DeliveredAs D trace k e.status e.headers e.body
  Own _ _ req resp := DeliveredAs D trace (D.key req) resp.status resp.headers resp.body
  Slot n _ k resp success := success = true →
    DeliveredAs D trace k resp.status resp.headers resp.body ∨
      ∃ u i k', .led u i k' n ∈ trace ∧ Called trace u
  Answer _ _ _ _ _ := True

omit [DecidableEq ι] in
/-- A leader that failed may publish anything. -/
theorem originals_published_failure {trace : List (Event ι)} {t n : ℕ} {th : Thread ι}
    {lead : Lead} {hit : Option ℤ} {resp : HttpResponse} :
    (originals D trace).Published D t th lead n hit resp false :=
  Labels.published_of_slot (fun failed => Bool.noConfusion failed) fun _ => trivial

/-- **The originals are closed** where waiters store only what a revalidation fetched. -/
theorem originals_closed (registry : Registry D final)
    (owned : ∀ s, Steps D.step guard start s → AllOwned s)
    (toward : ∀ s a, guard s a → StoresUndecorated D s a ∧
      Steps D.step (fun _ _ => True) s final) :
    (originals D final.trace).Closed D guard start final where
  hit _ _ _ _ := trivial
  stale _ _ := trivial
  decoded {s t th input lead blob e} scene here _ _ held got := by
    refine ⟨held _ _ _ got, fun n mine => ?_⟩
    have stands := owned s scene.front t th scene.running
    rw [here] at stands
    cases lead with
    | pass => trivial
    | miss m now cached =>
        -- What is answered from L2 carries the marks of the proxy, and comes from a call.
        have led := scene.registry.led t th n scene.running (by rw [here]; exact mine)
        exact ⟨fun _ => Or.inr ⟨t, _, _, scene.past.subset led,
          stands.1.mono scene.past.subset⟩, trivial⟩
    | revalidate m => exact absurd rfl (stands.2 m)
  fetched _ _ event ok := ⟨_, _, _, _, _, event, rfl, ok, rfl, rfl, rfl⟩
  pass _ _ := trivial
  passFailure _ _ := trivial
  failure _ _ _ _ := originals_published_failure
  success {s t th input lead resp} scene holding role own n mine := by
    cases lead with
    | pass => trivial
    | miss m now cached =>
        have led := scene.registry.led t th n scene.running (holding.trans mine)
        have stands := owned s scene.front t th scene.running
        have called : Called s.trace t := by
          cases here : th.pc <;> simp_all [Pc.Owned, Pc.lead?]
        exact ⟨fun _ => Or.inr ⟨t, _, _, scene.past.subset led,
          called.mono scene.past.subset⟩, trivial⟩
    | revalidate m => exact Or.inl fun _ => Or.inl own
  entry _ _ own _ _ := own
  encoded _ _ entry put wallMs now e got := by
    obtain ⟨-, rfl⟩ := RedisL2Cache.decode_of_encode put got
    exact entry
  placeholder _ _ _ _ := fun failed => Bool.noConfusion failed
  coalesced _ _ _ _ := trivial
  waiterEntry {s t th input n resp d} scene here _ slot granted _ := by
    rcases slot rfl with delivered | ⟨u, i, k, led, called⟩
    · exact delivered
    · -- The leader of the slot is known by now, and runs in no call.
      obtain ⟨undecorated, rest⟩ := toward _ _ scene.meets
      obtain ⟨v, filled⟩ := scene.registry.read t th n resp true scene.running
        (by rw [here]; rfl)
      obtain ⟨_, j, l, led'⟩ := scene.registry.filled v n resp true filled
      obtain ⟨vh, running, _⟩ := scene.registry.finished v j l n led'
      obtain rfl : u = v := registry.ledOnce u v i j k l n led (scene.past.subset led')
      exact absurd (called_of_steps rest running called)
        (undecorated th n resp d scene.running here granted u j l led')

/-- **Where waiters store only what a background revalidation fetched, every stored object is
the origin's.** -/
theorem original_of_run (D : Deployment ι) {clock : ℕ} {acts : List (Action ι)}
    (meets : Meets D.step (StoresUndecorated D) (D.initial clock) acts)
    (ran : run D.step (D.initial clock) acts = some s) : Original D s := by
  have steps := (Steps.of_run meets ran).toward
  have flow := flow_of_run (originals_closed (registry_of_steps steps)
    (fun s front => front.invariant (fun _ _ _ _ taken => allOwned_step taken)
      fun t th running => by cases running)
    fun s a meets => ⟨meets.1, meets.2.mono fun _ _ _ => trivial⟩) steps
  exact
    { l1 := flow.cache
      l2 := fun k blob wallMs now e held got => flow.l2 k blob held wallMs now e got }

/-! ## A waiter that stores an answer -/

/-- A request fetches a page, and a second one waits for it and stores what it finds. -/
def decoratingRun : List (Action Unit) :=
  [.start 0 () (getRequest (bytes "/a")), .start 1 () (getRequest (bytes "/a"))] ++
    steps 3 0 failInput ++ steps 3 1 failInput ++
    steps 8 0 (okInput (bytes "ETag") (bytes "1") (bytes "x")) ++ steps 3 1 failInput

/-- Whether an entry for the page has a mark that no fetched response has. -/
def marked (s : State Unit) : Bool :=
  (((s.cache ()).get soloDeployment.hash (soloDeployment.key (getRequest (bytes "/a")))).1.any
    fun e => e.headers.find? (bytes "X-Cache") = some (bytes "MISS")) &&
  s.trace.all fun
    | .fetched _ _ _ result _ => result.response.headers.find? (bytes "X-Cache") = none
    | _ => true

/-- **A waiter stores its leader's answer**, with the headers the proxy added to it. -/
theorem not_original_decoratingRun :
    ∃ s, run soloDeployment.step (soloDeployment.initial 0) decoratingRun = some s ∧
      ¬ Original soloDeployment s := by
  obtain ⟨s, ran, mark⟩ := exists_of_run
    (show (run soloDeployment.step (soloDeployment.initial 0) decoratingRun).any marked = true by
      decide +kernel)
  refine ⟨s, ran, fun original => ?_⟩
  rw [marked, Bool.and_eq_true, Option.any_eq_true, List.all_eq_true] at mark
  obtain ⟨⟨e, found, mark⟩, plain⟩ := mark
  obtain ⟨t, i, req, result, time, fetched, -, -, -, headers, -⟩ :=
    original.l1 () _ e (ShardedCache.get_eq_some_iff.mp found)
  have absent := of_decide_eq_true (plain _ fetched)
  rw [headers, of_decide_eq_true mark] at absent
  cases absent

/-- Whether no waiter is about to store what was fetched in a call. -/
def storesUndecorated (s : State Unit) : Action Unit → Bool
  | .step t _ =>
      (s.threads t).all fun th =>
        match th.pc with
        | .maybeStore n _ true => s.trace.all fun
            | .led u _ _ m => m ≠ n || s.trace.all fun
                | .began v _ _ => v ≠ u
                | _ => true
            | _ => true
        | _ => true
  | _ => true

theorem storesUndecorated_sound (s : State Unit) (a : Action Unit)
    (passed : storesUndecorated s a = true) : StoresUndecorated staleDeployment s a := by
  cases a with
  | step t input =>
      rintro th n resp d running here - u i k led ⟨j, req, began⟩
      simp only [storesUndecorated, running, here, Option.all_some] at passed
      have first := List.all_eq_true.mp passed _ led
      simp only [ne_eq, not_true_eq_false, decide_false, Bool.false_or] at first
      have second := List.all_eq_true.mp first _ began
      simp at second
  | _ => trivial

/-- The copy that a waiter stores from a background revalidation is the origin's. -/
theorem original_awaitedRun :
    ∃ s, run staleDeployment.step (staleDeployment.initial 0)
      (awaitedRun 8 3 (okInput (bytes "ETag") (bytes "2") (bytes "y"))) = some s ∧
      Original staleDeployment s := by
  have runs : (run staleDeployment.step (staleDeployment.initial 0)
      (awaitedRun 8 3 (okInput (bytes "ETag") (bytes "2") (bytes "y")))).isSome = true := by
    decide +kernel
  obtain ⟨s, ran⟩ := Option.isSome_iff_exists.mp runs
  have meets := meets_of_passes storesUndecorated_sound
    (show passes staleDeployment.step storesUndecorated (staleDeployment.initial 0)
      (awaitedRun 8 3 (okInput (bytes "ETag") (bytes "2") (bytes "y"))) = true by decide +kernel)
  exact ⟨s, ran, original_of_run staleDeployment meets ran⟩

end EdgeCache

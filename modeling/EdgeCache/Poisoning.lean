import EdgeCache.Purging

/-!
# What one client can do to another

Two runs are compared that differ in the headers and the body of their first request.
The key does not depend on either, but `HttpOriginClient::fetch` forwards both, and what
the origin answers to them is stored under the key for everybody.

The runs take the same steps.  While the first request is handled they are `Opening`,
alike but for what that request carries; once it has been answered they are `Alongside`,
and what the others get is the same.

**Main result.**  Where the origin answers both first requests alike, or neither answer is
stored, the headers and the body of the first request change nothing for the others
(`unpoisoned_of_harmless`).
-/

namespace EdgeCache

variable {ι : Type}

/-! ## An origin that is a function -/

/-- The same input with another answer of the origin. -/
def Input.answering (input : Input) (resp : HttpResponse) : Input :=
  { input with result := .success resp }

namespace Deployment

variable (D : Deployment ι)

/-- What the origin answers: a function of the bytes it is sent. -/
def answerTo (origin : ByteString → HttpResponse) (r : HttpRequest) : HttpResponse :=
  origin (HttpOriginClient.requestBytes r D.defaultOriginHost)

/-- The steps of the fleet in front of such an origin. -/
def stepWith [DecidableEq ι] (origin : ByteString → HttpResponse) (s : State ι) :
    Action ι → Option (State ι)
  | .step t input =>
      (s.threads t).bind fun th => D.step s (.step t (input.answering (D.answerTo origin th.req)))
  | a => D.step s a

end Deployment

/-- What an event answers to another client than the thread `t`. -/
def Event.answerBut? (t : ℕ) : Event ι → Option (ℕ × ι × HttpRequest × HttpResponse × Option ℤ)
  | .answered u i req resp hit => if u = t then none else some (u, i, req, resp, hit)
  | _ => none

/-- **What the other clients get**, the latest first. -/
def State.othersGet (s : State ι) (t : ℕ) :
    List (ℕ × ι × HttpRequest × HttpResponse × Option ℤ) :=
  s.trace.filterMap (Event.answerBut? t)

/-- Two requests with one method and one target, which the path and the query are split from. -/
structure SameTarget (r r' : HttpRequest) : Prop where
  method : r'.method = r.method
  target : r'.target = r.target
  path : r'.path = r.path
  query : r'.query = r.query

/-- **The first request does not poison**: whatever is asked after it has been answered, by
whatever clients in whatever order, the others get the same answers as if it had been `r'`. -/
def Unpoisoned [DecidableEq ι] (D : Deployment ι) (origin : ByteString → HttpResponse)
    (r r' : HttpRequest) : Prop :=
  ∀ (clock t : ℕ) (i : ι) (front later : List (Action ι)) (s₁ s₂ : State ι),
    (∀ u j q, .start u j q ∉ front) →
    Transition.run (D.stepWith origin) (D.initial clock) (.start t i r :: front) = some s₁ →
    s₁.threads t = some ⟨i, r, .done⟩ →
    Transition.run (D.stepWith origin) s₁ later = some s₂ →
    ∃ s₂', Transition.run (D.stepWith origin) (D.initial clock)
        (.start t i r' :: front ++ later) = some s₂' ∧
      s₂'.othersGet t = s₂.othersGet t

/-- **The first request is harmless**: the origin answers it like the other one, or neither
answer is stored. -/
def Harmless (D : Deployment ι) (origin : ByteString → HttpResponse) (r r' : HttpRequest) :
    Prop :=
  D.answerTo origin r' = D.answerTo origin r ∨
    (D.decision r (D.answerTo origin r) = none ∧ D.decision r' (D.answerTo origin r') = none)

/-! ## Requests for one target -/

/-- The event, with the request replaced. -/
def Event.readdress (r : HttpRequest) : Event ι → Event ι
  | .began t i _ => .began t i r
  | .fetchStarted t i _ => .fetchStarted t i r
  | .fetched t i _ result time => .fetched t i r result time
  | .granted t i _ resp d time => .granted t i r resp d time
  | .answered t i _ resp hit => .answered t i r resp hit
  | e => e

/-- The outcome, with the request replaced in what is put on the trace. -/
def Outcome.readdress (r : HttpRequest) (o : Outcome ι) : Outcome ι :=
  { o with events := o.events.map (Event.readdress r) }

section Target

variable {D : Deployment ι} {s s' : State ι} {t : ℕ} {i : ι} {r r' : HttpRequest} {pc : Pc}
  {input : Input}

theorem SameTarget.key (same : SameTarget r r') : D.key r' = D.key r := by
  simp only [Deployment.key, CacheKey.fromRequest, same.method, same.path, same.query]

theorem SameTarget.decision (same : SameTarget r r') (resp : HttpResponse) :
    D.decision r' resp = D.decision r resp := by
  have cacheable : r'.isCacheableMethod = r.isCacheableMethod := by
    simp only [HttpRequest.isCacheableMethod, same.method]
  simp only [Deployment.decision, cacheable, same.path]

/-- **A step does the same for a request with the same target**, but for the request it names in
its events. -/
theorem advance_readdress (same : SameTarget r r') :
    D.advance s t ⟨i, r', pc⟩ input =
      (D.advance s t ⟨i, r, pc⟩ input).map (Outcome.readdress r') := by
  have concluded : ∀ lead hit resp, conclude t ⟨i, r', pc⟩ lead hit resp =
      (conclude t ⟨i, r, pc⟩ lead hit resp).map (Event.readdress r') := by
    intro lead hit resp
    cases lead <;> rfl
  have fetched : ∀ lead resp,
      D.fetchedResponse ⟨i, r', pc⟩ lead resp = D.fetchedResponse ⟨i, r, pc⟩ lead resp := by
    intro lead resp
    cases lead <;> simp only [Deployment.fetchedResponse, same.path]
  unfold Deployment.advance
  cases pc with
  | get now =>
      simp only [same.key (D := D), Option.map_some, Deployment.lookedUp]
      split
      · rfl
      · split
        · rfl
        · split <;> rfl
  | trigger resp =>
      simp only [same.key (D := D)]
      split
      · rfl
      · split <;> rfl
  | acquire now cached =>
      simp only [same.key (D := D)]
      split <;> rfl
  | l2Get lead =>
      simp only [same.key (D := D)]
      split <;> rfl
  | promote lead entry => simp only [same.key (D := D)]; rfl
  | allowRequest lead =>
      simp only [Option.map_some]
      split
      · rfl
      · cases lead <;> rfl
  | record lead result =>
      simp only
      split
      · cases lead with
        | pass => simp only [fetched, concluded]; rfl
        | _ => rfl
      · cases lead <;> rfl
  | storeTiers lead resp =>
      simp only [same.decision (D := D), fetched]
      split <;> rfl
  | put lead resp entry => simp only [same.key (D := D), Deployment.afterPut, fetched]; rfl
  | l2Put lead resp entry => simp only [fetched]; rfl
  | publish lead hit resp success =>
      simp only [same.key (D := D), concluded]
      split <;> rfl
  | fill lead n hit resp success => simp [concluded, Outcome.readdress, Event.readdress]
  | wait n =>
      simp only
      split <;> rfl
  | maybeStore n resp success =>
      simp only [same.decision (D := D)]
      split <;> rfl
  | waiterPut n resp entry => simp only [same.key (D := D)]; rfl
  | _ => rfl

/-- Only the end of a fetch depends on what the origin answers. -/
theorem advance_answering (other : ∀ lead, pc ≠ .fetching lead) (resp : HttpResponse) :
    D.advance s t ⟨i, r, pc⟩ (input.answering resp) = D.advance s t ⟨i, r, pc⟩ input := by
  cases pc with
  | fetching lead => exact absurd rfl (other lead)
  | _ => rfl

end Target

/-! ## States beside each other -/

/-- Two states that differ in their slots, their threads and their traces only. -/
def Beside (s s' : State ι) : Prop :=
  ∃ slots threads trace, s' = { s with slots := slots, threads := threads, trace := trace }

/-- Two writes that differ in what they leave in a slot only. -/
inductive SameWrite : Write → Write → Prop
  | same (w : Write) : SameWrite w w
  | fill (n : ℕ) (resp resp' : HttpResponse) (success : Bool) :
      SameWrite (.fill n resp success) (.fill n resp' success)

section Beside

variable {D : Deployment ι} {s s' : State ι} {t : ℕ} {th th' : Thread ι} {input : Input}

/-- Beside each other, a thread takes the same step unless it reads its slot. -/
theorem advance_beside (beside : Beside s s')
    (occupied : ∀ u, (s'.threads u).isNone = (s.threads u).isNone)
    (slots : ∀ n, th.pc = .wait n → s'.slots n = s.slots n) :
    D.advance s' t th input = D.advance s t th input := by
  obtain ⟨σ, θ, τ, rfl⟩ := beside
  unfold Deployment.advance
  cases here : th.pc with
  | trigger resp =>
      have free := occupied input.child
      simp only at free
      simp only [free]
  | wait n =>
      have found := slots n here
      simp only at found
      simp only [found]
  | _ => rfl

variable [DecidableEq ι]

theorem beside_commit {key : ByteString} {o o' : Outcome ι} (beside : Beside s s')
    (replica : th'.replica = th.replica) (write : SameWrite o.write o'.write) :
    Beside (s.commit key t th o) (s'.commit key t th' o') := by
  obtain ⟨σ, θ, τ, rfl⟩ := beside
  unfold State.commit
  rw [replica]
  generalize o.write = w at write
  generalize o'.write = w' at write
  cases write with
  | same => cases w <;> exact ⟨_, _, _, rfl⟩
  | fill => exact ⟨_, _, _, rfl⟩

/-- The slots that are still to be made stay the same. -/
theorem slots_commit {key : ByteString} {o o' : Outcome ι} {m : ℕ} (beside : Beside s s')
    (write : SameWrite o.write o'.write)
    (made : ∀ n resp success, o.write = .fill n resp success → n < m ∨ o'.write = o.write)
    (slots : ∀ n, m ≤ n → s'.slots n = s.slots n) {n : ℕ} (later : m ≤ n) :
    (s'.commit key t th' o').slots n = (s.commit key t th o).slots n := by
  obtain ⟨σ, θ, τ, rfl⟩ := beside
  rw [commit_slots, commit_slots]
  generalize o.write = w at write made
  generalize o'.write = w' at write made
  have old := slots n later
  cases write with
  | same =>
      cases w with
      | enter =>
          simp only [State.apply, Function.update_apply]
          split
          · rfl
          · exact old
      | fill k resp success =>
          simp only [State.apply, Function.update_apply]
          split
          · rfl
          · exact old
      | _ => exact old
  | fill k resp resp' success =>
      rcases made k resp success rfl with before | equal
      · simp only [State.apply]
        rw [Function.update_of_ne (by omega), Function.update_of_ne (by omega)]
        exact old
      · cases equal
        simp only [State.apply, Function.update_apply]
        split
        · rfl
        · exact old

end Beside

/-! ## The steps of the environment -/

/-- The action is neither a call of `handle` nor a step of a thread. -/
def Action.Environment : Action ι → Prop
  | .start _ _ _ | .step _ _ => False
  | _ => True

/-- What a step of the environment leaves alone, in each of two states beside each other. -/
structure Untouched (t : ℕ) (s s₁ : State ι) : Prop where
  slots : s₁.slots = s.slots
  threads : s₁.threads = s.threads
  inflight : s₁.inflight = s.inflight
  nextSlot : s₁.nextSlot = s.nextSlot
  answers : s₁.othersGet t = s.othersGet t

variable [DecidableEq ι] {D : Deployment ι} {origin : ByteString → HttpResponse}
  {s s' s₁ : State ι} {t m : ℕ} {i : ι} {r r' : HttpRequest}

/-- Beside each other, the environment takes the same steps. -/
theorem environment_beside {a : Action ι} (outside : a.Environment) (beside : Beside s s')
    (taken : D.step s a = some s₁) :
    ∃ s₁', D.step s' a = some s₁' ∧ Beside s₁ s₁' ∧ Untouched t s s₁ ∧ Untouched t s' s₁' := by
  obtain ⟨σ, θ, τ, rfl⟩ := beside
  cases turn_of_step taken with
  | start unused => exact outside.elim
  | thread running move => exact outside.elim
  | @purgeStart p j pattern unused =>
      refine ⟨_, ?_, ⟨σ, θ, .purgeBegan p j pattern :: τ, rfl⟩, ⟨rfl, rfl, rfl, rfl, rfl⟩,
        ⟨rfl, rfl, rfl, rfl, rfl⟩⟩
      exact if_pos (by rw [unused]; rfl)
  | @purgeShard p g running more =>
      refine ⟨_, ?_, ⟨σ, θ, τ, rfl⟩, ⟨rfl, rfl, rfl, rfl, rfl⟩, ⟨rfl, rfl, rfl, rfl, rfl⟩⟩
      simp [Deployment.step, running, more]
  | @purgeReturn p g running last =>
      refine ⟨_, ?_, ⟨σ, θ, .purgeReturned p g.replica g.pattern :: τ, rfl⟩,
        ⟨rfl, rfl, rfl, rfl, rfl⟩, ⟨rfl, rfl, rfl, rfl, rfl⟩⟩
      simp [Deployment.step, running, last]
  | sweep =>
      exact ⟨_, rfl, ⟨σ, θ, τ, rfl⟩, ⟨rfl, rfl, rfl, rfl, rfl⟩, ⟨rfl, rfl, rfl, rfl, rfl⟩⟩
  | tick bounded =>
      refine ⟨_, ?_, ⟨σ, θ, τ, rfl⟩, ⟨rfl, rfl, rfl, rfl, rfl⟩, ⟨rfl, rfl, rfl, rfl, rfl⟩⟩
      exact if_pos bounded
  | l2Drop =>
      exact ⟨_, rfl, ⟨σ, θ, τ, rfl⟩, ⟨rfl, rfl, rfl, rfl, rfl⟩, ⟨rfl, rfl, rfl, rfl, rfl⟩⟩

/-! ## The steps of a thread -/

/-- A step of a thread in front of the origin. -/
theorem thread_of_stepWith {input : Input}
    (taken : D.stepWith origin s (.step t input) = some s₁) :
    ∃ th o, s.threads t = some th ∧
      D.advance s t th (input.answering (D.answerTo origin th.req)) = some o ∧
      s.commit (D.key th.req) t th o = s₁ := by
  simp only [Deployment.stepWith, Deployment.step, Option.bind_eq_some_iff,
    Option.map_eq_some_iff] at taken
  obtain ⟨th, running, th', running', o, advanced, same⟩ := taken
  obtain rfl : th = th' := Option.some.inj (running.symm.trans running')
  exact ⟨th, o, running, advanced, same⟩

theorem stepWith_of_thread {input : Input} {th : Thread ι} {o : Outcome ι}
    (running : s.threads t = some th)
    (advanced : D.advance s t th (input.answering (D.answerTo origin th.req)) = some o) :
    D.stepWith origin s (.step t input) = some (s.commit (D.key th.req) t th o) := by
  simp [Deployment.stepWith, Deployment.step, running, advanced]

/-- The registry after a step has the slots it had and the one that was made. -/
theorem inflight_commit {key k : ByteString} {th : Thread ι} {o : Outcome ι} {j : ι} {n : ℕ}
    (found : (s.commit key t th o).inflight j k = some n) :
    s.inflight j k = some n ∨ n = s.nextSlot := by
  rw [commit_inflight] at found
  cases write : o.write with
  | enter =>
      rw [write, State.apply] at found
      by_cases here : j = th.replica
      · subst here
        simp only [Function.update_self] at found
        rcases update_eq_some found with ⟨-, new⟩ | ⟨-, old⟩
        · exact Or.inr new
        · exact Or.inl old
      · simp only [Function.update_of_ne here] at found
        exact Or.inl found
  | withdraw =>
      rw [write, State.apply] at found
      refine Or.inl ?_
      by_cases here : j = th.replica
      · subst here
        simp only [Function.update_self] at found
        by_cases mine : k = key
        · rw [mine, Function.update_self] at found
          cases found
        · rwa [Function.update_of_ne mine] at found
      · simpa only [Function.update_of_ne here] using found
  | _ =>
      rw [write] at found
      exact Or.inl found

theorem le_nextSlot_commit {key : ByteString} {th : Thread ι} {o : Outcome ι} :
    s.nextSlot ≤ (s.commit key t th o).nextSlot := by
  rw [commit_nextSlot]
  cases o.write with
  | enter => exact Nat.le_succ _
  | _ => exact le_rfl

/-- A step does the same to threads that are the same. -/
theorem threads_commit_congr {key : ByteString} {u : ℕ} {th : Thread ι} {o : Outcome ι}
    (same : s'.threads u = s.threads u) :
    (s'.commit key t th o).threads u = (s.commit key t th o).threads u := by
  change State.spawn _ th o.child u = State.spawn _ th o.child u
  cases o.child with
  | none => simp only [State.spawn, Function.update_apply, same]
  | some child => simp only [State.spawn, Function.update_apply, same]

omit [DecidableEq ι] in
/-- Whoever waits after a move found the slot in the registry, and no thread starts waiting. -/
theorem inflight_of_wait {th : Thread ι} {input : Input} {o : Outcome ι}
    (move : Move D s t th input o) (n : ℕ) :
    (o.pc = .wait n → s.inflight th.replica (D.key th.req) = some n) ∧
      ∀ u pc, o.child = some (u, pc) → pc ≠ .wait n := by
  cases move with
  | join pc found =>
      refine ⟨fun here => ?_, fun u pc born => by cases born⟩
      cases here
      exact found
  | lead pc absent =>
      refine ⟨fun here => ?_, fun u pc born => by cases born⟩
      change (if _ then Pc.l2Get _ else Pc.allowRequest _) = Pc.wait n at here
      split at here <;> cases here
  | put pc =>
      refine ⟨fun here => ?_, fun u pc born => by cases born⟩
      change (if _ then Pc.l2Put _ _ _ else Pc.publish _ _ _ _) = Pc.wait n at here
      split at here <;> cases here
  | triggerLead pc absent unused =>
      refine ⟨fun here => (by cases here), fun u pc born here => ?_⟩
      cases born
      cases here
  | _ => exact ⟨fun here => (by cases here), fun u pc born => (by cases born)⟩

/-! ## After the first request has been answered -/

/-- **The two runs go on alongside each other.**  The thread `t` is done, and nobody has to do
with the slots below `m`, which may differ. -/
structure Alongside (t m : ℕ) (s s' : State ι) : Prop where
  beside : Beside s s'
  made : m ≤ s.nextSlot
  slots : ∀ n, m ≤ n → s'.slots n = s.slots n
  inflight : ∀ j k n, s.inflight j k = some n → m ≤ n
  waits : ∀ u th n, s.threads u = some th → th.pc = .wait n → m ≤ n
  ended : ∃ th th', s.threads t = some th ∧ th.pc = .done ∧ s'.threads t = some th'
  others : ∀ u, u ≠ t → s'.threads u = s.threads u
  answers : s'.othersGet t = s.othersGet t

namespace Alongside

omit [DecidableEq ι] in
theorem occupied (along : Alongside t m s s') (u : ℕ) :
    (s'.threads u).isNone = (s.threads u).isNone := by
  by_cases here : u = t
  · obtain ⟨th, th', running, -, running'⟩ := along.ended
    rw [here, running, running']
    rfl
  · rw [along.others u here]

/-- A step of another thread. -/
theorem thread (along : Alongside t m s s') {u : ℕ} {input : Input}
    (taken : D.stepWith origin s (.step u input) = some s₁) :
    ∃ s₁', D.stepWith origin s' (.step u input) = some s₁' ∧ Alongside t m s₁ s₁' := by
  obtain ⟨th, o, running, advanced, rfl⟩ := thread_of_stepWith taken
  obtain ⟨ah, ah', first, done, first'⟩ := along.ended
  have move := move_of_advance advanced
  -- The first request is done, so another thread moves.
  have apart : u ≠ t := by
    rintro rfl
    rw [first, Option.some.injEq] at running
    rw [← running] at advanced
    simp [Deployment.advance, done] at advanced
  have advanced' : D.advance s' u th (input.answering (D.answerTo origin th.req)) = some o := by
    rw [advance_beside along.beside along.occupied fun n here =>
      along.slots n (along.waits u th n running here)]
    exact advanced
  refine ⟨_, stepWith_of_thread ((along.others u apart).trans running) advanced', ?_⟩
  exact
    { beside := beside_commit along.beside rfl (.same _)
      made := along.made.trans le_nextSlot_commit
      slots := fun n later => slots_commit along.beside (.same _)
        (fun _ _ _ _ => Or.inr rfl) along.slots later
      inflight := fun j k n found => by
        rcases inflight_commit found with old | rfl
        · exact along.inflight j k n old
        · exact along.made
      waits := fun v vh n running' here => by
        rcases threads_commit running' with ⟨rfl, rfl⟩ | ⟨pc, born, rfl⟩ | ⟨-, old⟩
        · exact along.inflight _ _ _ ((inflight_of_wait move n).1 here)
        · exact absurd here ((inflight_of_wait move n).2 v pc born)
        · exact along.waits v vh n old here
      ended := ⟨ah, ah', threads_commit_of_ne move first apart.symm, done,
        threads_commit_of_ne (move_of_advance advanced') first' apart.symm⟩
      others := fun v other => threads_commit_congr (along.others v other)
      answers := by
        have same := along.answers
        simp only [State.othersGet, commit_trace, List.filterMap_append] at same ⊢
        rw [same] }

/-- A step of the environment. -/
theorem environment (along : Alongside t m s s') {a : Action ι} (outside : a.Environment)
    (taken : D.step s a = some s₁) :
    ∃ s₁', D.step s' a = some s₁' ∧ Alongside t m s₁ s₁' := by
  obtain ⟨s₁', taken', beside, left, right⟩ := environment_beside (t := t) outside along.beside taken
  refine ⟨s₁', taken', beside, ?_, ?_, ?_, ?_, ?_, ?_, ?_⟩
  · rw [left.nextSlot]
    exact along.made
  · rw [left.slots, right.slots]
    exact along.slots
  · rw [left.inflight]
    exact along.inflight
  · rw [left.threads]
    exact along.waits
  · rw [left.threads, right.threads]
    exact along.ended
  · rw [left.threads, right.threads]
    exact along.others
  · rw [left.answers, right.answers]
    exact along.answers

/-- A further request. -/
theorem start (along : Alongside t m s s') {u : ℕ} {j : ι} {q : HttpRequest}
    (taken : D.step s (.start u j q) = some s₁) :
    ∃ s₁', D.step s' (.start u j q) = some s₁' ∧ Alongside t m s₁ s₁' := by
  cases turn_of_step taken with
  | start unused =>
      have free : (s'.threads u).isNone = true := by
        rw [along.occupied u, unused]
        rfl
      have apart : u ≠ t := by
        rintro rfl
        obtain ⟨th, -, running, -⟩ := along.ended
        rw [unused] at running
        cases running
      refine ⟨_, if_pos free, ?_⟩
      obtain ⟨th, th', running, done, running'⟩ := along.ended
      obtain ⟨σ, θ, τ, rfl⟩ := along.beside
      exact
        { beside := ⟨_, _, _, rfl⟩
          made := along.made
          slots := along.slots
          inflight := along.inflight
          waits := fun v vh n found here => by
            -- A request begins with its lookup or, uncached, with the breaker.
            rcases update_eq_some found with ⟨-, rfl⟩ | ⟨-, old⟩
            · change (if _ then Pc.lookup else Pc.allowRequest _) = Pc.wait n at here
              split at here <;> cases here
            · exact along.waits v vh n old here
          ended := ⟨th, th', (Function.update_of_ne apart.symm ..).trans running, done,
            (Function.update_of_ne apart.symm ..).trans running'⟩
          others := fun v other => by
            have same := along.others v other
            simp only [Function.update_apply] at same ⊢
            rw [same]
          answers := along.answers }

/-- Alongside each other, the two runs take the same steps. -/
theorem step (along : Alongside t m s s') {a : Action ι}
    (taken : D.stepWith origin s a = some s₁) :
    ∃ s₁', D.stepWith origin s' a = some s₁' ∧ Alongside t m s₁ s₁' := by
  cases a with
  | step u input => exact along.thread taken
  | start u j q => exact along.start (D := D) taken
  | purgeStart p j pattern => exact along.environment (D := D) (a := .purgeStart p j pattern) trivial taken
  | purgeStep p => exact along.environment (D := D) (a := .purgeStep p) trivial taken
  | sweep j shard => exact along.environment (D := D) (a := .sweep j shard) trivial taken
  | tick d => exact along.environment (D := D) (a := .tick d) trivial taken
  | l2Drop key => exact along.environment (D := D) (a := .l2Drop key) trivial taken

end Alongside

/-! ## While the first request is handled -/

/-- The operations of a request that finds nothing cached and nobody to wait for. -/
def Pc.Opened : Pc → Prop
  | .trigger _ | .wait _ | .maybeStore _ _ _ | .waiterPut _ _ _ => False
  | _ => True

/-- The lookup is not over. -/
def Pc.LooksUp : Pc → Prop
  | .lookup | .get _ => True
  | _ => False

/-- **Where the two first requests stand**: at the same operation, with what the origin answered
to either. -/
inductive Parallel (D : Deployment ι) (origin : ByteString → HttpResponse) (r r' : HttpRequest) :
    Pc → Pc → Prop
  | same (pc : Pc) : Parallel D origin r r' pc pc
  | record (lead : Lead) : Parallel D origin r r' (.record lead (.success (D.answerTo origin r)))
      (.record lead (.success (D.answerTo origin r')))
  | storeTiers (lead : Lead) : Parallel D origin r r' (.storeTiers lead (D.answerTo origin r))
      (.storeTiers lead (D.answerTo origin r'))
  | publish (lead : Lead) (hit : Option ℤ) (resp resp' : HttpResponse) (success : Bool) :
      Parallel D origin r r' (.publish lead hit resp success) (.publish lead hit resp' success)
  | fill (lead : Lead) (n : ℕ) (hit : Option ℤ) (resp resp' : HttpResponse) (success : Bool) :
      Parallel D origin r r' (.fill lead n hit resp success) (.fill lead n hit resp' success)

omit [DecidableEq ι] in
/-- At the same operation, the two requests take the same step. -/
theorem advance_same (same : SameTarget r r') (beside : Beside s s')
    (occupied : ∀ u, (s'.threads u).isNone = (s.threads u).isNone) {pc : Pc} (opened : pc.Opened)
    (other : ∀ lead, pc ≠ .fetching lead) {input : Input} (resp resp' : HttpResponse)
    {o : Outcome ι} (advanced : D.advance s t ⟨i, r, pc⟩ (input.answering resp) = some o) :
    D.advance s' t ⟨i, r', pc⟩ (input.answering resp') = some (o.readdress r') := by
  rw [advance_answering other] at advanced ⊢
  rw [advance_beside beside occupied, advance_readdress same, advanced]
  · rfl
  · rintro n rfl
    exact opened.elim

omit [DecidableEq ι] in
/-- **The two first requests take the same steps.** -/
theorem advance_parallel (same : SameTarget r r') (harmless : Harmless D origin r r')
    (beside : Beside s s') (occupied : ∀ u, (s'.threads u).isNone = (s.threads u).isNone)
    {pc pc' : Pc} (opened : pc.Opened) (parallel : Parallel D origin r r' pc pc') {input : Input}
    {o : Outcome ι}
    (advanced : D.advance s t ⟨i, r, pc⟩ (input.answering (D.answerTo origin r)) = some o) :
    ∃ o', D.advance s' t ⟨i, r', pc'⟩ (input.answering (D.answerTo origin r')) = some o' ∧
      Parallel D origin r r' o.pc o'.pc ∧ SameWrite o.write o'.write := by
  cases parallel with
  | same =>
      by_cases fetching : ∃ lead, pc = .fetching lead
      · obtain ⟨lead, rfl⟩ := fetching
        cases advanced
        exact ⟨_, rfl, .record lead, .same _⟩
      · refine ⟨_, advance_same same beside occupied opened ?_ _ _ advanced, .same _, .same _⟩
        exact fun lead here => fetching ⟨lead, here⟩
  | record lead =>
      obtain ⟨σ, θ, τ, rfl⟩ := beside
      cases lead with
      | pass =>
          cases advanced
          exact ⟨_, rfl, .same _, .same _⟩
      | _ =>
          cases advanced
          exact ⟨_, rfl, .storeTiers _, .same _⟩
  | storeTiers lead =>
      rcases harmless with alike | ⟨refused, refused'⟩
      · rw [alike]
        exact ⟨_, advance_same same beside occupied opened (by simp) _ _ advanced, .same _, .same _⟩
      · simp only [Deployment.advance, refused] at advanced
        cases advanced
        refine ⟨{ pc := .publish lead none (D.fetchedResponse
          ⟨i, r', .storeTiers lead (D.answerTo origin r')⟩ lead (D.answerTo origin r')) true },
          ?_, .publish _ _ _ _ _, .same _⟩
        simp only [Deployment.advance, refused']
  | publish lead hit resp resp' success =>
      obtain ⟨σ, θ, τ, rfl⟩ := beside
      cases found : s.inflight i (D.key r) with
      | none =>
          simp only [Deployment.advance, found] at advanced
          cases advanced
          refine ⟨{
            pc := .done
            events := conclude t ⟨i, r', .publish lead hit resp' success⟩ lead hit resp' },
            ?_, .same _, .same _⟩
          simp only [Deployment.advance, same.key, found]
      | some n =>
          simp only [Deployment.advance, found] at advanced
          cases advanced
          refine ⟨{
            pc := .fill lead n hit resp' success
            write := .withdraw
            events := [.withdrawn t i (D.key r) n] }, ?_, .fill _ _ _ _ _ _, .same _⟩
          simp only [Deployment.advance, same.key, found]
  | fill lead n hit resp resp' success =>
      cases advanced
      exact ⟨_, rfl, .same _, .fill _ _ _ _⟩

omit [DecidableEq ι] in
/-- What a thread answers is not for the others. -/
theorem answerBut_of_move {th : Thread ι} {input : Input} {o : Outcome ι}
    (move : Move D s t th input o) : o.events.filterMap (Event.answerBut? t) = [] := by
  rw [List.filterMap_eq_nil_iff]
  intro e mem
  cases e with
  | answered u j req resp hit => exact if_pos (answered_of_move move mem)
  | _ => rfl

/-- The state while the first request is handled: there is no other thread, and nothing is
cached before its lookup is over. -/
structure Alone (D : Deployment ι) (t : ℕ) (i : ι) (r : HttpRequest) (s : State ι) : Prop where
  registry : Registry D s
  others : ∀ u, u ≠ t → s.threads u = none
  opened : ∀ th, s.threads t = some th → th.pc.Opened ∧
    (th.pc.LooksUp → ∀ j k e, ¬ (s.cache j).Holds D.hash k e)

omit [DecidableEq ι] in
/-- A slot in the map has the first request as its leader. -/
theorem Alone.leads (alone : Alone D t i r s) {j : ι} {k : ByteString} {n : ℕ}
    (found : s.inflight j k = some n) : Leads D s t j k n := by
  obtain ⟨u, leads⟩ := alone.registry.leader j k n found
  obtain rfl : u = t := by
    by_contra apart
    obtain ⟨uh, running, -⟩ := leads
    rw [alone.others u apart] at running
    cases running
  exact leads

omit [DecidableEq ι] in
/-- Where the first request goes next. -/
theorem Alone.opened_of_move (alone : Alone D t i r s) {th : Thread ι} {input : Input}
    {o : Outcome ι} (running : s.threads t = some th) (move : Move D s t th input o) :
    o.pc.Opened ∧ o.child = none ∧ (o.pc.LooksUp → o.write = .none ∧ th.pc.LooksUp) := by
  obtain ⟨opened, cold⟩ := alone.opened th running
  cases move with
  | lookup here => exact ⟨trivial, rfl, fun _ => ⟨rfl, here ▸ trivial⟩⟩
  | stale here found aged serveable =>
      have held := ShardedCache.get_eq_some_iff.mp (congrArg Prod.fst found)
      exact absurd held (cold (here ▸ trivial) _ _ _)
  | triggerJoin here found =>
      rw [here] at opened
      exact opened.elim
  | triggerLead here absent unused =>
      rw [here] at opened
      exact opened.elim
  | join here found =>
      obtain ⟨th', running', -, -, leading⟩ := alone.leads found
      obtain rfl : th = th' := Option.some.inj (running.symm.trans running')
      rw [here] at leading
      cases leading
  | lead here absent =>
      change (if _ then Pc.l2Get _ else Pc.allowRequest _).Opened ∧ _ = none ∧
        ((if _ then Pc.l2Get _ else Pc.allowRequest _).LooksUp → _)
      split <;> exact ⟨trivial, rfl, fun never => never.elim⟩
  | put here =>
      change (if _ then Pc.l2Put _ _ _ else Pc.publish _ _ _ _).Opened ∧ _ = none ∧
        ((if _ then Pc.l2Put _ _ _ else Pc.publish _ _ _ _).LooksUp → _)
      split <;> exact ⟨trivial, rfl, fun never => never.elim⟩
  | wait here ready =>
      rw [here] at opened
      exact opened.elim
  | coalescedGrant here granted =>
      rw [here] at opened
      exact opened.elim
  | _ => exact ⟨trivial, rfl, fun never => never.elim⟩

/-- **The two runs are opening alike**: only the first request is under way. -/
structure Opening (D : Deployment ι) (origin : ByteString → HttpResponse) (t : ℕ) (i : ι)
    (r r' : HttpRequest) (s s' : State ι) : Prop where
  beside : Beside s s'
  alone : Alone D t i r s
  slots : ∀ n, s.nextSlot ≤ n → s'.slots n = s.slots n
  first : ∃ pc pc', s.threads t = some ⟨i, r, pc⟩ ∧ s'.threads t = some ⟨i, r', pc'⟩ ∧
    Parallel D origin r r' pc pc'
  others : ∀ u, u ≠ t → s'.threads u = none
  unanswered : s.othersGet t = [] ∧ s'.othersGet t = []

namespace Opening

omit [DecidableEq ι] in
theorem occupied (opening : Opening D origin t i r r' s s') (u : ℕ) :
    (s'.threads u).isNone = (s.threads u).isNone := by
  by_cases here : u = t
  · obtain ⟨pc, pc', running, running', -⟩ := opening.first
    rw [here, running, running']
    rfl
  · rw [opening.others u here, opening.alone.others u here]

/-- A step of the first request. -/
theorem thread (same : SameTarget r r') (harmless : Harmless D origin r r')
    (opening : Opening D origin t i r r' s s') {u : ℕ} {input : Input}
    (taken : D.stepWith origin s (.step u input) = some s₁) :
    ∃ s₁', D.stepWith origin s' (.step u input) = some s₁' ∧
      Opening D origin t i r r' s₁ s₁' := by
  obtain ⟨th, o, running, advanced, rfl⟩ := thread_of_stepWith taken
  obtain ⟨pc, pc', first, first', parallel⟩ := opening.first
  obtain rfl : u = t := by
    by_contra apart
    rw [opening.alone.others u apart] at running
    cases running
  obtain rfl : ⟨i, r, pc⟩ = th := Option.some.inj (first.symm.trans running)
  have move := move_of_advance advanced
  obtain ⟨opened, childless, quiet⟩ := opening.alone.opened_of_move running move
  obtain ⟨o', advanced', parallel', write⟩ := advance_parallel same harmless opening.beside
    opening.occupied (opening.alone.opened _ running).1 parallel advanced
  have move' := move_of_advance advanced'
  have taken' : D.step s (.step u (input.answering (D.answerTo origin r))) =
      some (s.commit (D.key r) u ⟨i, r, pc⟩ o) := by
    simp [Deployment.step, running, advanced]
  have childless' : o'.child = none := by
    cases move' with
    | triggerLead here absent unused =>
        have never := (opening.alone.opened _ running).1
        cases here
        cases parallel
        exact never.elim
    | _ => rfl
  have old : ∀ n, s.nextSlot ≤ n →
      (s'.commit (D.key r) u ⟨i, r', pc'⟩ o').slots n = (s.commit (D.key r) u ⟨i, r, pc⟩ o).slots n := by
    intro n later
    refine slots_commit opening.beside write (fun k resp success fills => Or.inl ?_) opening.slots later
    by_contra unmade
    cases move with
    | fill here =>
        cases fills
        have owner := opening.alone.registry.owner u _ k running (Or.inl (by rw [here]; rfl))
        rw [opening.alone.registry.fresh k (by omega)] at owner
        cases owner
    | _ => cases fills
  refine ⟨_, stepWith_of_thread first' advanced', ?_⟩
  rw [same.key]
  have known := registry_step taken' opening.alone.registry
  exact
    { beside := beside_commit opening.beside rfl write
      alone :=
        { registry := known
          others := fun v apart => absent_commit childless apart (opening.alone.others v apart)
          opened := fun th running' => by
            rw [threads_commit_self move running, Option.some.injEq] at running'
            subst running'
            refine ⟨opened, fun looks j k e => ?_⟩
            obtain ⟨write, before⟩ := quiet looks
            rw [commit_cache, write]
            exact (opening.alone.opened _ running).2 before j k e }
      slots := fun n later => old n (le_nextSlot_commit.trans later)
      first := ⟨o.pc, o'.pc, threads_commit_self move running, threads_commit_self move' first',
        parallel'⟩
      others := fun v apart => absent_commit childless' apart (opening.others v apart)
      unanswered := by
        have before := opening.unanswered
        simp only [State.othersGet, commit_trace, List.filterMap_append, answerBut_of_move move,
          answerBut_of_move move', List.nil_append] at before ⊢
        exact before }

/-- **While the first request is handled**, the two runs take the same steps. -/
theorem step (same : SameTarget r r') (harmless : Harmless D origin r r')
    (opening : Opening D origin t i r r' s s') {a : Action ι} (other : ∀ u j q, a ≠ .start u j q)
    (taken : D.stepWith origin s a = some s₁) :
    ∃ s₁', D.stepWith origin s' a = some s₁' ∧ Opening D origin t i r r' s₁ s₁' := by
  have environment : a.Environment → D.step s a = some s₁ →
      ∃ s₁', D.step s' a = some s₁' ∧ Opening D origin t i r r' s₁ s₁' := by
    intro outside taken
    obtain ⟨s₁', taken', beside, left, right⟩ :=
      environment_beside (t := t) outside opening.beside taken
    refine ⟨s₁', taken', beside, ⟨registry_step taken opening.alone.registry, ?_, ?_⟩, ?_, ?_, ?_, ?_⟩
    · rw [left.threads]
      exact opening.alone.others
    · rw [left.threads]
      refine fun th running => ⟨(opening.alone.opened th running).1, fun looks j k e held => ?_⟩
      rcases holds_of_step taken held with before | ⟨u, input, uh, act, -⟩
      · exact (opening.alone.opened th running).2 looks j k e before
      · rw [act] at outside
        exact outside.elim
    · rw [left.slots, right.slots, left.nextSlot]
      exact opening.slots
    · rw [left.threads, right.threads]
      exact opening.first
    · rw [right.threads]
      exact opening.others
    · rw [left.answers, right.answers]
      exact opening.unanswered
  cases a with
  | step u input => exact opening.thread same harmless taken
  | start u j q => exact absurd rfl (other u j q)
  | purgeStart p j pattern => exact environment trivial taken
  | purgeStep p => exact environment trivial taken
  | sweep j shard => exact environment trivial taken
  | tick d => exact environment trivial taken
  | l2Drop key => exact environment trivial taken

omit [DecidableEq ι] in
/-- Once the first request has been answered, its slot concerns nobody. -/
theorem alongside (opening : Opening D origin t i r r' s s')
    (returned : s.threads t = some ⟨i, r, .done⟩) : Alongside t s.nextSlot s s' := by
  have idle : ∀ u th, s.threads u = some th → th.pc = .done := by
    intro u th running
    by_cases here : u = t
    · rw [here, returned, Option.some.injEq] at running
      rw [← running]
    · rw [opening.alone.others u here] at running
      cases running
  obtain ⟨pc, pc', first, first', -⟩ := opening.first
  exact
    { beside := opening.beside
      made := le_rfl
      slots := opening.slots
      inflight := fun j k n found => by
        obtain ⟨th, running, -, -, leading⟩ := opening.alone.leads found
        rw [idle t th running] at leading
        cases leading
      waits := fun u th n running here => by
        rw [idle u th running] at here
        cases here
      ended := ⟨_, _, returned, rfl, first'⟩
      others := fun u apart => by rw [opening.others u apart, opening.alone.others u apart]
      answers := by rw [opening.unanswered.1, opening.unanswered.2] }

end Opening

/-- The two runs open. -/
theorem opening_start (same : SameTarget r r') {clock : ℕ}
    (taken : D.step (D.initial clock) (.start t i r) = some s) :
    ∃ s', D.step (D.initial clock) (.start t i r') = some s' ∧
      Opening D origin t i r r' s s' := by
  have entry : Deployment.entryPoint r' = Deployment.entryPoint r := by
    have cacheable : r'.isCacheableMethod = r.isCacheableMethod := by
      simp only [HttpRequest.isCacheableMethod, same.method]
    simp only [Deployment.entryPoint, cacheable]
  have known := registry_step taken (registry_initial clock)
  cases taken
  refine ⟨_, rfl, ⟨_, _, _, rfl⟩, ⟨known, ?_, ?_⟩, fun _ _ => rfl, ?_, ?_, rfl, rfl⟩
  · exact fun u apart => Function.update_of_ne apart ..
  · intro th running
    rcases update_eq_some running with ⟨-, rfl⟩ | ⟨apart, -⟩
    · refine ⟨?_, fun _ j k e => ShardedCache.not_holds_create⟩
      change (if _ then Pc.lookup else Pc.allowRequest _).Opened
      split <;> trivial
    · exact absurd rfl apart
  · exact ⟨_, _, Function.update_self .., Function.update_self .., entry ▸ .same _⟩
  · exact fun u apart => Function.update_of_ne apart ..

/-- **A harmless first request changes nothing for the others.** -/
theorem unpoisoned_of_harmless (D : Deployment ι) (origin : ByteString → HttpResponse)
    (same : SameTarget r r') (harmless : Harmless D origin r r') : Unpoisoned D origin r r' := by
  intro clock t i front later s₁ s₂ solo first returned after
  rw [Transition.run_cons, Option.bind_eq_some_iff] at first
  obtain ⟨s, began, first⟩ := first
  obtain ⟨s', began', opening⟩ : ∃ s', D.step (D.initial clock) (.start t i r') = some s' ∧
      Opening D origin t i r r' s s' := opening_start same began
  obtain ⟨s₁', first', opened⟩ := Transition.exists_run_of_lockstep
    (fun _ _ a _ mem opening taken => opening.step same harmless
      (fun u j q start => solo u j q (start ▸ mem)) taken) opening first
  obtain ⟨s₂', after', along⟩ := Transition.exists_run_of_lockstep
    (fun _ _ _ _ _ along taken => Alongside.step along taken) (opened.alongside returned) after
  refine ⟨s₂', ?_, along.answers⟩
  have begins : D.stepWith origin (D.initial clock) (.start t i r') = some s' := began'
  rw [List.cons_append, Transition.run_cons, begins, Option.bind_some, Transition.run_append, first']
  exact after'

/-! ## A header that poisons -/

/-- The request for the page with a header of its own. -/
def forgedRequest : HttpRequest :=
  { getRequest (bytes "/a") with
    headers := Headers.empty.insert (bytes "X-Forwarded-Host") (bytes "evil") }

/-- An origin that answers a page in which it repeats what it was sent. -/
def echo (request : ByteString) : HttpResponse :=
  { HttpResponse.default with
    headers := Headers.empty.insert (bytes "ETag") (bytes "1"), body := request }

theorem sameTarget_forgedRequest : SameTarget forgedRequest (getRequest (bytes "/a")) :=
  ⟨rfl, rfl, rfl, rfl⟩

/-- The steps of the first request, and a second one for the page. -/
def firstSteps : List (Action Unit) := steps 11 0 failInput

def secondRequest : List (Action Unit) :=
  .start 1 () (getRequest (bytes "/a")) :: steps 2 1 failInput

/-- Whether the first request has been answered. -/
def answeredForged (s : State Unit) : Bool :=
  (s.threads 0).any fun th => th.req = forgedRequest ∧ th.pc = .done

/-- **A forged header is served to everybody**: it is forwarded, the origin repeats it, and the
next client gets the page with it from the cache. -/
theorem not_unpoisoned_forgedRequest :
    SameTarget forgedRequest (getRequest (bytes "/a")) ∧
      ¬ Unpoisoned soloDeployment echo forgedRequest (getRequest (bytes "/a")) := by
  refine ⟨sameTarget_forgedRequest, fun unpoisoned => ?_⟩
  let system := soloDeployment.stepWith echo
  have passed : (Transition.run system (soloDeployment.initial 0)
      (.start 0 () forgedRequest :: firstSteps)).any (fun s₁ => answeredForged s₁ &&
        (Transition.run system s₁ secondRequest).any fun s₂ =>
          (Transition.run system (soloDeployment.initial 0)
            (.start 0 () (getRequest (bytes "/a")) :: firstSteps ++ secondRequest)).any fun s₂' =>
              s₂'.othersGet 0 ≠ s₂.othersGet 0) = true := by
    decide +kernel
  obtain ⟨s₁, first, passed⟩ := (Option.any_eq_true _ _).mp passed
  rw [Bool.and_eq_true] at passed
  obtain ⟨answered, passed⟩ := passed
  obtain ⟨th, running, named⟩ := (Option.any_eq_true _ _).mp answered
  obtain ⟨req, done⟩ := of_decide_eq_true named
  obtain ⟨s₂, after, passed⟩ := (Option.any_eq_true _ _).mp passed
  obtain ⟨s₂', ran, differ⟩ := (Option.any_eq_true _ _).mp passed
  have returned : s₁.threads 0 = some ⟨(), forgedRequest, .done⟩ := by
    rw [running, ← req, ← done]
  obtain ⟨s, ran', same⟩ := unpoisoned 0 0 () firstSteps secondRequest s₁ s₂
    (fun u j q mem => by cases List.eq_of_mem_replicate mem) first returned after
  obtain rfl : s₂' = s := Option.some.inj (ran.symm.trans ran')
  exact of_decide_eq_true differ same

/-- Where the origin takes no notice of it, the header does no harm. -/
theorem unpoisoned_forgedRequest :
    Unpoisoned soloDeployment (fun _ => echo (bytes "x")) forgedRequest
      (getRequest (bytes "/a")) :=
  unpoisoned_of_harmless soloDeployment _ sameTarget_forgedRequest (Or.inl rfl)

end EdgeCache

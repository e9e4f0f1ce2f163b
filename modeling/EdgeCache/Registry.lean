import EdgeCache.Moves

/-!
# The in-flight registry

`acquire` and `publish` look slots up by key; a slot does not know its key, and
misses and background revalidations share one map.  Nevertheless the registry is
disciplined: for every key at most one thread is the leader, it is in the map
exactly as long as it has not published, and the slot it publishes is its own.

The proof classifies the moves by what they do to the registry (`Effect`): most
of them nothing, the others one of five things.  `Registry` is the invariant, and
`registry_step` has one case per effect.
-/

namespace EdgeCache

variable {ι : Type} [DecidableEq ι]

/-! ## What a thread has to do with the registry -/

/-- The slot the thread leads: it became leader with it and has not yet executed
the removal in `publish`. -/
def Pc.leading : Pc → Option ℕ
  | .l2Get lead | .promote lead _ | .allowRequest lead | .fetch lead | .fetching lead
  | .record lead _ | .storeTiers lead _ | .put lead _ _ | .l2Put lead _ _
  | .publish lead _ _ _ => lead.slot?
  | _ => none

/-- The slot the thread leads, or has removed from the map and has yet to fill. -/
def Pc.holding : Pc → Option ℕ
  | .fill _ n _ _ _ => some n
  | pc => pc.leading

/-- The slot the thread acquired as a waiter. -/
def Pc.joined : Pc → Option ℕ
  | .wait n | .maybeStore n _ _ | .waiterPut n _ _ => some n
  | _ => none

/-- What a waiter has read from its slot. -/
def Pc.read? : Pc → Option (ℕ × HttpResponse × Bool)
  | .maybeStore n resp success => some (n, resp, success)
  | .waiterPut n resp _ => some (n, resp, true)
  | _ => none

/-- A place that the registry has nothing to do with. -/
structure Pc.Outside (pc : Pc) : Prop where
  leading : pc.leading = none
  holding : pc.holding = none
  joined : pc.joined = none
  read : pc.read? = none

/-- The thread `t` leads the slot `n` for the key `k` on the replica `i`. -/
def Leads (D : Deployment ι) (s : State ι) (t : ℕ) (i : ι) (k : ByteString) (n : ℕ) : Prop :=
  ∃ th, s.threads t = some th ∧ th.replica = i ∧ D.key th.req = k ∧ th.pc.leading = some n

/-- An event that makes the slot `n` ready. -/
def Event.fills (n : ℕ) : Event ι → Bool
  | .filled _ m _ _ => m == n
  | _ => false

/-- A leader that is not a pass-through has a slot. -/
theorem Lead.exists_slot {lead : Lead} (role : lead ≠ .pass) : ∃ n, lead.slot? = some n := by
  cases lead with
  | pass => exact absurd rfl role
  | miss n now cached => exact ⟨n, rfl⟩
  | revalidate n => exact ⟨n, rfl⟩

theorem Pc.holding_of_leading {pc : Pc} {n : ℕ} (leading : pc.leading = some n) :
    pc.holding = some n := by
  cases pc <;> simp_all [Pc.holding, Pc.leading]

/-- Whoever holds a slot runs for a cacheable method. -/
theorem Pc.Proper.cacheable_of_holding {pc : Pc} {req : HttpRequest} {n : ℕ}
    (proper : pc.Proper req) (holding : pc.holding = some n) : req.isCacheableMethod = true := by
  have role : ∀ lead : Lead, lead.slot? = some n → lead ≠ .pass := by
    rintro lead slot rfl
    cases slot
  cases pc <;> simp_all [Pc.Proper, Pc.holding, Pc.leading]

theorem Pc.leading_of_idle {pc : Pc} (idle : pc.holding = none) : pc.leading = none := by
  cases pc <;> simp_all [Pc.holding, Pc.leading]

theorem Pc.outside_done : Pc.done.Outside := ⟨rfl, rfl, rfl, rfl⟩

theorem Deployment.outside_entryPoint (req : HttpRequest) :
    (Deployment.entryPoint req).Outside := by
  unfold Deployment.entryPoint
  split <;> exact ⟨rfl, rfl, rfl, rfl⟩

/-! ## The effects of the moves on the registry -/

/-- A write that leaves the registry and the slots alone. -/
def Write.Neutral : Write → Prop
  | .none | .cache _ | .breaker _ | .l2 _ => True
  | _ => False

/-- Events that say nothing about the registry. -/
def Silent (events : List (Event ι)) : Prop :=
  (∀ u i k n, .led u i k n ∉ events) ∧ ∀ u n resp success, .filled u n resp success ∉ events

/-- **What a move does to the registry.** -/
inductive Effect (D : Deployment ι) (s : State ι) (t : ℕ) (th : Thread ι) (o : Outcome ι) : Prop
  /-- Nothing; a waiter may be through with its slot. -/
  | keep (write : o.write.Neutral) (child : o.child = none) (silent : Silent o.events)
      (leading : o.pc.leading = th.pc.leading) (holding : o.pc.holding = th.pc.holding)
      (joined : o.pc.joined = th.pc.joined ∨ o.pc.joined = none)
      (read : o.pc.read? = th.pc.read? ∨ o.pc.read? = none)
  /-- A new slot, led by this thread or by the one it starts. -/
  | enter {leader : ℕ} (absent : s.inflight th.replica (D.key th.req) = none)
      (write : o.write = .enter) (idle : th.pc.holding = none) (quiet : o.pc.joined = none)
      (unread : o.pc.read? = none)
      (events : ∀ e ∈ o.events, (∃ resp, e = .answered t th.replica th.req resp none) ∨
        e = .led leader th.replica (D.key th.req) s.nextSlot)
      (led : .led leader th.replica (D.key th.req) s.nextSlot ∈ o.events)
      (who : (leader = t ∧ o.child = none ∧ o.pc.leading = some s.nextSlot) ∨
        (s.threads leader = none ∧ o.pc.leading = none ∧ o.pc.holding = none ∧
          o.child = some (leader, .allowRequest (.revalidate s.nextSlot))))
  /-- A waiter acquires the slot of the key. -/
  | join {n : ℕ} (found : s.inflight th.replica (D.key th.req) = some n)
      (write : o.write = .none) (child : o.child = none) (silent : Silent o.events)
      (event : .joined t th.replica (D.key th.req) n ∈ o.events)
      (idle : th.pc.holding = none) (wait : o.pc = .wait n)
  /-- A waiter reads its slot. -/
  | read {n : ℕ} (ready : (s.slots n).ready = true) (write : o.write = .none)
      (child : o.child = none) (silent : Silent o.events) (wait : th.pc = .wait n)
      (copy : o.pc = .maybeStore n (s.slots n).response (s.slots n).success)
  /-- The slot of the key leaves the map. -/
  | withdraw {lead : Lead} {hit : Option ℤ} {resp : HttpResponse} {success : Bool} {n : ℕ}
      (found : s.inflight th.replica (D.key th.req) = some n)
      (write : o.write = .withdraw) (child : o.child = none) (silent : Silent o.events)
      (publish : th.pc = .publish lead hit resp success)
      (fill : o.pc = .fill lead n hit resp success)
  /-- The publisher finds no slot. -/
  | lost {lead : Lead} {hit : Option ℤ} {resp : HttpResponse} {success : Bool}
      (absent : s.inflight th.replica (D.key th.req) = none)
      (publish : th.pc = .publish lead hit resp success)
  /-- The slot becomes ready. -/
  | fill {lead : Lead} {hit : Option ℤ} {resp : HttpResponse} {success : Bool} {n : ℕ}
      (write : o.write = .fill n resp success) (child : o.child = none)
      (events : o.events = conclude t th lead hit resp ++ [.filled t n resp success])
      (here : th.pc = .fill lead n hit resp success) (done : o.pc = .done)

variable {D : Deployment ι} {s s' : State ι} {t : ℕ} {th : Thread ι} {input : Input}
  {o : Outcome ι}

omit [DecidableEq ι] in
theorem silent_nil : Silent ([] : List (Event ι)) := by simp [Silent]

omit [DecidableEq ι] in
/-- An answer concerns nobody but the client. -/
theorem silent_conclude (t : ℕ) (th : Thread ι) (lead : Lead) (hit : Option ℤ)
    (resp : HttpResponse) : Silent (conclude t th lead hit resp) := by
  cases lead <;> simp [Silent, conclude]

section Projections

omit [DecidableEq ι]

@[simp] theorem leading_afterPut (lead : Lead) (resp : HttpResponse) (entry : CacheEntry) :
    (D.afterPut th lead resp entry).leading = lead.slot? := by
  unfold Deployment.afterPut
  split <;> rfl

@[simp] theorem holding_afterPut (lead : Lead) (resp : HttpResponse) (entry : CacheEntry) :
    (D.afterPut th lead resp entry).holding = lead.slot? := by
  unfold Deployment.afterPut
  split <;> rfl

@[simp] theorem joined_afterPut (lead : Lead) (resp : HttpResponse) (entry : CacheEntry) :
    (D.afterPut th lead resp entry).joined = none := by
  unfold Deployment.afterPut
  split <;> rfl

@[simp] theorem read?_afterPut (lead : Lead) (resp : HttpResponse) (entry : CacheEntry) :
    (D.afterPut th lead resp entry).read? = none := by
  unfold Deployment.afterPut
  split <;> rfl

/-- Where a fetch fails, the thread is in the role it fetches in, and no waiter. -/
theorem Failed.projections {lead : Lead} {rejected : Bool} {b : CircuitBreaker}
    (failed : Failed D s th lead rejected b) :
    th.pc.leading = lead.slot? ∧ th.pc.holding = lead.slot? ∧ th.pc.joined = none ∧
      th.pc.read? = none := by
  cases failed with
  | rejected here _ => rw [here]; exact ⟨rfl, rfl, rfl, rfl⟩
  | failed here _ => rw [here]; exact ⟨rfl, rfl, rfl, rfl⟩

end Projections

omit [DecidableEq ι] in
/-- **Every move has one of the effects.** -/
theorem effect_of_move (move : Move D s t th input o) : Effect D s t th o := by
  cases move with
  | triggerLead here absent unused =>
      refine .enter absent rfl (by simp [here, Pc.holding, Pc.leading])
        rfl rfl ?_ ?_ (Or.inr ⟨unused, rfl, rfl, rfl⟩) <;> simp
  | lead here absent =>
      refine .enter absent rfl (by simp [here, Pc.holding, Pc.leading])
        ?_ ?_ (by simp) (by simp) (Or.inl ⟨rfl, rfl, ?_⟩)
      all_goals dsimp only; split <;> rfl
  | join here found =>
      exact .join found rfl rfl (by simp [Silent]) List.mem_cons_self
        (by simp [here, Pc.holding, Pc.leading]) rfl
  | wait here ready => exact .read ready rfl rfl silent_nil here rfl
  | withdraw here found => exact .withdraw found rfl rfl (by simp [Silent]) here rfl
  | lost here absent => exact .lost absent here
  | fill here => exact .fill rfl rfl rfl here rfl
  | put here =>
      refine .keep trivial rfl silent_nil ((leading_afterPut ..).trans ?_)
        ((holding_afterPut ..).trans ?_) (Or.inr (joined_afterPut ..)) (Or.inr (read?_afterPut ..))
      · rw [here]; rfl
      · rw [here]; rfl
  | passFailure failed =>
      obtain ⟨leading, holding, joined, read⟩ := failed.projections
      refine .keep trivial rfl (by simp [Silent]) ?_ ?_ (Or.inr rfl) (Or.inr rfl)
      · rw [leading]; rfl
      · rw [holding]; rfl
  | leadFailure role failed =>
      obtain ⟨leading, holding, joined, read⟩ := failed.projections
      refine .keep trivial rfl silent_nil ?_ ?_ (Or.inr rfl) (Or.inr rfl)
      · rw [leading]; rfl
      · rw [holding]; rfl
  | passSuccess here ok =>
      refine .keep trivial rfl (by simp [Silent]) ?_ ?_ (Or.inr rfl) (Or.inr rfl)
      · rw [here]; rfl
      · rw [here]; rfl
  | _ =>
      refine .keep ?_ ?_ ?_ ?_ ?_ ?_ ?_ <;>
        simp_all [Write.Neutral, Silent, Pc.leading, Pc.holding, Pc.joined, Pc.read?]

/-! ## The invariant -/

/-- **The registry invariant.** -/
structure Registry (D : Deployment ι) (s : State ι) : Prop where
  proper : AllProper s
  /-- The slot a thread leads is in the map under its key. -/
  inflight : ∀ t th n, s.threads t = some th → th.pc.leading = some n →
    s.inflight th.replica (D.key th.req) = some n
  /-- A slot in the map has a leader. -/
  leader : ∀ i k n, s.inflight i k = some n → ∃ t, Leads D s t i k n
  /-- A slot is held by one thread at most. -/
  holder : ∀ t u th uh n, s.threads t = some th → s.threads u = some uh →
    th.pc.holding = some n → uh.pc.holding = some n → t = u
  /-- A slot belongs to the key of the threads that hold it or wait on it. -/
  owner : ∀ t th n, s.threads t = some th → th.pc.holding = some n ∨ th.pc.joined = some n →
    s.owner n = some (th.replica, D.key th.req)
  /-- Whoever waits on a slot or has read it acquired it for its key. -/
  joined : ∀ t th n, s.threads t = some th → th.pc.joined = some n →
    .joined t th.replica (D.key th.req) n ∈ s.trace
  /-- Slots are numbered in the order they are made. -/
  fresh : ∀ n, s.nextSlot ≤ n → s.owner n = none
  /-- A slot that is held is not ready. -/
  unready : ∀ t th n, s.threads t = some th → th.pc.holding = some n →
    (s.slots n).ready = false
  /-- Whoever holds a slot became leader with it. -/
  led : ∀ t th n, s.threads t = some th → th.pc.holding = some n →
    .led t th.replica (D.key th.req) n ∈ s.trace
  /-- A slot belongs to the key it was made for. -/
  ledOwner : ∀ t i k n, .led t i k n ∈ s.trace → s.owner n = some (i, k)
  /-- A slot has one leader. -/
  ledOnce : ∀ t u i j k l n, .led t i k n ∈ s.trace → .led u j l n ∈ s.trace → t = u
  /-- A leader holds its slot until the slot is ready. -/
  finished : ∀ t i k n, .led t i k n ∈ s.trace →
    ∃ th, s.threads t = some th ∧ (th.pc.holding = some n ∨ (s.slots n).ready = true)
  /-- A slot becomes ready once. -/
  filledOnce : ∀ n, s.trace.countP (Event.fills n) = if (s.slots n).ready then 1 else 0
  /-- A slot holds what its own leader published. -/
  filled : ∀ t n resp success, .filled t n resp success ∈ s.trace →
    s.slots n = ⟨true, success, resp⟩ ∧ ∃ i k, .led t i k n ∈ s.trace
  /-- A waiter has read what was published. -/
  read : ∀ t th n resp success, s.threads t = some th →
    th.pc.read? = some (n, resp, success) → ∃ u, .filled u n resp success ∈ s.trace

omit [DecidableEq ι] in
/-- Nothing is in flight at the start. -/
theorem registry_initial (clock : ℕ) : Registry D (D.initial clock) where
  proper t th running := by cases running
  inflight t th n running := by cases running
  leader i k n found := by cases found
  holder t u th uh n running := by cases running
  owner t th n running := by cases running
  joined t th n running := by cases running
  fresh n _ := rfl
  unready t th n running := by cases running
  led t th n running := by cases running
  ledOwner t i k n mem := by cases mem
  ledOnce t u i j k l n mem := by cases mem
  finished t i k n mem := by cases mem
  filledOnce n := rfl
  filled t n resp success mem := by cases mem
  read t th n resp success running := by cases running

/-! ## The invariant is kept -/

omit [DecidableEq ι] in
theorem countP_fills_of_silent {events : List (Event ι)} (silent : Silent events) (n : ℕ) :
    events.countP (Event.fills n) = 0 := by
  refine List.countP_eq_zero.mpr fun e mem => ?_
  cases e with
  | filled u m resp success => exact absurd mem (silent.2 u m resp success)
  | _ => simp [Event.fills]

/-- The same thread in the eyes of the registry. -/
structure Alike (th th' : Thread ι) : Prop where
  replica : th'.replica = th.replica
  req : th'.req = th.req
  holding : th'.pc.holding = th.pc.holding

omit [DecidableEq ι] in
theorem Alike.refl (th : Thread ι) : Alike th th := ⟨rfl, rfl, rfl⟩

omit [DecidableEq ι] in
/-- **A step that makes no slot and fills none keeps the invariant**, if the map
still names the slots of the leaders, the waiters wait on slots of their key, and
they have read what was published. -/
theorem Registry.keep (registry : Registry D s) (events : List (Event ι))
    (proper : AllProper s') (slots : s'.slots = s.slots) (owner : s'.owner = s.owner)
    (nextSlot : s'.nextSlot = s.nextSlot) (trace : s'.trace = events ++ s.trace)
    (silent : Silent events)
    (back : ∀ t th', s'.threads t = some th' →
      th'.pc.holding = none ∨ ∃ th, s.threads t = some th ∧ Alike th th')
    (forth : ∀ t th, s.threads t = some th → ∃ th', s'.threads t = some th' ∧ Alike th th')
    (inflight : ∀ t th n, s'.threads t = some th → th.pc.leading = some n →
      s'.inflight th.replica (D.key th.req) = some n)
    (leader : ∀ i k n, s'.inflight i k = some n → ∃ t, Leads D s' t i k n)
    (waits : ∀ t th' n, s'.threads t = some th' → th'.pc.joined = some n →
      s.owner n = some (th'.replica, D.key th'.req) ∧
        .joined t th'.replica (D.key th'.req) n ∈ s'.trace)
    (reads : ∀ t th' n resp success, s'.threads t = some th' →
      th'.pc.read? = some (n, resp, success) → ∃ u, .filled u n resp success ∈ s.trace) :
    Registry D s' := by
  have held : ∀ t th' n, s'.threads t = some th' → th'.pc.holding = some n →
      ∃ th, s.threads t = some th ∧ Alike th th' ∧ th.pc.holding = some n := by
    intro t th' n running holding
    rcases back t th' running with idle | ⟨th, old, alike⟩
    · rw [idle] at holding
      cases holding
    · exact ⟨th, old, alike, alike.holding ▸ holding⟩
  have led : ∀ {t i k n}, .led t i k n ∈ s'.trace → .led t i k n ∈ s.trace := by
    intro t i k n mem
    rw [trace, List.mem_append] at mem
    exact mem.resolve_left (silent.1 t i k n)
  have old : ∀ {e}, e ∈ s.trace → e ∈ s'.trace := fun mem => by
    rw [trace]
    exact List.mem_append_right _ mem
  constructor
  case proper => exact proper
  case inflight => exact inflight
  case leader => exact leader
  case holder =>
    intro t u th uh n running running' holding holding'
    obtain ⟨th₀, before, -, holding⟩ := held t th n running holding
    obtain ⟨uh₀, before', -, holding'⟩ := held u uh n running' holding'
    exact registry.holder t u th₀ uh₀ n before before' holding holding'
  case owner =>
    intro t th' n running mine
    rw [owner]
    rcases mine with holding | joined
    · obtain ⟨th, before, alike, holding⟩ := held t th' n running holding
      rw [alike.replica, alike.req]
      exact registry.owner t th n before (Or.inl holding)
    · exact (waits t th' n running joined).1
  case joined =>
    intro t th' n running joined
    exact (waits t th' n running joined).2
  case fresh =>
    intro n
    rw [nextSlot, owner]
    exact registry.fresh n
  case unready =>
    intro t th' n running holding
    obtain ⟨th, before, -, holding⟩ := held t th' n running holding
    rw [slots]
    exact registry.unready t th n before holding
  case led =>
    intro t th' n running holding
    obtain ⟨th, before, alike, holding⟩ := held t th' n running holding
    rw [alike.replica, alike.req]
    exact old (registry.led t th n before holding)
  case ledOwner =>
    intro t i k n mem
    rw [owner]
    exact registry.ledOwner t i k n (led mem)
  case ledOnce =>
    intro t u i j k l n mem mem'
    exact registry.ledOnce t u i j k l n (led mem) (led mem')
  -- A leader that was done is done, for its slot is what it was.
  case finished =>
    intro t i k n mem
    obtain ⟨th, before, holds⟩ := registry.finished t i k n (led mem)
    obtain ⟨th', running, alike⟩ := forth t th before
    exact ⟨th', running, by rwa [alike.holding, slots]⟩
  case filledOnce =>
    intro n
    rw [trace, List.countP_append, countP_fills_of_silent silent, Nat.zero_add, slots]
    exact registry.filledOnce n
  case filled =>
    intro t n resp success mem
    rw [trace, List.mem_append] at mem
    obtain ⟨slot, i, k, leader⟩ := registry.filled t n resp success
      (mem.resolve_left (silent.2 t n resp success))
    exact ⟨by rw [slots, slot], i, k, old leader⟩
  case read =>
    intro t th' n resp success running read
    obtain ⟨u, mem⟩ := reads t th' n resp success running read
    exact ⟨u, old mem⟩

/-- A neutral write leaves the map and the slots alone. -/
theorem apply_neutral {i : ι} {k : ByteString} {w : Write} (neutral : w.Neutral) :
    (s.apply i k w).inflight = s.inflight ∧ (s.apply i k w).slots = s.slots ∧
      (s.apply i k w).owner = s.owner ∧ (s.apply i k w).nextSlot = s.nextSlot := by
  cases w <;> first | exact ⟨rfl, rfl, rfl, rfl⟩ | exact neutral.elim

/-- A childless step of a thread that holds what it held leaves every thread alike. -/
theorem alike_commit (move : Move D s t th input o) (running : s.threads t = some th)
    (holding : o.pc.holding = th.pc.holding) {u : ℕ} {uh : Thread ι}
    (before : s.threads u = some uh) :
    ∃ uh', (s.commit (D.key th.req) t th o).threads u = some uh' ∧ Alike uh uh' := by
  by_cases here : u = t
  · subst here
    rw [running, Option.some.injEq] at before
    subst before
    exact ⟨_, threads_commit_self move running, rfl, rfl, holding⟩
  · exact ⟨uh, threads_commit_of_ne move before here, .refl uh⟩

/-- And every thread was alike before it. -/
theorem alike_of_commit (child : o.child = none) (running : s.threads t = some th)
    (holding : o.pc.holding = th.pc.holding) {u : ℕ} {uh' : Thread ι}
    (found : (s.commit (D.key th.req) t th o).threads u = some uh') :
    ∃ uh, s.threads u = some uh ∧ Alike uh uh' := by
  rcases threads_commit_of_childless child found with ⟨rfl, rfl⟩ | ⟨-, before⟩
  · exact ⟨th, running, rfl, rfl, holding⟩
  · exact ⟨uh', before, .refl uh'⟩

/-- The steps of a thread that leave the map and the slots alone. -/
theorem Registry.commit (registry : Registry D s) (move : Move D s t th input o)
    (running : s.threads t = some th) (write : o.write.Neutral) (child : o.child = none)
    (silent : Silent o.events) (leading : o.pc.leading = th.pc.leading)
    (holding : o.pc.holding = th.pc.holding)
    (waits : ∀ n, o.pc.joined = some n → s.owner n = some (th.replica, D.key th.req) ∧
      .joined t th.replica (D.key th.req) n ∈ o.events ++ s.trace)
    (reads : ∀ n resp success, o.pc.read? = some (n, resp, success) →
      ∃ u, .filled u n resp success ∈ s.trace) :
    Registry D (s.commit (D.key th.req) t th o) := by
  have others : ∀ {u uh}, (s.commit (D.key th.req) t th o).threads u = some uh →
      (u = t ∧ uh = { th with pc := o.pc }) ∨ s.threads u = some uh := fun found =>
    (threads_commit_of_childless child found).imp_right And.right
  obtain ⟨inflight, slots, owner, nextSlot⟩ :=
    apply_neutral (s := s) (i := th.replica) (k := D.key th.req) write
  refine registry.keep _ (allProper_commit registry.proper running move) slots owner nextSlot
    (commit_trace ..) silent (fun u uh found => Or.inr (alike_of_commit child running holding found))
    (fun u uh before => alike_commit move running holding before) ?_ ?_ ?_ ?_
  · intro u uh n found mine
    rw [commit_inflight, inflight]
    rcases others found with ⟨rfl, rfl⟩ | old
    · exact registry.inflight u th n running (leading ▸ mine)
    · exact registry.inflight u uh n old mine
  · intro i k n found
    rw [commit_inflight, inflight] at found
    obtain ⟨u, uh, before, replica, key, mine⟩ := registry.leader i k n found
    by_cases here : u = t
    · subst here
      rw [running, Option.some.injEq] at before
      subst before
      exact ⟨u, _, threads_commit_self move running, replica, key, leading.trans mine⟩
    · exact ⟨u, uh, threads_commit_of_ne move before here, replica, key, mine⟩
  · intro u uh n found joined
    rcases others found with ⟨rfl, rfl⟩ | old
    · exact waits n joined
    · exact ⟨registry.owner u uh n old (Or.inr joined),
        List.mem_append_right _ (registry.joined u uh n old joined)⟩
  · intro u uh n resp success found read
    rcases others found with ⟨-, rfl⟩ | old
    · exact reads n resp success read
    · exact registry.read u uh n resp success old read

/-- Setting one entry of a map with two indices. -/
theorem update₂_apply {f : ι → ByteString → Option ℕ} {i j : ι} {k l : ByteString}
    {v : Option ℕ} :
    Function.update f i (Function.update (f i) k v) j l = if j = i ∧ l = k then v else f j l := by
  by_cases here : j = i
  · subst here
    rw [Function.update_self, Function.update_apply]
    by_cases same : l = k <;> simp [same]
  · rw [Function.update_of_ne here, if_neg fun both => here both.1]

/-- A thread of the same request that leads a slot. -/
structure LeadsFor (th : Thread ι) (n : ℕ) (uh : Thread ι) : Prop where
  replica : uh.replica = th.replica
  req : uh.req = th.req
  leading : uh.pc.leading = some n
  joined : uh.pc.joined = none
  read : uh.pc.read? = none

/-- **What a new slot leaves**: the map names it, its leader runs, and the rest is as before. -/
structure Entered (D : Deployment ι) (s s' : State ι) (th : Thread ι) (leader : ℕ) : Prop where
  proper : AllProper s'
  absent : s.inflight th.replica (D.key th.req) = none
  inflight : ∀ j l, s'.inflight j l =
    if j = th.replica ∧ l = D.key th.req then some s.nextSlot else s.inflight j l
  slots : s'.slots = Function.update s.slots s.nextSlot InFlight.initial
  owner : s'.owner = Function.update s.owner s.nextSlot (some (th.replica, D.key th.req))
  nextSlot : s'.nextSlot = s.nextSlot + 1
  leads : Leads D s' leader th.replica (D.key th.req) s.nextSlot
  /-- Only the leader is in the registry in a way it was not before. -/
  threads : ∀ u uh, s'.threads u = some uh →
    (u = leader ∧ LeadsFor th s.nextSlot uh) ∨ uh.pc.Outside ∨ s.threads u = some uh
  /-- Whoever holds a slot goes on holding it. -/
  stays : ∀ u uh n, s.threads u = some uh → uh.pc.holding = some n → s'.threads u = some uh
  running : ∀ u uh, s.threads u = some uh → ∃ uh', s'.threads u = some uh'
  led : ∀ u j l n, .led u j l n ∈ s'.trace ↔
    (u = leader ∧ j = th.replica ∧ l = D.key th.req ∧ n = s.nextSlot) ∨ .led u j l n ∈ s.trace
  filled : ∀ u n resp success, .filled u n resp success ∈ s'.trace →
    .filled u n resp success ∈ s.trace
  fills : ∀ n, s'.trace.countP (Event.fills n) = s.trace.countP (Event.fills n)
  grows : ∀ e ∈ s.trace, e ∈ s'.trace

theorem entered_commit (registry : Registry D s) (move : Move D s t th input o) {leader : ℕ}
    (running : s.threads t = some th) (absent : s.inflight th.replica (D.key th.req) = none)
    (write : o.write = .enter) (idle : th.pc.holding = none) (quiet : o.pc.joined = none)
    (unread : o.pc.read? = none)
    (events : ∀ e ∈ o.events, (∃ resp, e = .answered t th.replica th.req resp none) ∨
      e = .led leader th.replica (D.key th.req) s.nextSlot)
    (led : .led leader th.replica (D.key th.req) s.nextSlot ∈ o.events)
    (who : (leader = t ∧ o.child = none ∧ o.pc.leading = some s.nextSlot) ∨
      (s.threads leader = none ∧ o.pc.leading = none ∧ o.pc.holding = none ∧
        o.child = some (leader, .allowRequest (.revalidate s.nextSlot)))) :
    Entered D s (s.commit (D.key th.req) t th o) th leader := by
  constructor
  case proper => exact allProper_commit registry.proper running move
  case absent => exact absent
  case inflight =>
    intro j l
    rw [commit_inflight, write]
    exact update₂_apply
  case slots => rw [commit_slots, write]; rfl
  case owner => rw [commit_owner, write]; rfl
  case nextSlot => rw [commit_nextSlot, write]; rfl
  case leads =>
    rcases who with ⟨rfl, -, leading⟩ | ⟨unused, -, -, child⟩
    · exact ⟨_, threads_commit_self move running, rfl, rfl, leading⟩
    · refine ⟨{ th with pc := .allowRequest (.revalidate s.nextSlot) }, ?_, rfl, rfl, rfl⟩
      change State.spawn _ th o.child leader = _
      rw [child]
      exact Function.update_self ..
  -- The leader is the thread itself or, for a revalidation, the one it starts.
  case threads =>
    intro u uh found
    rcases threads_commit found with ⟨rfl, rfl⟩ | ⟨pc, born, rfl⟩ | ⟨-, before⟩
    · rcases who with ⟨rfl, -, leading⟩ | ⟨-, leading, holding, -⟩
      · exact Or.inl ⟨rfl, rfl, rfl, leading, quiet, unread⟩
      · exact Or.inr (Or.inl ⟨leading, holding, quiet, unread⟩)
    · rcases who with ⟨-, none, -⟩ | ⟨-, -, -, child⟩
      · rw [none] at born
        cases born
      · rw [child] at born
        obtain ⟨rfl, rfl⟩ := Prod.mk.inj (Option.some.inj born)
        exact Or.inl ⟨rfl, rfl, rfl, rfl, rfl, rfl⟩
    · exact Or.inr (Or.inr before)
  case stays =>
    intro u uh n before holding
    refine threads_commit_of_ne move before ?_
    rintro rfl
    rw [running, Option.some.injEq] at before
    rw [← before, idle] at holding
    cases holding
  case running =>
    intro u uh before
    obtain ⟨pc, found⟩ := (persists_commit move running).2.2 u uh before
    exact ⟨_, found⟩
  case led =>
    intro u j l n
    rw [commit_trace, List.mem_append]
    refine or_congr_left ⟨fun new => ?_, ?_⟩
    · rcases events _ new with ⟨resp, answer⟩ | same
      · cases answer
      · simpa using same
    · rintro ⟨rfl, rfl, rfl, rfl⟩
      exact led
  case filled =>
    intro u n resp success mem
    rw [commit_trace, List.mem_append] at mem
    refine mem.resolve_left fun new => ?_
    rcases events _ new with ⟨resp, answer⟩ | same
    · cases answer
    · cases same
  case fills =>
    intro n
    have none : o.events.countP (Event.fills n) = 0 := by
      refine List.countP_eq_zero.mpr fun e mem => ?_
      rcases events e mem with ⟨resp, rfl⟩ | rfl <;> simp [Event.fills]
    rw [commit_trace, List.countP_append, none, Nat.zero_add]
  case grows => exact fun e mem => List.mem_append_right _ mem

omit [DecidableEq ι] in
/-- A slot that belongs to a key is not the next one. -/
theorem Registry.ne_nextSlot (registry : Registry D s) {n : ℕ} {x : ι × ByteString}
    (owned : s.owner n = some x) : n ≠ s.nextSlot := by
  rintro rfl
  rw [registry.fresh _ le_rfl] at owned
  cases owned

omit [DecidableEq ι] in
/-- A slot that has been filled belongs to a key. -/
theorem Registry.owner_of_filled (registry : Registry D s) {u n : ℕ} {resp : HttpResponse}
    {success : Bool} (filled : .filled u n resp success ∈ s.trace) :
    ∃ x, s.owner n = some x := by
  obtain ⟨-, i, k, led⟩ := registry.filled u n resp success filled
  exact ⟨(i, k), registry.ledOwner u i k n led⟩

/-- **A new slot** keeps the invariant. -/
theorem Registry.enter {leader : ℕ} (registry : Registry D s)
    (entered : Entered D s s' th leader) : Registry D s' where
  proper := entered.proper
  -- The map named no slot under this key, so no older entry is overwritten.
  inflight u uh n found leading := by
    rw [entered.inflight]
    rcases entered.threads u uh found with ⟨-, new⟩ | outside | before
    · rw [if_pos ⟨new.replica, by rw [new.req]⟩, ← new.leading, leading]
    · cases outside.leading.symm.trans leading
    · have held := registry.inflight u uh n before leading
      rw [if_neg, held]
      rintro ⟨replica, key⟩
      rw [replica, key, entered.absent] at held
      cases held
  leader j l n found := by
    rw [entered.inflight] at found
    split at found
    · rename_i here
      obtain rfl := Option.some.inj found
      obtain ⟨rfl, rfl⟩ := here
      exact ⟨leader, entered.leads⟩
    · obtain ⟨u, uh, before, replica, key, leading⟩ := registry.leader j l n found
      have stays := entered.stays u uh n before (Pc.holding_of_leading leading)
      exact ⟨u, uh, stays, replica, key, leading⟩
  holder u v uh vh n found found' holding holding' := by
    -- Two holders are both the leader, or both were there; the old ones do not hold the new slot.
    have apart {w : ℕ} {wh : Thread ι} (before : s.threads w = some wh)
        (holds : wh.pc.holding = some n) : n ≠ s.nextSlot :=
      registry.ne_nextSlot (registry.owner w wh n before (Or.inl holds))
    have new {wh : Thread ι} (leads : LeadsFor th s.nextSlot wh)
        (holds : wh.pc.holding = some n) : n = s.nextSlot :=
      Option.some.inj (holds.symm.trans (Pc.holding_of_leading leads.leading))
    rcases entered.threads u uh found with ⟨rfl, leads⟩ | outside | before
    · rcases entered.threads v vh found' with ⟨rfl, -⟩ | outside | before'
      · rfl
      · cases outside.holding.symm.trans holding'
      · exact absurd (new leads holding) (apart before' holding')
    · cases outside.holding.symm.trans holding
    · rcases entered.threads v vh found' with ⟨rfl, leads⟩ | outside | before'
      · exact absurd (new leads holding') (apart before holding)
      · cases outside.holding.symm.trans holding'
      · exact registry.holder u v uh vh n before before' holding holding'
  owner u uh n found mine := by
    rw [entered.owner]
    rcases entered.threads u uh found with ⟨-, new⟩ | outside | before
    · rw [Pc.holding_of_leading new.leading, new.joined] at mine
      obtain rfl : s.nextSlot = n := by simpa using mine
      rw [Function.update_self, new.replica, new.req]
    · rw [outside.holding, outside.joined] at mine
      simp at mine
    · have owned := registry.owner u uh n before mine
      rw [Function.update_of_ne (registry.ne_nextSlot owned), owned]
  joined u uh n found joined := by
    rcases entered.threads u uh found with ⟨-, new⟩ | outside | before
    · cases new.joined.symm.trans joined
    · cases outside.joined.symm.trans joined
    · exact entered.grows _ (registry.joined u uh n before joined)
  fresh n later := by
    rw [entered.nextSlot] at later
    rw [entered.owner, Function.update_of_ne (by omega)]
    exact registry.fresh n (by omega)
  unready u uh n found holding := by
    rw [entered.slots]
    rcases entered.threads u uh found with ⟨-, new⟩ | outside | before
    · rw [Pc.holding_of_leading new.leading, Option.some.injEq] at holding
      rw [holding, Function.update_self]
      rfl
    · cases outside.holding.symm.trans holding
    · have owned := registry.owner u uh n before (Or.inl holding)
      rw [Function.update_of_ne (registry.ne_nextSlot owned)]
      exact registry.unready u uh n before holding
  led u uh n found holding := by
    rcases entered.threads u uh found with ⟨rfl, new⟩ | outside | before
    · rw [Pc.holding_of_leading new.leading, Option.some.injEq] at holding
      rw [new.replica, new.req]
      exact (entered.led ..).mpr (Or.inl ⟨rfl, rfl, rfl, holding.symm⟩)
    · cases outside.holding.symm.trans holding
    · exact entered.grows _ (registry.led u uh n before holding)
  ledOwner u j l n mem := by
    rw [entered.owner]
    rcases (entered.led u j l n).mp mem with ⟨-, rfl, rfl, rfl⟩ | before
    · exact Function.update_self ..
    · have owned := registry.ledOwner u j l n before
      rw [Function.update_of_ne (registry.ne_nextSlot owned), owned]
  ledOnce u v j j' l l' n mem mem' := by
    rcases (entered.led u j l n).mp mem with ⟨rfl, -, -, rfl⟩ | before
    · rcases (entered.led v j' l' _).mp mem' with ⟨rfl, -⟩ | before'
      · rfl
      · exact absurd rfl (registry.ne_nextSlot (registry.ledOwner v j' l' _ before'))
    · rcases (entered.led v j' l' n).mp mem' with ⟨rfl, -, -, rfl⟩ | before'
      · exact absurd rfl (registry.ne_nextSlot (registry.ledOwner u j l _ before))
      · exact registry.ledOnce u v j j' l l' n before before'
  finished u j l n mem := by
    rcases (entered.led u j l n).mp mem with ⟨rfl, -, -, rfl⟩ | before
    · obtain ⟨uh, found, -, -, leading⟩ := entered.leads
      exact ⟨uh, found, Or.inl (Pc.holding_of_leading leading)⟩
    · obtain ⟨uh, running, holds⟩ := registry.finished u j l n before
      rw [entered.slots,
        Function.update_of_ne (registry.ne_nextSlot (registry.ledOwner u j l n before))]
      rcases holds with holding | ready
      · exact ⟨uh, entered.stays u uh n running holding, Or.inl holding⟩
      · obtain ⟨uh', found⟩ := entered.running u uh running
        exact ⟨uh', found, Or.inr ready⟩
  -- The new slot takes a number that no event can name yet.
  filledOnce n := by
    rw [entered.fills, entered.slots]
    by_cases here : n = s.nextSlot
    · subst here
      rw [Function.update_self]
      refine List.countP_eq_zero.mpr fun e mem fills => ?_
      cases e with
      | filled u m resp success =>
          obtain rfl : m = s.nextSlot := by simpa [Event.fills] using fills
          obtain ⟨x, owned⟩ := registry.owner_of_filled mem
          exact registry.ne_nextSlot owned rfl
      | _ => simp [Event.fills] at fills
    · rw [Function.update_of_ne here]
      exact registry.filledOnce n
  filled u n resp success mem := by
    have before := entered.filled u n resp success mem
    obtain ⟨slot, j, l, leads⟩ := registry.filled u n resp success before
    obtain ⟨x, owned⟩ := registry.owner_of_filled before
    rw [entered.slots, Function.update_of_ne (registry.ne_nextSlot owned)]
    exact ⟨slot, j, l, entered.grows _ leads⟩
  read u uh n resp success found read := by
    rcases entered.threads u uh found with ⟨-, new⟩ | outside | before
    · cases new.read.symm.trans read
    · cases outside.read.symm.trans read
    · obtain ⟨v, mem⟩ := registry.read u uh n resp success before read
      exact ⟨v, entered.grows _ mem⟩

/-- **Removing a slot from the map** keeps the invariant. -/
theorem Registry.withdraw (registry : Registry D s) (move : Move D s t th input o) {lead : Lead}
    {hit : Option ℤ} {resp : HttpResponse} {success : Bool} {n : ℕ}
    (running : s.threads t = some th) (found : s.inflight th.replica (D.key th.req) = some n)
    (write : o.write = .withdraw) (child : o.child = none) (silent : Silent o.events)
    (publish : th.pc = .publish lead hit resp success)
    (fill : o.pc = .fill lead n hit resp success) :
    Registry D (s.commit (D.key th.req) t th o) := by
  set s' := s.commit (D.key th.req) t th o with after
  have inflight : ∀ j l, s'.inflight j l =
      if j = th.replica ∧ l = D.key th.req then none else s.inflight j l := by
    intro j l
    rw [after, commit_inflight, write]
    exact update₂_apply
  have slots : s'.slots = s.slots := by rw [after, commit_slots, write]; rfl
  have owner : s'.owner = s.owner := by rw [after, commit_owner, write]; rfl
  have nextSlot : s'.nextSlot = s.nextSlot := by rw [after, commit_nextSlot, write]; rfl
  -- the slot in the map is the publisher's own
  have own : th.pc.leading = some n := by
    have role := registry.proper t th running
    rw [publish] at role
    obtain ⟨m, slot⟩ := Lead.exists_slot role.1
    have leading : th.pc.leading = some m := by rw [publish]; exact slot
    have mine := registry.inflight t th m running leading
    rw [found] at mine
    rw [leading, mine]
  have holding : o.pc.holding = th.pc.holding := by
    rw [fill, Pc.holding_of_leading own]
    rfl
  have idle : o.pc.leading = none ∧ o.pc.joined = none ∧ o.pc.read? = none := by
    rw [fill]
    exact ⟨rfl, rfl, rfl⟩
  have others := fun {u uh} => @threads_commit_of_childless ι _ s t th o (D.key th.req) u uh child
  refine registry.keep _ (allProper_commit registry.proper running move) slots owner nextSlot
    (commit_trace ..) silent (fun u uh found => Or.inr (alike_of_commit child running holding found))
    (fun u uh before => alike_commit move running holding before) ?_ ?_ ?_ ?_
  · intro u uh m after leading
    rcases others after with ⟨-, rfl⟩ | ⟨apart, before⟩
    · rw [idle.1] at leading
      cases leading
    · have mine := registry.inflight u uh m before leading
      rw [inflight, if_neg, mine]
      rintro ⟨replica, key⟩
      rw [replica, key, found, Option.some.injEq] at mine
      exact apart (registry.holder u t uh th n before running
        (Pc.holding_of_leading (mine ▸ leading)) (Pc.holding_of_leading own))
  · intro j l m present
    rw [inflight] at present
    split at present
    · cases present
    · rename_i elsewhere
      obtain ⟨u, uh, before, replica, key, leading⟩ := registry.leader j l m present
      refine ⟨u, uh, threads_commit_of_ne move before ?_, replica, key, leading⟩
      rintro rfl
      rw [running, Option.some.injEq] at before
      subst before
      exact elsewhere ⟨replica.symm, key.symm⟩
  · intro u uh m after joined
    rcases others after with ⟨-, rfl⟩ | ⟨-, before⟩
    · rw [idle.2.1] at joined
      cases joined
    · exact ⟨registry.owner u uh m before (Or.inr joined),
        List.mem_append_right _ (registry.joined u uh m before joined)⟩
  · intro u uh m resp' success' after read
    rcases others after with ⟨-, rfl⟩ | ⟨-, before⟩
    · rw [idle.2.2] at read
      cases read
    · exact registry.read u uh m resp' success' before read

/-- **What filling a slot leaves**: it is ready, and the thread that filled it lets go of it. -/
structure Filled (D : Deployment ι) (s s' : State ι) (t n : ℕ) (slot : InFlight) : Prop where
  proper : AllProper s'
  slots : s'.slots = Function.update s.slots n slot
  ready : slot.ready = true
  inflight : s'.inflight = s.inflight
  owner : s'.owner = s.owner
  nextSlot : s'.nextSlot = s.nextSlot
  /-- The slot that was filled is held by no thread any more. -/
  threads : ∀ u uh, s'.threads u = some uh →
    uh.pc.Outside ∨ (s.threads u = some uh ∧ uh.pc.holding ≠ some n)
  stays : ∀ u uh m, s.threads u = some uh → uh.pc.holding = some m → m ≠ n →
    s'.threads u = some uh
  running : ∀ u uh, s.threads u = some uh → ∃ uh', s'.threads u = some uh'
  led : ∀ u j l m, .led u j l m ∈ s'.trace ↔ .led u j l m ∈ s.trace
  filled : ∀ u m resp success, .filled u m resp success ∈ s'.trace ↔
    (u = t ∧ m = n ∧ slot = ⟨true, success, resp⟩) ∨ .filled u m resp success ∈ s.trace
  fills : ∀ m, s'.trace.countP (Event.fills m) =
    s.trace.countP (Event.fills m) + if m = n then 1 else 0
  grows : ∀ e ∈ s.trace, e ∈ s'.trace

theorem filled_commit (registry : Registry D s) (move : Move D s t th input o) {lead : Lead}
    {hit : Option ℤ} {resp : HttpResponse} {success : Bool} {n : ℕ}
    (running : s.threads t = some th) (write : o.write = .fill n resp success)
    (child : o.child = none)
    (events : o.events = conclude t th lead hit resp ++ [.filled t n resp success])
    (here : th.pc = .fill lead n hit resp success) (done : o.pc = .done) :
    Filled D s (s.commit (D.key th.req) t th o) t n ⟨true, success, resp⟩ := by
  have mine : th.pc.holding = some n := by rw [here]; rfl
  have silent := silent_conclude t th lead hit resp
  constructor
  case proper => exact allProper_commit registry.proper running move
  case slots => rw [commit_slots, write]; rfl
  case ready => rfl
  case inflight => rw [commit_inflight, write]; rfl
  case owner => rw [commit_owner, write]; rfl
  case nextSlot => rw [commit_nextSlot, write]; rfl
  case threads =>
    intro u uh found
    rcases threads_commit_of_childless child found with ⟨-, rfl⟩ | ⟨apart, before⟩
    · left
      change o.pc.Outside
      rw [done]
      exact Pc.outside_done
    · refine Or.inr ⟨before, fun holds => apart ?_⟩
      exact registry.holder u t uh th n before running holds mine
  case stays =>
    intro u uh m before holding other
    refine threads_commit_of_ne move before ?_
    rintro rfl
    rw [running, Option.some.injEq] at before
    rw [← before, mine, Option.some.injEq] at holding
    exact other holding.symm
  case running =>
    intro u uh before
    obtain ⟨pc, found⟩ := (persists_commit move running).2.2 u uh before
    exact ⟨_, found⟩
  case led =>
    intro u j l m
    rw [commit_trace, events, List.append_assoc, List.mem_append, or_iff_right (silent.1 u j l m)]
    simp
  case filled =>
    intro u m resp' success'
    rw [commit_trace, events, List.append_assoc, List.mem_append,
      or_iff_right (silent.2 u m resp' success')]
    simp [eq_comm, and_comm]
  case fills =>
    intro m
    rw [commit_trace, List.countP_append, events, List.countP_append,
      countP_fills_of_silent silent, Nat.zero_add, Nat.add_comm]
    by_cases same : m = n
    · simp [Event.fills, same]
    · simp [Event.fills, same, Ne.symm same]
  case grows => exact fun e mem => List.mem_append_right _ mem

omit [DecidableEq ι] in
/-- **Filling a slot** keeps the invariant, if a thread fills it that has removed it from the
map. -/
theorem Registry.fill {n : ℕ} {slot : InFlight} (registry : Registry D s)
    (running : s.threads t = some th) (mine : th.pc.holding = some n)
    (withdrawn : th.pc.leading = none) (filled : Filled D s s' t n slot) : Registry D s' where
  proper := filled.proper
  inflight u uh m found leading := by
    rw [filled.inflight]
    rcases filled.threads u uh found with outside | ⟨before, -⟩
    · cases outside.leading.symm.trans leading
    · exact registry.inflight u uh m before leading
  leader j l m present := by
    rw [filled.inflight] at present
    obtain ⟨u, uh, before, replica, key, leading⟩ := registry.leader j l m present
    -- The slot that is filled is out of the map already.
    have apart : m ≠ n := by
      rintro rfl
      have holding := Pc.holding_of_leading leading
      obtain rfl := registry.holder u t uh th m before running holding mine
      rw [running, Option.some.injEq] at before
      rw [← before, withdrawn] at leading
      cases leading
    have stays := filled.stays u uh m before (Pc.holding_of_leading leading) apart
    exact ⟨u, uh, stays, replica, key, leading⟩
  holder u v uh vh m found found' holds holds' := by
    rcases filled.threads u uh found with outside | ⟨before, -⟩
    · cases outside.holding.symm.trans holds
    · rcases filled.threads v vh found' with outside | ⟨before', -⟩
      · cases outside.holding.symm.trans holds'
      · exact registry.holder u v uh vh m before before' holds holds'
  owner u uh m found belongs := by
    rw [filled.owner]
    rcases filled.threads u uh found with outside | ⟨before, -⟩
    · rw [outside.holding, outside.joined] at belongs
      simp at belongs
    · exact registry.owner u uh m before belongs
  joined u uh m found joined := by
    rcases filled.threads u uh found with outside | ⟨before, -⟩
    · cases outside.joined.symm.trans joined
    · exact filled.grows _ (registry.joined u uh m before joined)
  fresh m := by
    rw [filled.nextSlot, filled.owner]
    exact registry.fresh m
  unready u uh m found holds := by
    rcases filled.threads u uh found with outside | ⟨before, other⟩
    · cases outside.holding.symm.trans holds
    · have apart : m ≠ n := fun same => other (same ▸ holds)
      rw [filled.slots, Function.update_of_ne apart]
      exact registry.unready u uh m before holds
  led u uh m found holds := by
    rcases filled.threads u uh found with outside | ⟨before, -⟩
    · cases outside.holding.symm.trans holds
    · exact filled.grows _ (registry.led u uh m before holds)
  ledOwner u j l m mem := by
    rw [filled.owner]
    exact registry.ledOwner u j l m ((filled.led u j l m).mp mem)
  ledOnce u v j j' l l' m mem mem' :=
    registry.ledOnce u v j j' l l' m ((filled.led u j l m).mp mem) ((filled.led v j' l' m).mp mem')
  -- Its leader lets go of the slot in the step that makes it ready.
  finished u j l m mem := by
    obtain ⟨uh, before, holds⟩ := registry.finished u j l m ((filled.led u j l m).mp mem)
    rw [filled.slots]
    by_cases same : m = n
    · obtain ⟨uh', found⟩ := filled.running u uh before
      rw [same, Function.update_self]
      exact ⟨uh', found, Or.inr filled.ready⟩
    · rw [Function.update_of_ne same]
      rcases holds with holding | ready
      · exact ⟨uh, filled.stays u uh m before holding same, Or.inl holding⟩
      · obtain ⟨uh', found⟩ := filled.running u uh before
        exact ⟨uh', found, Or.inr ready⟩
  filledOnce m := by
    rw [filled.fills, filled.slots, registry.filledOnce]
    by_cases same : m = n
    · subst same
      rw [Function.update_self, registry.unready t th m running mine, filled.ready]
      simp
    · rw [Function.update_of_ne same, if_neg same, Nat.add_zero]
  filled u m resp success mem := by
    rw [filled.slots]
    rcases (filled.filled u m resp success).mp mem with ⟨rfl, rfl, rfl⟩ | old
    · rw [Function.update_self]
      exact ⟨rfl, th.replica, D.key th.req, filled.grows _ (registry.led u th m running mine)⟩
    · obtain ⟨slot, j, l, leads⟩ := registry.filled u m resp success old
      have apart : m ≠ n := by
        rintro rfl
        have unready := registry.unready t th m running mine
        rw [slot] at unready
        cases unready
      rw [Function.update_of_ne apart]
      exact ⟨slot, j, l, filled.grows _ leads⟩
  read u uh m resp success found read := by
    rcases filled.threads u uh found with outside | ⟨before, -⟩
    · cases outside.read.symm.trans read
    · obtain ⟨v, mem⟩ := registry.read u uh m resp success before read
      exact ⟨v, filled.grows _ mem⟩

omit [DecidableEq ι] in
/-- A ready slot was filled with what it holds. -/
theorem Registry.exists_filled (registry : Registry D s) {n : ℕ}
    (ready : (s.slots n).ready = true) :
    ∃ u, .filled u n (s.slots n).response (s.slots n).success ∈ s.trace := by
  have once := registry.filledOnce n
  rw [ready, if_pos rfl] at once
  obtain ⟨e, mem, fills⟩ := List.countP_pos_iff.mp (once ▸ Nat.one_pos)
  cases e with
  | filled u m resp success =>
      obtain rfl : m = n := by simpa [Event.fills] using fills
      rw [(registry.filled u m resp success mem).1]
      exact ⟨u, mem⟩
  | _ => simp [Event.fills] at fills

omit [DecidableEq ι] in
/-- A step that touches neither the threads nor the registry keeps the invariant. -/
theorem Registry.frame (registry : Registry D s) (events : List (Event ι))
    (threads : s'.threads = s.threads) (inflight : s'.inflight = s.inflight)
    (slots : s'.slots = s.slots) (owner : s'.owner = s.owner)
    (nextSlot : s'.nextSlot = s.nextSlot) (trace : s'.trace = events ++ s.trace)
    (silent : Silent events) : Registry D s' := by
  refine registry.keep events (fun t th => ?_) slots owner nextSlot trace silent
    (fun t th running => Or.inr ⟨th, threads ▸ running, .refl th⟩)
    (fun t th running => ⟨th, threads ▸ running, .refl th⟩) ?_ ?_ ?_ ?_
  · rw [threads]
    exact registry.proper t th
  · rw [threads, inflight]
    exact registry.inflight
  · intro i k n found
    rw [inflight] at found
    obtain ⟨t, th, running, rest⟩ := registry.leader i k n found
    exact ⟨t, th, threads ▸ running, rest⟩
  · intro t th n running joined
    rw [trace]
    exact ⟨registry.owner t th n (threads ▸ running) (Or.inr joined),
      List.mem_append_right _ (registry.joined t th n (threads ▸ running) joined)⟩
  · rw [threads]
    exact registry.read

omit [DecidableEq ι] in
/-- **A new thread** keeps the invariant, as it has nothing to do with the registry. -/
theorem Registry.start (registry : Registry D s) (i : ι) (req : HttpRequest)
    (unused : s.threads t = none) (events : List (Event ι)) (silent : Silent events)
    (proper : AllProper s')
    (threads : s'.threads = Function.update s.threads t
      (some ⟨i, req, Deployment.entryPoint req⟩))
    (inflight : s'.inflight = s.inflight) (slots : s'.slots = s.slots)
    (owner : s'.owner = s.owner) (nextSlot : s'.nextSlot = s.nextSlot)
    (trace : s'.trace = events ++ s.trace) : Registry D s' := by
  have back : ∀ {u uh}, s'.threads u = some uh → uh.pc.Outside ∨ s.threads u = some uh := by
    intro u uh found
    rw [threads] at found
    rcases update_eq_some found with ⟨-, rfl⟩ | ⟨-, old⟩
    · exact Or.inl (Deployment.outside_entryPoint req)
    · exact Or.inr old
  have forth : ∀ {u uh}, s.threads u = some uh → s'.threads u = some uh := by
    intro u uh before
    rw [threads]
    refine (Function.update_of_ne ?_ ..).trans before
    rintro rfl
    rw [unused] at before
    cases before
  refine registry.keep events proper slots owner nextSlot trace silent
    ?_ (fun u uh before => ⟨uh, forth before, .refl uh⟩) ?_ ?_ ?_ ?_
  · intro u uh found
    rcases back found with outside | before
    · exact Or.inl outside.holding
    · exact Or.inr ⟨uh, before, .refl uh⟩
  · intro u uh n found leading
    rcases back found with outside | before
    · cases outside.leading.symm.trans leading
    · rw [inflight]
      exact registry.inflight u uh n before leading
  · intro j l n found
    rw [inflight] at found
    obtain ⟨u, uh, before, rest⟩ := registry.leader j l n found
    exact ⟨u, uh, forth before, rest⟩
  · intro u uh n found joined
    rcases back found with outside | before
    · cases outside.joined.symm.trans joined
    · rw [trace]
      exact ⟨registry.owner u uh n before (Or.inr joined),
        List.mem_append_right _ (registry.joined u uh n before joined)⟩
  · intro u uh n resp success found read
    rcases back found with outside | before
    · cases outside.read.symm.trans read
    · exact registry.read u uh n resp success before read

/-- **A step of a thread** keeps the invariant: one case per effect. -/
theorem registry_of_move (registry : Registry D s) (running : s.threads t = some th)
    (move : Move D s t th input o) : Registry D (s.commit (D.key th.req) t th o) := by
  cases effect_of_move move with
  | keep write child silent leading holding joined read =>
      refine registry.commit move running write child silent leading holding ?_ ?_
      · intro n wait
        rcases joined with same | none
        · exact ⟨registry.owner t th n running (Or.inr (same ▸ wait)),
            List.mem_append_right _ (registry.joined t th n running (same ▸ wait))⟩
        · rw [none] at wait
          cases wait
      · intro n resp success copy
        rcases read with same | none
        · exact registry.read t th n resp success running (same ▸ copy)
        · rw [none] at copy
          cases copy
  | enter absent write idle quiet unread events led who =>
      exact registry.enter (entered_commit registry move running absent write idle quiet unread
        events led who)
  | join found write child silent event idle wait =>
      refine registry.commit move running (write ▸ trivial) child silent ?_ ?_ ?_ ?_
      · rw [wait, Pc.leading_of_idle idle]; rfl
      · rw [wait, idle]; rfl
      · intro m joined
        rw [wait] at joined
        cases joined
        obtain ⟨u, uh, before, replica, key, leading⟩ := registry.leader _ _ _ found
        refine ⟨?_, List.mem_append_left _ event⟩
        rw [← replica, ← key]
        exact registry.owner u uh _ before (Or.inl (Pc.holding_of_leading leading))
      · intro m resp success copy
        rw [wait] at copy
        cases copy
  | read ready write child silent wait copy =>
      refine registry.commit move running (write ▸ trivial) child silent ?_ ?_ ?_ ?_
      · rw [wait, copy]; rfl
      · rw [wait, copy]; rfl
      · intro m joined
        have waited : th.pc.joined = some m := by
          rw [copy] at joined
          rw [wait]
          exact joined
        exact ⟨registry.owner t th m running (Or.inr waited),
          List.mem_append_right _ (registry.joined t th m running waited)⟩
      · intro m resp success copied
        rw [copy] at copied
        cases copied
        exact registry.exists_filled ready
  | withdraw found write child silent publish fill =>
      exact registry.withdraw move running found write child silent publish fill
  -- This branch of `publish` is never taken: the map still names the slot of its leader.
  | lost absent publish =>
      have role := registry.proper t th running
      rw [publish] at role
      obtain ⟨m, slot⟩ := Lead.exists_slot role.1
      have mine := registry.inflight t th m running (by rw [publish]; exact slot)
      rw [absent] at mine
      cases mine
  | @fill lead hit resp success n write child events here done =>
      have mine : th.pc.holding = some n := by rw [here]; rfl
      have withdrawn : th.pc.leading = none := by rw [here]; rfl
      exact registry.fill running mine withdrawn
        (filled_commit registry move running write child events here done)

/-- **Every step keeps the registry invariant.** -/
theorem registry_step {a : Action ι} (taken : D.step s a = some s') (registry : Registry D s) :
    Registry D s' := by
  have proper := allProper_step taken registry.proper
  cases turn_of_step taken with
  | @start t i req unused =>
      exact registry.start i req unused [.began t i req] (by simp [Silent]) proper rfl rfl rfl rfl
        rfl rfl
  | thread running move => exact registry_of_move registry running move
  | @purgeStart p i pattern _ =>
      exact registry.frame [.purgeBegan p i pattern] rfl rfl rfl rfl rfl rfl
        (by simp [Silent])
  | @purgeReturn p g _ _ =>
      exact registry.frame [.purgeReturned p g.replica g.pattern] rfl rfl rfl rfl rfl
        rfl (by simp [Silent])
  | _ => exact registry.frame [] rfl rfl rfl rfl rfl rfl silent_nil

/-- **The registry invariant holds in every reachable state.** -/
theorem registry_of_steps {guard : State ι → Action ι → Prop} {clock : ℕ}
    (run : Transition.Steps D.step guard (D.initial clock) s) : Registry D s :=
  run.invariant (fun _ _ _ _ taken => registry_step taken) (registry_initial clock)

end EdgeCache

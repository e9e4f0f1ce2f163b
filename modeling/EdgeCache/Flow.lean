import EdgeCache.Registry

/-!
# What is where

Responses travel: from the origin through a leader into L1, L2 and a slot, from
there through waiters back into L1, and from all of these to clients.  A claim
about what clients get is a claim about what can be at each of these places, so
this module proves once that such statements are kept.

`Labels` assigns a statement to each place.  `Labels.Closed` lists what has to be
shown of them, one obligation for each point at which content is made or passes
from one place to another; moves that only carry content along are no
obligation.  `flow_of_steps` is the induction: if the labels are closed along a
run and hold at its start, they hold at its end.
-/

namespace EdgeCache

variable {ι : Type} [DecidableEq ι]

/-! ## What a step can put into the tiers -/

/-- The entry the thread is about to put into L1. -/
def Pc.stored? : Pc → Option CacheEntry
  | .promote _ entry | .put _ _ entry | .waiterPut _ _ entry => some entry
  | _ => none

section Tiers

variable {D : Deployment ι} {s s' : State ι} {t : ℕ} {th : Thread ι} {input : Input}
  {o : Outcome ι} {key k : ByteString} {i : ι} {e : CacheEntry}

omit [DecidableEq ι] in
/-- A move that writes to L1 looks an entry up or stores its own. -/
theorem holds_of_move {c : ShardedCache} (move : Move D s t th input o)
    (write : o.write = .cache c) (held : c.Holds D.hash k e) :
    (s.cache th.replica).Holds D.hash k e ∨ (k = D.key th.req ∧ th.pc.stored? = some e) := by
  have looked : ∀ {cached : Option CacheEntry} {c' : ShardedCache},
      (s.cache th.replica).get D.hash (D.key th.req) = (cached, c') → c' = c →
      (s.cache th.replica).Holds D.hash k e := by
    intro cached c' found same
    have after : ((s.cache th.replica).get D.hash (D.key th.req)).2.Holds D.hash k e := by
      rw [found, same]
      exact held
    exact ShardedCache.holds_get.mp after
  have stored : ∀ {e' : CacheEntry}, th.pc.stored? = some e' →
      (s.cache th.replica).put D.hash (D.key th.req) e' = c →
      (s.cache th.replica).Holds D.hash k e ∨ (k = D.key th.req ∧ th.pc.stored? = some e) := by
    intro e' mine same
    rw [← same] at held
    rcases ShardedCache.holds_of_put held with ⟨sameKey, sameEntry⟩ | ⟨-, old⟩
    · exact Or.inr ⟨sameKey, sameEntry ▸ mine⟩
    · exact Or.inl old
  cases move with
  | hit here found fresh => exact Or.inl (looked found (Write.cache.inj write))
  | stale here found aged serveable => exact Or.inl (looked found (Write.cache.inj write))
  | miss here found useless => exact Or.inl (looked found (Write.cache.inj write))
  | promote here => exact stored (by rw [here]; rfl) (Write.cache.inj write)
  | put here => exact stored (by rw [here]; rfl) (Write.cache.inj write)
  | waiterPut here => exact stored (by rw [here]; rfl) (Write.cache.inj write)
  | l2Put here encoded => cases write
  | _ => cases write

/-- A step of a thread changes L1 on its own replica only, and there adds its own entry only. -/
theorem holds_commit (move : Move D s t th input o)
    (held : ((s.commit key t th o).cache i).Holds D.hash k e) :
    (s.cache i).Holds D.hash k e ∨
      (i = th.replica ∧ k = D.key th.req ∧ th.pc.stored? = some e) := by
  rw [commit_cache] at held
  cases write : o.write with
  | cache c =>
      rw [write, State.apply] at held
      by_cases here : i = th.replica
      · subst here
        simp only [Function.update_self] at held
        exact (holds_of_move move write held).imp_right fun mine => ⟨rfl, mine⟩
      · exact Or.inl (by simpa only [Function.update_of_ne here] using held)
  | _ => rw [write] at held; exact Or.inl held

/-- **What is resident after a step** was resident before, or the thread that
moved stored it. -/
theorem holds_of_step {a : Action ι} (taken : D.step s a = some s')
    (held : (s'.cache i).Holds D.hash k e) :
    (s.cache i).Holds D.hash k e ∨ ∃ t input th, a = .step t input ∧ s.threads t = some th ∧
      i = th.replica ∧ k = D.key th.req ∧ th.pc.stored? = some e := by
  cases turn_of_step taken with
  | thread running move =>
      refine (holds_commit move held).imp_right fun stored => ?_
      exact ⟨_, _, _, rfl, running, stored⟩
  | @purgeShard p g running more =>
      refine Or.inl ?_
      by_cases here : i = g.replica
      · subst here
        simp only [Function.update_self] at held
        exact (ShardedCache.holds_purgeShard.mp held).1
      · simpa only [Function.update_of_ne here] using held
  | @sweep j shard =>
      refine Or.inl ?_
      by_cases here : i = j
      · subst here
        simp only [Function.update_self] at held
        exact ShardedCache.holds_of_sweepShard held
      · simpa only [Function.update_of_ne here] using held
  | _ => exact Or.inl held

/-- A step of a thread changes L2 under its own key only. -/
theorem l2_commit {blob : ByteString} (held : (s.commit key t th o).l2 k = some blob) :
    s.l2 k = some blob ∨ (k = key ∧ o.write = .l2 blob) := by
  rw [commit_l2] at held
  cases write : o.write with
  | l2 blob' =>
      rw [write] at held
      rcases update_eq_some held with ⟨rfl, rfl⟩ | ⟨-, old⟩
      · exact Or.inr ⟨rfl, rfl⟩
      · exact Or.inl old
  | _ => rw [write] at held; exact Or.inl held

end Tiers

/-! ## Labels -/

/-- **What is said of the content at each place**, `k` standing for a key. -/
structure Labels (ι : Type) where
  /-- Of an entry in L1, or about to be put there by a thread. -/
  Entry : ι → ByteString → CacheEntry → Prop
  /-- Of a value in L2. -/
  Blob : ByteString → ByteString → Prop
  /-- Of a response a thread has fetched. -/
  Own : ℕ → ι → HttpRequest → HttpResponse → Prop
  /-- Of what a waiter finds in a slot. -/
  Slot : ℕ → ι → ByteString → HttpResponse → Bool → Prop
  /-- Of what a client gets. -/
  Answer : ℕ → ι → HttpRequest → HttpResponse → Option ℤ → Prop

namespace Labels

variable (L : Labels ι) (D : Deployment ι)

/-- What a leader is about to leave in its slot `n` and to answer.  A failed
revalidation leaves a placeholder, of which nothing else is said. -/
def Published (t : ℕ) (th : Thread ι) (lead : Lead) (n : ℕ) (hit : Option ℤ)
    (resp : HttpResponse) (success : Bool) : Prop :=
  match lead with
  | .pass => True
  | .miss _ _ _ =>
      L.Slot n th.replica (D.key th.req) resp success ∧ L.Answer t th.replica th.req resp hit
  | .revalidate _ =>
      L.Slot n th.replica (D.key th.req) resp success ∨
        (success = false ∧ resp = HttpResponse.default)

/-- **What a thread carries** at each operation. -/
def Carries (t : ℕ) (th : Thread ι) : Pc → Prop
  | .trigger resp => L.Answer t th.replica th.req resp none
  | .promote lead e =>
      L.Entry th.replica (D.key th.req) e ∧
        ∀ n ∈ lead.slot?, L.Published D t th lead n (some e.storedAt)
          (l2Response (D.replicaId th.replica) e) true
  | .record _ result => result.ok = true → L.Own t th.replica th.req result.response
  | .storeTiers _ resp => L.Own t th.replica th.req resp
  | .put _ resp e | .l2Put _ resp e =>
      L.Own t th.replica th.req resp ∧ L.Entry th.replica (D.key th.req) e
  | .publish lead hit resp success =>
      ∀ n ∈ lead.slot?, L.Published D t th lead n hit resp success
  | .fill lead n hit resp success => L.Published D t th lead n hit resp success
  | .maybeStore n resp success => L.Slot n th.replica (D.key th.req) resp success
  | .waiterPut n resp e =>
      L.Slot n th.replica (D.key th.req) resp true ∧ L.Entry th.replica (D.key th.req) e
  | _ => True

omit [DecidableEq ι] in
variable {L D} in
/-- **A leader may publish what its waiters may find**, if it may answer it where it is a request. -/
theorem published_of_slot {t n : ℕ} {th : Thread ι} {lead : Lead} {hit : Option ℤ}
    {resp : HttpResponse} {success : Bool}
    (slot : L.Slot n th.replica (D.key th.req) resp success)
    (answer : (∀ m, lead ≠ .revalidate m) → L.Answer t th.replica th.req resp hit) :
    L.Published D t th lead n hit resp success := by
  cases lead with
  | pass => trivial
  | miss m now cached => exact ⟨slot, answer (by simp)⟩
  | revalidate m => exact Or.inl slot

omit [DecidableEq ι] in
variable {L D} in
/-- What a thread carries under stronger labels it carries under weaker ones. -/
theorem Carries.mono {L' : Labels ι} {t : ℕ} {th : Thread ι}
    (entry : ∀ e, L.Entry th.replica (D.key th.req) e → L'.Entry th.replica (D.key th.req) e)
    (own : ∀ resp, L.Own t th.replica th.req resp → L'.Own t th.replica th.req resp)
    (slot : ∀ n resp success, L.Slot n th.replica (D.key th.req) resp success →
      L'.Slot n th.replica (D.key th.req) resp success)
    (answer : ∀ resp hit, L.Answer t th.replica th.req resp hit →
      L'.Answer t th.replica th.req resp hit) {pc : Pc} (carries : L.Carries D t th pc) :
    L'.Carries D t th pc := by
  have published : ∀ {lead n hit resp success}, L.Published D t th lead n hit resp success →
      L'.Published D t th lead n hit resp success := by
    intro lead n hit resp success published
    cases lead with
    | pass => trivial
    | miss m now cached => exact ⟨slot _ _ _ published.1, answer _ _ published.2⟩
    | revalidate m => exact published.imp_left (slot _ _ _)
  cases pc with
  | trigger resp => exact answer _ _ carries
  | promote lead e => exact ⟨entry e carries.1, fun n mem => published (carries.2 n mem)⟩
  | record lead result => exact fun ok => own _ (carries ok)
  | storeTiers lead resp => exact own _ carries
  | put lead resp e => exact ⟨own _ carries.1, entry e carries.2⟩
  | l2Put lead resp e => exact ⟨own _ carries.1, entry e carries.2⟩
  | publish lead hit resp success => exact fun n mem => published (carries n mem)
  | fill lead n hit resp success => exact published carries
  | maybeStore n resp success => exact slot _ _ _ carries
  | waiterPut n resp e => exact ⟨slot _ _ _ carries.1, entry e carries.2⟩
  | _ => trivial

end Labels

/-- **The labels hold** in a state. -/
structure Flow (D : Deployment ι) (L : Labels ι) (s : State ι) : Prop where
  cache : ∀ i k e, (s.cache i).Holds D.hash k e → L.Entry i k e
  l2 : ∀ k blob, s.l2 k = some blob → L.Blob k blob
  threads : ∀ t th, s.threads t = some th → L.Carries D t th th.pc
  waiters : ∀ t th n, s.threads t = some th → th.pc = .wait n → (s.slots n).ready = true →
    L.Slot n th.replica (D.key th.req) (s.slots n).response (s.slots n).success
  answers : ∀ t i req resp hit, .answered t i req resp hit ∈ s.trace → L.Answer t i req resp hit

/-- The thread `t` is about to take a step of the run from `start` to `final`. -/
structure Scene (D : Deployment ι) (guard : State ι → Action ι → Prop) (start final s : State ι)
    (t : ℕ) (th : Thread ι) (input : Input) : Prop where
  running : s.threads t = some th
  meets : guard s (.step t input)
  registry : Registry D s
  hopeless : AllHopeless s
  front : Transition.Steps D.step guard start s
  past : s.trace <:+ final.trace

/-- **The labels are closed** along the runs from `start` to `final`. -/
structure Labels.Closed (L : Labels ι) (D : Deployment ι) (guard : State ι → Action ι → Prop)
    (start final : State ι) : Prop where
  /-- A fresh entry is served. -/
  hit : ∀ {s t th input now e}, Scene D guard start final s t th input → th.pc = .get now →
    L.Entry th.replica (D.key th.req) e → e.isFresh now = true →
    L.Answer t th.replica th.req (hitResponse (D.replicaId th.replica) e now) (some now)
  /-- A stale entry is served. -/
  stale : ∀ {s t th input e}, Scene D guard start final s t th input →
    L.Entry th.replica (D.key th.req) e →
    L.Answer t th.replica th.req (staleResponse (D.replicaId th.replica) e) none
  /-- A value from L2 is promoted. -/
  decoded : ∀ {s t th input lead blob e}, Scene D guard start final s t th input →
    th.pc = .l2Get lead → input.reachable = true → s.l2 (D.key th.req) = some blob →
    L.Blob (D.key th.req) blob →
    RedisL2Cache.decode blob (RedisL2Cache.nowWallMs s.clock) s.clock = some e →
    L.Entry th.replica (D.key th.req) e ∧
      ∀ n ∈ lead.slot?, L.Published D t th lead n (some e.storedAt)
        (l2Response (D.replicaId th.replica) e) true
  /-- The origin answers. -/
  fetched : ∀ {s t th input lead}, Scene D guard start final s t th input →
    th.pc = .fetching lead →
    .fetched t th.replica th.req input.result s.clock ∈ final.trace → input.result.ok = true →
    L.Own t th.replica th.req input.result.response
  /-- A request that is not cached gets what the origin answered. -/
  pass : ∀ {s t th input resp}, Scene D guard start final s t th input →
    L.Own t th.replica th.req resp →
    L.Answer t th.replica th.req (D.fetchedResponse th .pass resp) none
  /-- A request that is not cached gets an error. -/
  passFailure : ∀ {s t th input rejected b}, Scene D guard start final s t th input →
    Failed D s th .pass rejected b →
    L.Answer t th.replica th.req (D.failureResponse th .pass rejected) none
  /-- A leader fails. -/
  failure : ∀ {s t th input lead rejected b}, Scene D guard start final s t th input →
    Failed D s th lead rejected b →
    ∀ n ∈ lead.slot?, L.Published D t th lead n none (D.failureResponse th lead rejected) false
  /-- A leader succeeds. -/
  success : ∀ {s t th input lead resp}, Scene D guard start final s t th input →
    th.pc.holding = lead.slot? → th.pc.lead? = some lead → L.Own t th.replica th.req resp →
    ∀ n ∈ lead.slot?, L.Published D t th lead n none (D.fetchedResponse th lead resp) true
  /-- A leader stores what it fetched. -/
  entry : ∀ {s t th input lead resp d}, Scene D guard start final s t th input →
    th.pc = .storeTiers lead resp → L.Own t th.replica th.req resp →
    D.decision th.req resp = some d →
    .granted t th.replica th.req resp d s.clock ∈ final.trace →
    L.Entry th.replica (D.key th.req) (entryFrom resp d s.clock)
  /-- A leader stores to L2. -/
  encoded : ∀ {s t th input lead resp e blob}, Scene D guard start final s t th input →
    th.pc = .l2Put lead resp e → L.Entry th.replica (D.key th.req) e →
    RedisL2Cache.encode e e.ttlSeconds (RedisL2Cache.nowWallMs s.clock) = some blob →
    L.Blob (D.key th.req) blob
  /-- A failed revalidation fills a slot another thread waits on. -/
  placeholder : ∀ {s t th input n m hit u uh}, Scene D guard start final s t th input →
    th.pc = .fill (.revalidate m) n hit HttpResponse.default false → s.threads u = some uh →
    uh.pc = .wait n → L.Slot n uh.replica (D.key uh.req) HttpResponse.default false
  /-- A waiter answers what it found. -/
  coalesced : ∀ {s t th input n resp success}, Scene D guard start final s t th input →
    th.pc.read? = some (n, resp, success) → .joined t th.replica (D.key th.req) n ∈ s.trace →
    L.Slot n th.replica (D.key th.req) resp success →
    L.Answer t th.replica th.req (D.coalescedResponse th resp) none
  /-- A waiter stores what it found. -/
  waiterEntry : ∀ {s t th input n resp d}, Scene D guard start final s t th input →
    th.pc = .maybeStore n resp true → .joined t th.replica (D.key th.req) n ∈ s.trace →
    L.Slot n th.replica (D.key th.req) resp true → D.decision th.req resp = some d →
    .granted t th.replica th.req resp d s.clock ∈ final.trace →
    L.Entry th.replica (D.key th.req) (entryFrom resp d s.clock)

/-! ## The labels are kept -/

namespace Flow

variable {D : Deployment ι} {L : Labels ι} {guard : State ι → Action ι → Prop}
  {start final s s' : State ι} {t : ℕ} {th : Thread ι} {input : Input} {o : Outcome ι}

omit [DecidableEq ι] in
/-- What a thread is about to store is labelled. -/
theorem entry_of_carries {e : CacheEntry} (carries : L.Carries D t th th.pc)
    (stored : th.pc.stored? = some e) : L.Entry th.replica (D.key th.req) e := by
  cases here : th.pc <;> simp_all [Pc.stored?, Labels.Carries]

/-- **What a move leaves a thread with** is labelled, if what it had before is. -/
theorem carries_of_move (closed : L.Closed D guard start final)
    (scene : Scene D guard start final s t th input) (flow : Flow D L s)
    (move : Move D s t th input o) (events : o.events ⊆ final.trace) :
    L.Carries D t th o.pc := by
  have carries := flow.threads t th scene.running
  have proper := scene.registry.proper t th scene.running
  cases move with
  | stale here found aged serveable =>
      exact closed.stale scene (flow.cache _ _ _ (ShardedCache.get_eq_some_iff.mp (by rw [found])))
  | lead here absent =>
      change L.Carries D t th (if _ then _ else _)
      split <;> trivial
  | l2Hit here reached held decoded =>
      exact closed.decoded scene here reached held (flow.l2 _ _ held) decoded
  | promote here =>
      rw [here] at carries
      exact carries.2
  | fetched here => exact fun ok => closed.fetched scene here (events List.mem_cons_self) ok
  | leadFailure role failed => exact closed.failure scene failed
  | leadSuccess role here ok =>
      rw [here] at carries
      exact carries ok
  -- From here to `l2Skip` the thread goes on to publish what it fetched.
  | refuse here refused =>
      rw [here] at carries proper
      exact closed.success scene (by rw [here]; rfl) (by rw [here]; rfl) carries
  | grant here granted =>
      rw [here] at carries
      exact ⟨carries, closed.entry scene here carries granted (events List.mem_cons_self)⟩
  | put here =>
      rw [here] at carries proper
      change L.Carries D t th (if _ then _ else _)
      split
      · exact carries
      · exact closed.success scene (by rw [here]; rfl) (by rw [here]; rfl) carries.1
  | l2Put here encoded =>
      rw [here] at carries proper
      exact closed.success scene (by rw [here]; rfl) (by rw [here]; rfl) carries.1
  | l2Skip here =>
      rw [here] at carries proper
      exact closed.success scene (by rw [here]; rfl) (by rw [here]; rfl) carries.1
  -- The slot that is withdrawn is the one the thread leads.
  | withdraw here found =>
      rw [here] at carries proper
      obtain ⟨m, slot⟩ := Lead.exists_slot proper.1
      have mine := scene.registry.inflight t th m scene.running (by rw [here]; exact slot)
      rw [found, Option.some.injEq] at mine
      exact carries _ (mine ▸ slot)
  | wait here ready => exact flow.waiters t th _ scene.running here ready
  | coalescedGrant here granted =>
      rw [here] at carries
      have joined := scene.registry.joined t th _ scene.running (by rw [here]; rfl)
      exact ⟨carries, closed.waiterEntry scene here joined carries granted
        (events List.mem_cons_self)⟩
  | _ => simp_all [Labels.Carries]

/-- **What a move answers** is labelled. -/
theorem answer_of_move (closed : L.Closed D guard start final)
    (scene : Scene D guard start final s t th input) (flow : Flow D L s)
    (move : Move D s t th input o) {u : ℕ} {i : ι} {req : HttpRequest} {resp : HttpResponse}
    {hit : Option ℤ} (mem : .answered u i req resp hit ∈ o.events) :
    L.Answer u i req resp hit := by
  have carries := flow.threads t th scene.running
  have proper := scene.registry.proper t th scene.running
  have concluded : ∀ {lead : Lead} {n : ℕ} {hit' : Option ℤ} {resp' : HttpResponse}
      {success : Bool}, lead ≠ .pass → L.Published D t th lead n hit' resp' success →
      .answered u i req resp hit ∈ conclude t th lead hit' resp' → L.Answer u i req resp hit := by
    intro lead n hit' resp' success role published here
    cases lead with
    | pass => exact absurd rfl role
    | miss m now cached =>
        cases List.mem_singleton.mp here
        exact published.2
    | revalidate m => cases here
  have joined : ∀ {n : ℕ} {resp' : HttpResponse} {success : Bool}, th.pc.joined = some n →
      th.pc.read? = some (n, resp', success) → L.Slot n th.replica (D.key th.req) resp' success →
      .answered u i req resp hit ∈
        [Event.answered t th.replica th.req (D.coalescedResponse th resp') none] →
      L.Answer u i req resp hit := by
    intro n resp' success waited read slot here
    cases List.mem_singleton.mp here
    exact closed.coalesced scene read (scene.registry.joined t th n scene.running waited) slot
  cases move with
  | hit here found fresh =>
      cases List.mem_singleton.mp mem
      have resident := ShardedCache.get_eq_some_iff.mp (congrArg Prod.fst found)
      exact closed.hit scene here (flow.cache _ _ _ resident) fresh
  | triggerJoin here found =>
      rw [here] at carries
      cases List.mem_singleton.mp mem
      exact carries
  | triggerLead here absent unused =>
      rw [here] at carries
      rw [List.mem_cons, List.mem_singleton] at mem
      rcases mem with mine | other
      · cases mine
        exact carries
      · cases other
  | passFailure failed =>
      cases List.mem_singleton.mp mem
      exact closed.passFailure scene failed
  | passSuccess here ok =>
      rw [here] at carries
      cases List.mem_singleton.mp mem
      exact closed.pass scene (carries ok)
  | lost here absent =>
      rw [here] at carries proper
      obtain ⟨n, slot⟩ := Lead.exists_slot proper.1
      exact concluded proper.1 (carries n slot) mem
  | fill here =>
      rw [here] at carries proper
      rw [List.mem_append, List.mem_singleton] at mem
      rcases mem with mine | other
      · exact concluded proper.1 carries mine
      · cases other
  -- A waiter answers what was published, whether it is stored or not.
  | coalescedRefuse here refused =>
      rw [here] at carries
      exact joined (by rw [here]; rfl) (by rw [here]; rfl) carries mem
  | waiterPut here =>
      rw [here] at carries
      exact joined (by rw [here]; rfl) (by rw [here]; rfl) carries.1 mem
  | _ => simp_all

/-- A move leaves a slot alone, makes it, or fills it with what it publishes. -/
theorem slots_of_move {key : ByteString} (move : Move D s t th input o) (n : ℕ) :
    (s.apply th.replica key o.write).slots n = s.slots n ∨
      (s.apply th.replica key o.write).slots n = InFlight.initial ∨
      ∃ lead hit resp success, th.pc = .fill lead n hit resp success ∧
        (s.apply th.replica key o.write).slots n = ⟨true, success, resp⟩ := by
  cases write : o.write with
  | enter =>
      by_cases new : n = s.nextSlot
      · exact Or.inr (Or.inl (by rw [new]; exact Function.update_self ..))
      · exact Or.inl (Function.update_of_ne new ..)
  | fill m resp success =>
      by_cases mine : n = m
      · subst mine
        refine Or.inr (Or.inr ?_)
        cases move with
        | fill here =>
            cases write
            exact ⟨_, _, _, _, here, Function.update_self ..⟩
        | _ => cases write
      · exact Or.inl (Function.update_of_ne mine ..)
  | _ => exact Or.inl rfl

/-- **What the waiters find after a move** is labelled. -/
theorem waiters_of_move (closed : L.Closed D guard start final)
    (scene : Scene D guard start final s t th input) (flow : Flow D L s)
    (move : Move D s t th input o) {u : ℕ} {uh : Thread ι} {n : ℕ}
    (running : (s.commit (D.key th.req) t th o).threads u = some uh) (waits : uh.pc = .wait n)
    (ready : ((s.commit (D.key th.req) t th o).slots n).ready = true) :
    L.Slot n uh.replica (D.key uh.req) ((s.commit (D.key th.req) t th o).slots n).response
      ((s.commit (D.key th.req) t th o).slots n).success := by
  rw [commit_slots] at ready ⊢
  rcases threads_commit running with ⟨rfl, rfl⟩ | ⟨pc, born, rfl⟩ | ⟨-, old⟩
  · -- The thread has just acquired the slot of a leader, and that slot is not ready.
    have fetching : ∀ m, s.inflight th.replica (D.key th.req) = some m →
        (s.slots m).ready = false := by
      intro m found
      obtain ⟨v, vh, leader, -, -, leading⟩ := scene.registry.leader _ _ _ found
      exact scene.registry.unready v vh m leader (Pc.holding_of_leading leading)
    cases move with
    | join here found =>
        cases waits
        rw [State.apply, fetching _ found] at ready
        cases ready
    | lead here absent =>
        change (if _ then Pc.l2Get _ else Pc.allowRequest _) = Pc.wait n at waits
        split at waits <;> cases waits
    | put here =>
        change (if _ then Pc.l2Put _ _ _ else Pc.publish _ _ _ _) = Pc.wait n at waits
        split at waits <;> cases waits
    | _ => cases waits
  · cases move with
    | triggerLead here absent unused =>
        cases born
        cases waits
    | _ => cases born
  · rcases slots_of_move move n with same | fresh | ⟨lead, hit, resp, success, here, filled⟩
    · rw [same] at ready ⊢
      exact flow.waiters u uh n old waits ready
    · rw [fresh] at ready
      cases ready
    · rw [filled]
      have carries := flow.threads t th scene.running
      rw [here] at carries
      -- The leader that fills the slot works for the key of the waiter.
      have mine := scene.registry.owner t th n scene.running (Or.inl (by rw [here]; rfl))
      have theirs := scene.registry.owner u uh n old (Or.inr (by rw [waits]; rfl))
      rw [mine, Option.some.injEq, Prod.mk.injEq] at theirs
      have proper := scene.registry.proper t th scene.running
      rw [here] at proper
      cases lead with
      | pass => exact absurd rfl proper.1
      | miss m now cached => exact theirs.1 ▸ theirs.2 ▸ carries.1
      -- A revalidation that is given up fills its slot with the placeholder.
      | revalidate m =>
          rcases carries with held | ⟨rfl, rfl⟩
          · exact theirs.1 ▸ theirs.2 ▸ held
          · exact closed.placeholder scene here old waits

/-- **The labels are kept** by every step. -/
theorem step (closed : L.Closed D guard start final) {a : Action ι} (meets : guard s a)
    (front : Transition.Steps D.step guard start s) (registry : Registry D s)
    (hopeless : AllHopeless s) (taken : D.step s a = some s')
    (past : s'.trace <:+ final.trace) (flow : Flow D L s) : Flow D L s' := by
  have resident : ∀ i k e, (s'.cache i).Holds D.hash k e → L.Entry i k e := by
    intro i k e held
    rcases holds_of_step taken held with old | ⟨t, input, th, -, running, rfl, rfl, stored⟩
    · exact flow.cache i k e old
    · exact entry_of_carries (flow.threads t th running) stored
  cases turn_of_step taken with
  | @thread t input th o running move =>
      have scene : Scene D guard start final s t th input :=
        ⟨running, meets, registry, hopeless, front, (List.suffix_append _ _).trans past⟩
      refine ⟨resident, fun k blob held => ?_, fun u uh running' => ?_, fun u uh n => ?_,
        fun u i req resp hit mem => ?_⟩
      · rcases l2_commit held with old | ⟨rfl, write⟩
        · exact flow.l2 k blob old
        · cases move with
          | l2Put here encoded =>
              cases write
              have carries := flow.threads t th running
              rw [here] at carries
              exact closed.encoded scene here carries.2 encoded
          | _ => cases write
      · rcases threads_commit running' with ⟨rfl, rfl⟩ | ⟨pc, born, rfl⟩ | ⟨-, old⟩
        · have events : o.events ⊆ final.trace := fun e mem =>
            past.subset (List.mem_append_left _ mem)
          have next := carries_of_move closed scene flow move events
          exact next
        · cases move with
          | triggerLead here absent unused => cases born; trivial
          | _ => cases born
        · exact flow.threads u uh old
      · exact waiters_of_move closed scene flow move
      · rcases List.mem_append.mp mem with new | old
        · exact answer_of_move closed scene flow move new
        · exact flow.answers u i req resp hit old
  | @start t i req unused =>
      refine ⟨resident, flow.l2, fun u uh running => ?_, fun u uh n running waits => ?_,
        fun u j req' resp hit mem => ?_⟩
      · rcases update_eq_some running with ⟨rfl, rfl⟩ | ⟨-, old⟩
        · change L.Carries D u _ (if _ then _ else _)
          split <;> trivial
        · exact flow.threads u uh old
      · rcases update_eq_some running with ⟨rfl, rfl⟩ | ⟨-, old⟩
        · change (if _ then Pc.lookup else Pc.allowRequest _) = _ at waits
          split at waits <;> cases waits
        · exact flow.waiters u uh n old waits
      · rcases List.mem_cons.mp mem with new | old
        · cases new
        · exact flow.answers u j req' resp hit old
  | @l2Drop key =>
      refine ⟨resident, fun k blob held => ?_, flow.threads, flow.waiters, flow.answers⟩
      refine flow.l2 k blob ?_
      change Function.update s.l2 key none k = some blob at held
      by_cases dropped : k = key
      · rw [dropped, Function.update_self] at held
        cases held
      · rwa [Function.update_of_ne dropped] at held
  | purgeStart unused =>
      exact ⟨resident, flow.l2, flow.threads, flow.waiters, fun u i req resp hit mem =>
        flow.answers u i req resp hit ((List.mem_cons.mp mem).resolve_left (by simp))⟩
  | purgeReturn running last =>
      exact ⟨resident, flow.l2, flow.threads, flow.waiters, fun u i req resp hit mem =>
        flow.answers u i req resp hit ((List.mem_cons.mp mem).resolve_left (by simp))⟩
  | _ => exact ⟨resident, flow.l2, flow.threads, flow.waiters, flow.answers⟩

end Flow

omit [DecidableEq ι] in
/-- The labels hold where nothing has been fetched yet. -/
theorem flow_initial {D : Deployment ι} (L : Labels ι) (clock : ℕ) : Flow D L (D.initial clock) where
  cache i k e held := absurd held ShardedCache.not_holds_create
  l2 k blob held := by cases held
  threads t th running := by cases running
  waiters t th n running := by cases running
  answers t i req resp hit mem := by cases mem

/-- **Labels that are closed along a run and hold at its start hold at its end.** -/
theorem flow_of_steps {D : Deployment ι} {L : Labels ι} {guard : State ι → Action ι → Prop}
    {start final : State ι} (closed : L.Closed D guard start final)
    (run : Transition.Steps D.step guard start final) (registry : Registry D start)
    (hopeless : AllHopeless start) (flow : Flow D L start) : Flow D L final := by
  refine run.between.invariant (fun s a s' along taken flow => ?_) flow
  obtain ⟨meets, front, rest⟩ := along
  have known : Registry D s :=
    front.invariant (fun _ _ _ _ taken => registry_step taken) registry
  have none : AllHopeless s :=
    front.invariant (fun _ _ _ _ taken => allHopeless_step taken) hopeless
  exact flow.step closed meets front known none taken
    (persists_of_steps (rest s' taken)).1

/-- **Labels that are closed along a run of the fleet hold at its end.** -/
theorem flow_of_run {D : Deployment ι} {L : Labels ι} {guard : State ι → Action ι → Prop}
    {clock : ℕ} {final : State ι} (closed : L.Closed D guard (D.initial clock) final)
    (run : Transition.Steps D.step guard (D.initial clock) final) : Flow D L final :=
  flow_of_steps closed run (registry_initial clock) (allHopeless_initial clock)
    (flow_initial L clock)

end EdgeCache

import EdgeCache.ControlPlane

/-!
# What a purge of the whole fleet leaves behind

A replica clears its L1 after L2 has been cleared, so that no copy can come back from
there.  But a leader reads L2 in one step and stores what it read in another: if the purge
comes in between, the old copy is back.  The same holds of all that threads have in hand
at that moment, and of what waits for them in a slot.

**Main result.**  Where no thread has a matching copy in hand when its replica clears it,
nothing from before the purge is left once all replicas are through, and later requests get
what was fetched since (`renewed_of_run`).

The proof follows one key on one replica: nothing is at its places from the moment it is
cleared until all are through (`emptied`).  From then on what is at the places of a
matching key was fetched since (`renewed`).
-/

namespace EdgeCache

open Transition

variable {ι : Type} [DecidableEq ι]

/-! ## What is in hand -/

/-- The thread has a copy that it may store or publish. -/
def Pc.InHand : Pc → Prop
  | .promote _ _ | .storeTiers _ _ | .put _ _ _ | .l2Put _ _ _ | .waiterPut _ _ _ => True
  | .record _ result => result.ok = true
  | .publish _ _ _ success | .fill _ _ _ _ success | .maybeStore _ _ success => success = true
  | _ => False

/-- The thread has no copy in hand, and none waits for it in a slot. -/
def EmptyHanded (s : State ι) (th : Thread ι) : Prop :=
  ¬ th.pc.InHand ∧
    ∀ n, th.pc = .wait n → (s.slots n).ready = true → (s.slots n).success = false

namespace PurgeRequest

/-- **The condition**: when a replica clears a shard for the request, no thread for a
matching key of the shard has a copy in hand. -/
def HandsOff (P : PurgeRequest) (D : Deployment ι) (s : Site ι) : SiteAction ι → Prop
  | .fleet (.purgeStep p) => ∀ i g, s.ticket i = some p → s.fleet.purges p = some g →
      ∀ t th, s.fleet.threads t = some th → th.replica = i → P.Matching (D.key th.req) →
      (s.fleet.cache i).shardIndex D.hash (D.key th.req) = g.next → EmptyHanded s.fleet th
  | _ => True

variable {P : PurgeRequest} {D : Deployment ι} {start final : State ι}
  {guard : State ι → Action ι → Prop}

/-! ## Failures carry no copy -/

/-- What a failed leader leaves is an error, or the placeholder. -/
def failing : Labels ι where
  Entry _ _ _ := True
  Blob _ _ := True
  Own _ _ _ _ := True
  Slot _ _ _ resp success := success = false →
    OwnError resp.status resp.body ∨ resp = HttpResponse.default
  Answer _ _ _ _ _ := True

theorem failing_closed : failing.Closed D guard start final where
  hit _ _ _ _ := trivial
  stale _ _ := trivial
  decoded _ _ _ _ _ _ := ⟨trivial, fun n _ =>
    Labels.published_of_slot (fun impossible => absurd impossible (by decide)) fun _ => trivial⟩
  fetched _ _ _ _ := trivial
  pass _ _ := trivial
  passFailure _ _ := trivial
  failure {s t th input lead rejected b} scene failed n _ := by
    have hopeless := failed.hopeless (scene.hopeless t th scene.running)
    have left : OwnError (D.failureResponse th lead rejected).status
        (D.failureResponse th lead rejected).body ∨
        D.failureResponse th lead rejected = HttpResponse.default :=
      (failureResponse_contents hopeless rejected).imp_right fun ⟨_, _, same⟩ => same
    exact Labels.published_of_slot (fun _ => left) fun _ => trivial
  success _ _ _ _ _ _ :=
    Labels.published_of_slot (fun impossible => absurd impossible (by decide)) fun _ => trivial
  entry _ _ _ _ _ := trivial
  encoded _ _ _ _ := trivial
  placeholder _ _ _ _ _ := Or.inr rfl
  coalesced _ _ _ _ := trivial
  waiterEntry _ _ _ _ _ _ := trivial

/-! ## From the clearing of a key until all are through -/

/-- Nothing is at the places of the key on the replica. -/
def emptied (D : Deployment ι) (i : ι) (k : ByteString) : Labels ι :=
  supplied D (· = i) (· = k) (fun _ _ => False) (fun l _ => l ≠ k) (fun _ => False)
    (fun _ _ _ => True)

/-- Along the way nothing that matches is in L2 or about to be stored. -/
def Calm (P : PurgeRequest) (D : Deployment ι) (s : State ι) : Prop :=
  P.Dry D s ∧ ∀ k, P.Matching k → s.l2 k = none

theorem emptied_closed {i : ι} {k : ByteString} (matched : P.Matching k)
    (calm : ∀ s a, guard s a → P.Calm D s) : (emptied D i k).Closed D guard start final := by
  refine supplied_closed ?_ ?_ ?_ ?_
  · intro s t th input lead blob e scene here other _ replica key
    exact other key
  · intro s t th input lead scene here event ok replica key
    have dry := (calm s _ scene.meets).1 t th scene.running (key ▸ matched)
    exact dry (by rw [here]; trivial)
  · intro s t th input lead resp e blob scene here _ _ key
    have dry := (calm s _ scene.meets).1 t th scene.running (key ▸ matched)
    exact dry (by rw [here]; trivial)
  · intro u j l n v later
    exact later.elim

omit [DecidableEq ι] in
/-- **When the key has been cleared** and no hand holds a copy, nothing is at its places. -/
theorem flow_emptied {m : State ι} {i : ι} {k : ByteString}
    (cleared : ∀ e, ¬ (m.cache i).Holds D.hash k e) (noL2 : m.l2 k = none)
    (hands : ∀ t th, m.threads t = some th → th.replica = i → D.key th.req = k →
      EmptyHanded m th)
    (failures : Flow D failing m) : Flow D (emptied D i k) m where
  cache j l e held replica key := by
    subst replica key
    exact cleared e held
  l2 l blob held key := by
    subst key
    rw [noL2] at held
    cases held
  threads t th running := by
    have empty : th.pc.InHand → th.replica = i → D.key th.req = k → False :=
      fun full replica key => (hands t th running replica key).1 full
    have carries := failures.threads t th running
    have published : ∀ (lead : Lead) (n : ℕ) (hit : Option ℤ) (resp : HttpResponse)
        (success : Bool), (success = true → th.pc.InHand) →
        failing.Published D t th lead n hit resp success →
        (emptied D i k).Published D t th lead n hit resp success := by
      intro lead n hit resp success full failed
      have slot : (success = false → OwnError resp.status resp.body ∨
          resp = HttpResponse.default) →
          (emptied D i k).Slot n th.replica (D.key th.req) resp success := by
        intro failed replica key
        cases success with
        | true => exact (empty (full rfl) replica key).elim
        | false => exact Or.inr ⟨rfl, failed rfl⟩
      cases lead with
      | pass => trivial
      | miss l now cached => exact ⟨slot failed.1, fun later => later.elim⟩
      | revalidate l => exact failed.imp_left slot
    -- What a thread has in hand for the key is a failure, if anything.
    cases here : th.pc with
    | trigger resp => exact fun later => later.elim
    | promote lead e =>
        have full : th.pc.InHand := by rw [here]; trivial
        rw [here] at carries
        exact ⟨empty full, fun n slot => published lead n _ _ true (fun _ => full)
          (carries.2 n slot)⟩
    | record lead result =>
        intro ok
        exact empty (by rw [here]; exact ok)
    | storeTiers lead resp => exact empty (by rw [here]; trivial)
    | put lead resp e =>
        have full : th.pc.InHand := by rw [here]; trivial
        exact ⟨empty full, empty full⟩
    | l2Put lead resp e =>
        have full : th.pc.InHand := by rw [here]; trivial
        exact ⟨empty full, empty full⟩
    | publish lead hit resp success =>
        rw [here] at carries
        exact fun n slot => published lead n hit resp success
          (fun good => by rw [here]; exact good) (carries n slot)
    | fill lead n hit resp success =>
        rw [here] at carries
        exact published lead n hit resp success (fun good => by rw [here]; exact good) carries
    | maybeStore n resp success =>
        rw [here] at carries
        intro replica key
        cases success with
        | true => exact (empty (by rw [here]; rfl) replica key).elim
        | false => exact Or.inr ⟨rfl, carries rfl⟩
    | waiterPut n resp e =>
        have full : th.pc.InHand := by rw [here]; trivial
        exact ⟨fun replica key => (empty full replica key).elim, empty full⟩
    | _ => trivial
  waiters t th n running waits ready replica key := by
    have failed := (hands t th running replica key).2 n waits ready
    exact Or.inr ⟨failed, failures.waiters t th n running waits ready failed⟩
  answers t j req resp hit _ later := later.elim

/-! ## After all are through -/

/-- A fetch for the key that started since the state `start` delivered this content. -/
def FetchedAnew (D : Deployment ι) (start final : State ι) (k : ByteString)
    (content : Int32 × ByteString) : Prop :=
  ∃ i, FetchedSince D start final i k content

/-- The L2 value was made of content that was fetched since. -/
def BlobAnew (P : PurgeRequest) (D : Deployment ι) (start final : State ι)
    (k blob : ByteString) : Prop :=
  P.Matching k → ∃ e ttlSeconds written, RedisL2Cache.encode e ttlSeconds written = some blob ∧
    FetchedAnew D start final k e.content

/-- At the places of matching keys is what was fetched since, and that is what the threads
get that are started later than `m`. -/
def renewed (P : PurgeRequest) (D : Deployment ι) (start m final : State ι) : Labels ι :=
  supplied D (fun _ => True) P.Matching (FetchedAnew D start final) (P.BlobAnew D start final)
    (fun u => m.threads u = none) (HandedPlaceholder final)

theorem renewed_closed {m : State ι} (dry : P.Dry D m)
    (started : ∀ s, Steps D.step guard m s → Started m s) (began : start.trace <:+ m.trace) :
    (renewed P D start m final).Closed D guard m final := by
  refine supplied_closed ?_ ?_ ?_ ?_
  · intro s t th input lead blob e scene here anew got _ matched
    obtain ⟨e', ttlSeconds, written, put, fetched⟩ := anew matched
    obtain ⟨status, body⟩ := contents_of_decode put got
    rw [CacheEntry.content, status, body]
    exact fetched
  · intro s t th input lead scene here event ok _ matched
    rcases started s scene.front t th lead scene.running here with ⟨lead', out⟩ | since
    · exact absurd trivial (dry t _ out matched)
    · exact ⟨th.replica, t, th.req, input.result, s.clock, event, rfl, ok, rfl,
        since.widen began scene.past⟩
  · intro s t th input lead resp e blob scene here entry put matched
    exact ⟨e, _, _, put, entry trivial matched⟩
  · intro u j l n v _ _ _ joined filled
    exact ⟨n, v, joined, filled⟩

omit [DecidableEq ι] in
/-- **Where nothing is at the places of any matching key**, what is there is new. -/
theorem flow_renewed {m : State ι} (each : ∀ i k, P.Matching k → Flow D (emptied D i k) m)
    (noL2 : ∀ k, P.Matching k → m.l2 k = none)
    (begun : ∀ t i req resp hit, .answered t i req resp hit ∈ m.trace → m.threads t ≠ none)
    (failures : Flow D failing m) : Flow D (renewed P D start m final) m where
  cache i k e held _ matched := ((each i k matched).cache i k e held rfl rfl).elim
  l2 k blob held matched := by
    rw [noL2 k matched] at held
    cases held
  threads t th running := by
    have answer : ∀ resp hit, (renewed P D start m final).Answer t th.replica th.req resp hit := by
      intro resp hit later
      change m.threads t = none at later
      rw [running] at later
      cases later
    by_cases matched : P.Matching (D.key th.req)
    · have carries := (each th.replica _ matched).threads t th running
      refine carries.mono (fun e none => (none rfl rfl).elim) (fun resp none => (none rfl rfl).elim)
        (fun n resp success slot _ _ => ?_) fun resp hit _ => answer resp hit
      exact (slot rfl rfl).imp_left False.elim
    · have carries := failures.threads t th running
      exact carries.mono (fun e _ _ here => absurd here matched)
        (fun resp _ _ here => absurd here matched)
        (fun n resp success _ _ here => absurd here matched) fun resp hit _ => answer resp hit
  waiters t th n running waits ready _ matched :=
    ((each th.replica _ matched).waiters t th n running waits ready rfl rfl).imp_left False.elim
  answers t i req resp hit mem later := absurd later (begun t i req resp hit mem)

/-! ## The whole course -/

/-- **Nothing from before the purge is left** in `final`, where all were through in `b`: what
L2 and the caches hold under a matching key was fetched since, and so is what a request that
arrived later than `b` gets, if not an error or a placeholder. -/
structure Renewed (P : PurgeRequest) (D : Deployment ι) (start b final : State ι) : Prop where
  l2 : ∀ k blob, final.l2 k = some blob → P.BlobAnew D start final k blob
  cache : ∀ i k e, P.Matching k → (final.cache i).Holds D.hash k e →
    FetchedAnew D start final k e.content
  answers : ∀ t i req resp hit, b.threads t = none → P.Matching (D.key req) →
    .answered t i req resp hit ∈ final.trace →
    FetchedAnew D start final (D.key req) resp.content ∨ OwnError resp.status resp.body ∨
      HandedPlaceholder final t i (D.key req)

/-- What holds from the request on until all are through. -/
structure Going (P : PurgeRequest) (D : Deployment ι) (s : Site ι) : Prop where
  dry : P.Dry D s.fleet
  covered : P.Covered s
  delivery : Delivery s

variable {s s' : Site ι}

theorem going_step {a : SiteAction ι} (taken : P.step D s a = some s')
    (meets : P.Undisturbed D s a) (undone : ¬ P.Done s) (going : P.Going D s) :
    P.Going D s' := by
  refine ⟨?_, covered_step taken meets going.dry going.covered, delivery_step taken going.delivery⟩
  cases course_of_step taken with
  | fleet moved =>
      refine dry_step moved (fun t input th lead act running here matched => ?_) going.dry
      subst act
      exact undone (meets th lead running here matched)
  | receive waiting began =>
      exact dry_step began (fun t input th lead act => by cases act) going.dry
  | _ => exact going.dry

omit [DecidableEq ι] in
/-- When the request has been answered, nothing that matches is in L2. -/
theorem Going.calm (going : P.Going D s) (replied : ∃ n e, s.stage = .replied n e) :
    P.Calm D s.fleet := by
  obtain ⟨n, e, stage⟩ := replied
  refine ⟨going.dry, fun k matched => ?_⟩
  by_contra held
  have never := (going.covered k matched held).2
  rw [stage] at never
  exact never

/-- A replica that has its message has been through the step of receiving it. -/
theorem exists_received {guard : Site ι → SiteAction ι → Prop} {i : ι} {p : ℕ}
    (run : Steps (P.step D) guard s s') (before : s.ticket i = none)
    (delivery : Delivery s) (after : s'.ticket i = some p) :
    ∃ r m, Steps (P.step D) guard s r ∧ Steps (P.step D) guard s m ∧
      Steps (P.step D) guard m s' ∧ D.step r.fleet (.purgeStart p i P.message) = some m.fleet ∧
      m.ticket i = some p ∧ ∃ n e, m.stage = .replied n e := by
  have known : ∀ t, Steps (P.step D) guard s t → Delivery t := fun t run =>
    run.invariant (fun _ _ _ _ taken => delivery_step taken) delivery
  obtain ⟨r, a, m, front, notYet, meets, taken, received, rest⟩ :=
    run.exists_crossing (P := fun t => t.ticket i ≠ none) (by simp [before]) (by simp [after])
  have there := known r front
  have toM := front.trans (.single meets taken)
  have then_ := known m toM
  have kept : ∀ q, m.ticket i = some q → q = p := by
    intro q ticket
    let Kept (t : Site ι) : Prop := Delivery t ∧ t.ticket i = some q
    have stays : Kept s' := rest.invariant (fun _ _ _ _ taken kept =>
      ⟨delivery_step taken kept.1, ticket_step taken kept.1 kept.2⟩) ⟨then_, ticket⟩
    exact (Option.some.inj (after.symm.trans stays.2)).symm
  cases course_of_step taken with
  | @receive j q f waiting began =>
      by_cases mine : i = j
      · subst mine
        have ticket : Function.update r.ticket i (some q) i = some q := Function.update_self ..
        cases kept q ticket
        exact ⟨r, _, front, toM, rest, began, ticket, (there i).2 (Or.inl waiting)⟩
      · exact absurd ((Function.update_of_ne mine ..).symm.trans_ne received) notYet
  | _ => exact absurd received notYet

/-- What is known of a step of the fleet once the replica has its message, the purge `p`. -/
def Watched (P : PurgeRequest) (D : Deployment ι) (i : ι) (p : ℕ) (f : State ι) (a : Action ι) :
    Prop :=
  P.Calm D f ∧ (a = .purgeStep p → ∀ g, f.purges p = some g → ∀ t th, f.threads t = some th →
    th.replica = i → P.Matching (D.key th.req) →
    (f.cache i).shardIndex D.hash (D.key th.req) = g.next → EmptyHanded f th)

/-- **From then on the fleet is watched** until all are through. -/
theorem watched_of_steps {i : ι} {p : ℕ}
    (run : Steps (P.step D) (fun s a => (P.Undisturbed D s a ∧ P.HandsOff D s a) ∧ ¬ P.Done s) s s')
    (going : P.Going D s) (replied : ∃ n e, s.stage = .replied n e) (ticket : s.ticket i = some p) :
    Steps D.step (P.Watched D i p) s.fleet s'.fleet := by
  let Known (t : Site ι) : Prop :=
    P.Going D t ∧ (∃ n e, t.stage = .replied n e) ∧ t.ticket i = some p
  have known : ∀ t, Steps (P.step D)
      (fun s a => (P.Undisturbed D s a ∧ P.HandsOff D s a) ∧ ¬ P.Done s) s t → Known t := by
    intro t front
    refine front.invariant (fun s a s' meets taken known => ?_) ⟨going, replied, ticket⟩
    obtain ⟨going, replied, ticket⟩ := known
    exact ⟨going_step taken meets.1.1 meets.2 going, replied_step taken replied,
      ticket_step taken going.delivery ticket⟩
  refine (run.knowing known).map Site.fleet ?_
  rintro t a t' ⟨⟨⟨-, off⟩, -⟩, going, replied, ticket⟩ taken
  have calm := going.calm replied
  obtain ⟨n, e, stage⟩ := replied
  cases course_of_step taken with
  | @fleet act f moved =>
      refine .single ⟨calm, ?_⟩ moved
      rintro rfl g running
      exact off i g ticket running
  | receive waiting began => exact .single ⟨calm, fun other => by cases other⟩ began
  | deleted here =>
      rw [stage] at here
      cases here
  | _ => exact .refl _

/-- **When all are through, nothing is at the places** of a matching key on a replica. -/
theorem flow_emptied_of_done {clock : ℕ} {i : ι} {p : ℕ} {k : ByteString}
    {r m e : State ι} (earlier : Steps D.step (fun _ _ => True) (D.initial clock) r)
    (began : D.step r (.purgeStart p i P.message) = some m)
    (watched : Steps D.step (P.Watched D i p) m e)
    (returned : .purgeReturned p i P.message ∈ e.trace) (matched : P.Matching k) :
    Flow D (emptied D i k) e := by
  have unused : r.purges p = none ∧ m.purges p = some ⟨i, P.message, 0⟩ := by
    cases turn_of_step began with
    | purgeStart unused => exact ⟨unused, Function.update_self ..⟩
  have going : Purging p i P.message m := going_of_purgeStart earlier began
  obtain ⟨x, y, g, toX, meets, clearing, fromY, running, replica, index, cache, threads, slots, l2⟩ :=
    exists_clearing k watched unused.2 going returned
  have toY := ((earlier.trans (.single trivial began)).trans (toX.mono fun _ _ _ => trivial)).trans
    (.single trivial clearing)
  have failures := flow_of_run failing_closed toY
  have hands : ∀ t th, y.threads t = some th → th.replica = i → D.key th.req = k →
      EmptyHanded y th := by
    intro t th here replica key
    rw [threads] at here
    have empty := meets.2 rfl g running t th here replica (key ▸ matched) (key ▸ index.symm)
    exact ⟨empty.1, fun n => by rw [slots]; exact empty.2 n⟩
  have start := flow_emptied (k := k) (by rw [cache]; exact not_holds_cleared index matched)
    (by rw [l2]; exact meets.1.2 k matched) hands failures
  exact flow_of_steps (emptied_closed matched fun _ _ watched => watched.1) fromY
    (registry_of_steps toY) (allHopeless_of_steps toY) start

/-- When the request arrives, the fleet is where it was. -/
theorem going_of_post {clock : ℕ} {a a' : Site ι}
    (earlier : Steps (P.step D) (fun _ _ => True) (initial D clock) a)
    (posted : P.step D a .post = some a') (dry : P.Dry D a.fleet)
    (visible : ∀ k, P.Matching k → a.fleet.l2 k ≠ none → P.Visible k) :
    P.Going D a' ∧ a'.fleet = a.fleet ∧ ¬ P.Done a' ∧ ∀ i, a'.ticket i = none := by
  have delivery : Delivery a' := delivery_step posted <|
    earlier.invariant (fun _ _ _ _ taken => delivery_step taken)
      fun i => ⟨fun full => absurd full (by simp [initial]), fun sent => by simp [initial] at sent⟩
  cases course_of_step posted with
  | post here nonempty =>
      have unsent : ∀ i, a.ticket i = none := by
        intro i
        by_contra sent
        obtain ⟨n, e, stage⟩ := (delivery i).2 (Or.inr sent)
        cases stage
      refine ⟨⟨dry, fun k matched held => ⟨visible k matched held, trivial⟩, delivery⟩, rfl,
        ?_, unsent⟩
      rintro ⟨⟨n, e, stage⟩, -⟩
      cases stage

/-- The whole run, up to the moment at which all are through. -/
theorem exists_done {a b : Site ι} (going : P.Going D a) (undone : ¬ P.Done a)
    (run : Steps (P.step D) (fun s x => P.Undisturbed D s x ∧ P.HandsOff D s x) a b)
    (done : P.Done b) :
    ∃ e, Steps (P.step D)
        (fun s x => (P.Undisturbed D s x ∧ P.HandsOff D s x) ∧ ¬ P.Done s) a e ∧
      Steps (P.step D) (fun _ _ => True) e b ∧ P.Done e := by
  obtain ⟨r, x, e, front, notYet, meets, taken, through, rest⟩ := run.exists_crossing undone done
  have delivery : ∀ t, Steps (P.step D)
      (fun s x => P.Undisturbed D s x ∧ P.HandsOff D s x) a t → Delivery t := fun t run =>
    run.invariant (fun _ _ _ _ taken => delivery_step taken) going.delivery
  have early : Steps (P.step D)
      (fun s x => (P.Undisturbed D s x ∧ P.HandsOff D s x) ∧ ¬ P.Done s) a r := by
    refine front.between.map id fun t act t' ⟨meets, before, rest⟩ taken =>
      .single ⟨meets, fun already => notYet ?_⟩ taken
    let Kept (t : Site ι) : Prop := Delivery t ∧ P.Done t
    have stays : Kept r := (rest t' taken).invariant (fun _ _ _ _ taken kept =>
      ⟨delivery_step taken kept.1, done_step taken kept.1 kept.2⟩)
      ⟨delivery_step taken (delivery t before), done_step taken (delivery t before) already⟩
    exact stays.2
  exact ⟨e, early.trans (.single ⟨meets, notYet⟩ taken), rest.mono fun _ _ _ => trivial, through⟩

/-- **A purge of the whole fleet.**  Suppose that, when it arrives, no thread for a matching
key has a fetch out or something fetched to store, and every matching key in L2 is visible;
that no fetch for a matching key begins before it is done; and that no thread has a copy in
hand when its replica clears a matching key.  Then there is a moment when all replicas are
through, at which no tier holds a matching key, and nothing from before is left after it. -/
theorem renewed_of_run (P : PurgeRequest) (D : Deployment ι) {clock : ℕ} {a a' b final : Site ι}
    {acts acts' acts'' : List (SiteAction ι)}
    (earlier : run (P.step D) (initial D clock) acts = some a)
    (posted : P.step D a .post = some a')
    (meanwhile : run (P.step D) a' acts' = some b)
    (undisturbed : Meets (P.step D) (P.Undisturbed D) a' acts')
    (done : P.Done b) (later : run (P.step D) b acts'' = some final)
    (dry : P.Dry D a.fleet) (visible : ∀ k, P.Matching k → a.fleet.l2 k ≠ none → P.Visible k)
    (handsOff : Meets (P.step D) (P.HandsOff D) a' acts') :
    (∃ e, Steps (P.step D) (fun _ _ => True) a' e ∧ Steps (P.step D) (fun _ _ => True) e b ∧
      P.Done e ∧ ∀ k, P.Matching k → e.fleet.l2 k = none ∧
        ∀ i x, ¬ (e.fleet.cache i).Holds D.hash k x) ∧
    Renewed P D a'.fleet b.fleet final.fleet := by
  have toA := Steps.of_run (meets_true ..) earlier
  obtain ⟨going, same, undone, unsent⟩ := going_of_post toA posted dry visible
  obtain ⟨e, early, toB, through⟩ :=
    exists_done going undone (Steps.of_run (undisturbed.and handsOff) meanwhile) done
  have fromB := Steps.of_run (meets_true ..) later
  -- The runs of the fleet.
  have fleet : ∀ {guard : Site ι → SiteAction ι → Prop} {s s' : Site ι},
      Steps (P.step D) guard s s' → Steps D.step (fun _ _ => True) s.fleet s'.fleet :=
    fun steps => steps.map Site.fleet fun _ _ _ _ taken => fleet_of_step taken
  have toA' : Steps D.step (fun _ _ => True) (D.initial clock) a'.fleet := same ▸ fleet toA
  have toE := toA'.trans (fleet early)
  have fromE := fleet (toB.trans fromB)
  have goingE : P.Going D e :=
    early.invariant (fun _ _ _ meets taken => going_step taken meets.1.1 meets.2) going
  have calm := goingE.calm through.1
  -- Each replica has cleared each key, and nothing has come back.
  have each : ∀ i k, P.Matching k → Flow D (emptied D i k) e.fleet := by
    intro i k matched
    obtain ⟨p, ticket, returned⟩ := through.2 i
    obtain ⟨r, m, toR, toM, rest, began, received, replied⟩ :=
      exists_received early (unsent i) going.delivery ticket
    have goingM : P.Going D m :=
      toM.invariant (fun _ _ _ meets taken => going_step taken meets.1.1 meets.2) going
    exact flow_emptied_of_done (toA'.trans (fleet toR)) began
      (watched_of_steps rest goingM replied received) returned matched
  refine ⟨⟨e, early.mono fun _ _ _ => trivial, toB, through, fun k matched =>
    ⟨calm.2 k matched, fun i x held => (each i k matched).cache i k x held rfl rfl⟩⟩, ?_⟩
  -- What comes later is new.
  have failures := flow_of_run failing_closed toE
  have flow := flow_of_steps
    (renewed_closed calm.1 (fun _ run => started_of_steps run)
      (persists_of_steps (fleet early)).1) fromE
    (registry_of_steps toE) (allHopeless_of_steps toE)
    (flow_renewed each calm.2 (fun _ _ _ _ _ mem => started_of_answered toE mem) failures)
  refine ⟨flow.l2, fun i k x matched held => flow.cache i k x held trivial matched,
    fun t i req resp hit absent matched mem => ?_⟩
  -- A thread that is absent when all are through was absent before.
  exact flow.answers t i req resp hit mem (absent_of_steps (fleet toB) absent) trivial matched

/-! ## A copy that comes back -/

/-- What a run says of the keys that were in L2 when the scan began. -/
def Listed (D : Deployment ι) (s : Site ι) : Prop :=
  Traced D s.fleet ∧
    ∀ k, s.steady k = true → ∃ u i req, .began u i req ∈ s.fleet.trace ∧ D.key req = k

theorem listed_step {a : SiteAction ι} (taken : P.step D s a = some s') (listed : Listed D s) :
    Listed D s' := by
  have moves := fleet_of_step taken
  have grows := (persists_of_steps moves).1
  refine ⟨moves.invariant (fun _ _ _ _ taken => traced_step taken) listed.1, fun k steady => ?_⟩
  have old : s.steady k = true → ∃ u i req, .began u i req ∈ s'.fleet.trace ∧ D.key req = k := by
    intro was
    obtain ⟨u, i, req, mem, same⟩ := listed.2 k was
    exact ⟨u, i, req, grows.subset mem, same⟩
  cases course_of_step taken with
  | fleet moved => exact old (Bool.and_eq_true_iff.mp steady).1
  | receive waiting began => exact old (Bool.and_eq_true_iff.mp steady).1
  | deleted here => exact old (Bool.and_eq_true_iff.mp steady).1
  | logged here => exact listed.1.l2 k (Option.isSome_iff_ne_none.mp steady)
  | _ => exact old steady

theorem listed_of_run {clock : ℕ} {guard : Site ι → SiteAction ι → Prop}
    (run : Steps (P.step D) guard (initial D clock) s) : Listed D s :=
  run.invariant (fun _ _ _ _ taken => listed_step taken)
    ⟨traced_of_run (.refl _ : Steps D.step (fun _ _ => True) (D.initial clock) _),
      fun k never => by cases never⟩

/-- Whether a step disturbs nothing. -/
def disturbsNot (D : Deployment ι) (s : Site ι) : SiteAction ι → Bool
  | .failed => false
  | .scanned _ keys => everyKey D keys.contains s.fleet
  | .fleet (.step t _) =>
      match (s.fleet.threads t).map Thread.pc with
      | some (.fetch _) => false
      | _ => true
  | _ => true

omit [DecidableEq ι] in
theorem undisturbed_of_disturbsNot (s : Site ι) (a : SiteAction ι) (listed : Listed D s)
    (passed : disturbsNot D s a = true) : P.Undisturbed D s a := by
  cases a with
  | failed => cases passed
  | scanned next keys =>
      intro _ k steady
      obtain ⟨u, i, req, mem, rfl⟩ := listed.2 k steady
      have here := List.all_eq_true.mp passed _ mem
      exact List.mem_append_left _ (List.contains_iff_mem.mp here)
  | fleet act =>
      cases act with
      | step t input =>
          intro th lead running here
          simp [disturbsNot, running, here] at passed
      | _ => trivial
  | _ => trivial

/-- Whether a replica clears a shard only where every thread is done. -/
def clearsAlone (s : Site ι) : SiteAction ι → Bool
  | .fleet (.purgeStep _) => everyThread (fun th => th.pc = .done) s.fleet
  | _ => true

omit [DecidableEq ι] in
theorem handsOff_of_clearsAlone (s : Site ι) (a : SiteAction ι) (listed : Listed D s)
    (passed : clearsAlone s a = true) : P.HandsOff D s a := by
  cases a with
  | fleet act =>
      cases act with
      | purgeStep p =>
          intro i g _ _ t th running _ _ _
          have idle := of_decide_eq_true (listed.1.of_everyThread passed running)
          exact ⟨by rw [idle]; exact id, fun n waits => by rw [idle] at waits; cases waits⟩
      | _ => trivial
  | _ => trivial

/-- A purge of everything. -/
def purgeAll : PurgeRequest := ⟨bytes "l2:", [unit STAR]⟩

/-- A number of steps of one thread. -/
def takes (n t : ℕ) (body : ByteString) : List (SiteAction Bool) :=
  List.replicate n (.fleet (.step t (okInput (bytes "ETag") (bytes "1") body)))

/-- One replica stores a page, and a leader on the other takes some steps. -/
def storedAndRead (n : ℕ) : List (SiteAction Bool) :=
  .fleet (.start 0 false (getRequest (bytes "/a"))) :: takes 13 0 (bytes "x") ++
    .fleet (.start 1 true (getRequest (bytes "/a"))) :: takes n 1 (bytes "x")

/-- The purge, from the audit entry to the last replica. -/
def wholePurge : List (SiteAction Bool) :=
  [.logged, .scanned (bytes "0") [pairDeployment.key (getRequest (bytes "/a"))], .deleted 1,
    .published 2, .receive false 0, .receive true 1] ++
    List.replicate 3 (.fleet (.purgeStep 0)) ++ List.replicate 3 (.fleet (.purgeStep 1))

/-- A later request. -/
def lookedUpAgain (n : ℕ) : List (SiteAction Bool) :=
  .fleet (.start 2 true (getRequest (bytes "/a"))) :: takes n 2 (bytes "y")

/-- Whether all replicas are through. -/
def through (s : Site Bool) : Bool :=
  s.stage = .replied 2 1 ∧ s.ticket false = some 0 ∧ s.ticket true = some 1 ∧
    s.fleet.trace.contains (.purgeReturned 0 false purgeAll.message) ∧
    s.fleet.trace.contains (.purgeReturned 1 true purgeAll.message)

theorem done_of_through {s : Site Bool} (passed : through s = true) : purgeAll.Done s := by
  simp only [through, decide_eq_true_eq, List.contains_iff_mem] at passed
  obtain ⟨stage, false_, true_, returned, returned'⟩ := passed
  refine ⟨⟨2, 1, stage⟩, fun i => ?_⟩
  cases i with
  | false => exact ⟨0, false_, returned⟩
  | true => exact ⟨1, true_, returned'⟩

instance (P : PurgeRequest) (k : ByteString) : Decidable (P.Visible k) :=
  inferInstanceAs (Decidable (_ ∧ _))

/-- Whether the run goes as it is supposed to, and three tests pass: of the state the request
finds, of the steps, and of the last state. -/
def plays (front back : List (SiteAction Bool)) (before : State Bool → Bool)
    (along : Site Bool → SiteAction Bool → Bool) (after : State Bool → State Bool → Bool) : Bool :=
  (run (purgeAll.step pairDeployment) (initial pairDeployment 0) front).any fun a =>
    everyKey pairDeployment (fun k => purgeAll.Visible k) a.fleet && before a.fleet &&
      (purgeAll.step pairDeployment a .post).any fun a' =>
        passes (purgeAll.step pairDeployment) (disturbsNot pairDeployment) a' wholePurge &&
        passes (purgeAll.step pairDeployment) along a' wholePurge &&
        (run (purgeAll.step pairDeployment) a' wholePurge).any fun b => through b &&
          (run (purgeAll.step pairDeployment) b back).any fun final => after a'.fleet final.fleet

theorem exists_of_plays {front back : List (SiteAction Bool)} {before : State Bool → Bool}
    {along : Site Bool → SiteAction Bool → Bool} {after : State Bool → State Bool → Bool}
    (passed : plays front back before along after = true) :
    ∃ a a' b final, run (purgeAll.step pairDeployment) (initial pairDeployment 0) front = some a ∧
      purgeAll.step pairDeployment a .post = some a' ∧
      run (purgeAll.step pairDeployment) a' wholePurge = some b ∧
      Meets (purgeAll.step pairDeployment) (purgeAll.Undisturbed pairDeployment) a' wholePurge ∧
      purgeAll.Done b ∧ run (purgeAll.step pairDeployment) b back = some final ∧
      (∀ k, purgeAll.Matching k → a.fleet.l2 k ≠ none → purgeAll.Visible k) ∧
      Listed pairDeployment a ∧ Listed pairDeployment a' ∧ before a.fleet = true ∧
      passes (purgeAll.step pairDeployment) along a' wholePurge = true ∧
      after a'.fleet final.fleet = true := by
  obtain ⟨a, ranA, passed⟩ := (Option.any_eq_true _ _).mp passed
  simp only [Bool.and_eq_true] at passed
  obtain ⟨⟨seen, ready⟩, passed⟩ := passed
  obtain ⟨a', posted, passed⟩ := (Option.any_eq_true _ _).mp passed
  simp only [Bool.and_eq_true] at passed
  obtain ⟨⟨undisturbed, also⟩, passed⟩ := passed
  obtain ⟨b, ranB, passed⟩ := (Option.any_eq_true _ _).mp passed
  rw [Bool.and_eq_true] at passed
  obtain ⟨done, passed⟩ := passed
  obtain ⟨final, ran, passed⟩ := (Option.any_eq_true _ _).mp passed
  have listed := listed_of_run (Steps.of_run (meets_true ..) ranA)
  refine ⟨a, a', b, final, ranA, posted, ranB, ?_, done_of_through done, ran, fun k _ held => ?_,
    listed, listed_step posted listed, ready, also, passed⟩
  · exact meets_of_passes_knowing (fun _ _ _ taken => listed_step taken) undisturbed_of_disturbsNot
      (listed_step posted listed) undisturbed
  · exact of_decide_eq_true (listed.1.of_everyKey seen held)

/-- Whether a fetch is out. -/
def fetchOut : Pc → Bool
  | .fetching _ => true
  | _ => false

/-- Whether the page is cached on the second replica, and no fetch has started since. -/
def comesBack (start final : State Bool) : Bool :=
  (final.trace.countP Event.startsFetch == start.trace.countP Event.startsFetch) &&
    ((final.cache true).get pairDeployment.hash
      (pairDeployment.key (getRequest (bytes "/a")))).1.isSome

/-- **A copy read from L2 before the deletion is cached after the purge**, with no fetch for a
matching path in flight when the purge arrives or begun before it is done. -/
theorem not_renewed_readBefore :
    ∃ a a' b final,
      run (purgeAll.step pairDeployment) (initial pairDeployment 0) (storedAndRead 4) = some a ∧
      purgeAll.step pairDeployment a .post = some a' ∧
      run (purgeAll.step pairDeployment) a' wholePurge = some b ∧
      Meets (purgeAll.step pairDeployment) (purgeAll.Undisturbed pairDeployment) a' wholePurge ∧
      purgeAll.Done b ∧
      run (purgeAll.step pairDeployment) b (takes 1 1 (bytes "x") ++ lookedUpAgain 2) = some final ∧
      (∀ t th lead, a.fleet.threads t = some th →
        purgeAll.Matching (pairDeployment.key th.req) → th.pc ≠ .fetching lead) ∧
      (∀ k, purgeAll.Matching k → a.fleet.l2 k ≠ none → purgeAll.Visible k) ∧
      ¬ purgeAll.Renewed pairDeployment a'.fleet b.fleet final.fleet := by
  have passed : plays (storedAndRead 4) (takes 1 1 (bytes "x") ++ lookedUpAgain 2)
      (everyThread fun th => !fetchOut th.pc) (fun _ _ => true) comesBack = true := by
    decide +kernel
  obtain ⟨a, a', b, final, ranA, posted, ranB, undisturbed, done, ran, visible, listed, -, idle,
    -, back⟩ := exists_of_plays passed
  rw [comesBack, Bool.and_eq_true, beq_iff_eq] at back
  obtain ⟨alone, held⟩ := back
  refine ⟨a, a', b, final, ranA, posted, ranB, undisturbed, done, ran, ?_, visible, ?_⟩
  · intro t th lead running _ here
    have quiet := listed.1.of_everyThread idle running
    rw [here] at quiet
    cases quiet
  · intro renewed
    obtain ⟨e, found⟩ := Option.isSome_iff_exists.mp held
    have resident := ShardedCache.get_eq_some_iff.mp found
    obtain ⟨i, since⟩ := renewed.cache true _ e (by decide +kernel) resident
    exact not_fetchedSince alone since

/-- Where the leader is through before the purge arrives, a later request fetches the page
anew. -/
theorem renewed_readThrough :
    ∃ a a' b final,
      run (purgeAll.step pairDeployment) (initial pairDeployment 0) (storedAndRead 7) = some a ∧
      purgeAll.step pairDeployment a .post = some a' ∧
      run (purgeAll.step pairDeployment) a' wholePurge = some b ∧
      run (purgeAll.step pairDeployment) b (lookedUpAgain 13) = some final ∧
      purgeAll.Renewed pairDeployment a'.fleet b.fleet final.fleet := by
  have passed : plays (storedAndRead 7) (lookedUpAgain 13) (everyThread fun th => th.pc = .done)
      clearsAlone (fun _ _ => true) = true := by
    decide +kernel
  obtain ⟨a, a', b, final, ranA, posted, ranB, undisturbed, done, ran, visible, listed, listed',
    idle, alone, -⟩ := exists_of_plays passed
  refine ⟨a, a', b, final, ranA, posted, ranB, ran, ?_⟩
  refine (renewed_of_run purgeAll pairDeployment ranA posted ranB undisturbed done ran ?_ visible
    ?_).2
  · intro t th running _ here
    have quiet := of_decide_eq_true (listed.1.of_everyThread idle running)
    rw [quiet] at here
    exact here
  · exact meets_of_passes_knowing (fun _ _ _ taken => listed_step taken) handsOff_of_clearsAlone
      listed' alone

end PurgeRequest

end EdgeCache

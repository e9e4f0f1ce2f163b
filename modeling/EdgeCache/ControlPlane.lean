import EdgeCache.PatternMatchers
import EdgeCache.Purging

/-!
# A purge of the whole fleet

`POST /purge` of the control plane writes the audit entry, deletes the matching keys from
L2, batch by batch of a `SCAN`, and then publishes the pattern to the replicas, each of
which purges its L1.  Meanwhile the replicas go on.

`Site` is the fleet together with one such request.  Two fields are there for the
statements only: the keys that `SCAN` has returned, and the keys that have been in Redis
since it started.  **What Redis promises of `SCAN`** is that at its end the former include
the latter.

The deletion leaves no matching key in L2, as long as none is stored meanwhile
(`covered_step`).
-/

namespace EdgeCache

open Utf8

/-! ## The request -/

/-- A purge: the configured prefix of the L2 keys, and the pattern of the request. -/
structure PurgeRequest where
  l2KeyPrefix : ByteString
  pattern : JsString

namespace PurgeRequest

variable (P : PurgeRequest)

/-- The pattern as the replicas receive it. -/
def message : ByteString := encode P.pattern

/-- The proxies hold the key to match. -/
def Matching (k : ByteString) : Prop := purgeMatches P.message k = true

instance (k : ByteString) : Decidable (P.Matching k) :=
  inferInstanceAs (Decidable (purgeMatches P.message k = true))

/-- A key of L2 as the client library hands it to the control plane. -/
def l2Key (k : ByteString) : JsString := decode (P.l2KeyPrefix ++ k)

/-- The keys of a batch that `purgeL2` deletes. -/
def toDelete (keys : List ByteString) : List JsString :=
  (keys.map P.l2Key).filter fun key => l2PathMatches (decode P.l2KeyPrefix) key P.pattern

/-- Redis `DEL`, of the keys as the client library sends them. -/
def del (l2 : ByteString → Option ByteString) (keys : List JsString) :
    ByteString → Option ByteString :=
  fun k => if P.l2KeyPrefix ++ k ∈ keys.map encode then none else l2 k

/-- The control plane finds the key to match, and names it to Redis as it is. -/
def Visible (k : ByteString) : Prop :=
  l2PathMatches (decode P.l2KeyPrefix) (P.l2Key k) P.pattern = true ∧
    encode (P.l2Key k) = P.l2KeyPrefix ++ k

theorem of_del_ne_none {l2 : ByteString → Option ByteString} {keys : List JsString}
    {k : ByteString} (left : P.del l2 keys k ≠ none) : l2 k ≠ none := by
  unfold del at left
  split at left
  · exact absurd rfl left
  · exact left

/-- **Every matching key of a request with an ASCII target is visible**, where the key, the
prefix and the pattern are ASCII as well. -/
theorem visible_of_ascii {buffer rest pattern : ByteString} {r : HttpRequest}
    {host : ByteString} (accepted : parse buffer = .complete r rest)
    (cacheable : r.isCacheableMethod = true) (target : Ascii r.target)
    (prefixAscii : Ascii P.l2KeyPrefix) (hostPlain : BAR ∉ host)
    (patternAscii : Ascii pattern) (same : P.pattern = decode pattern)
    (keyAscii : Ascii (CacheKey.fromRequest r host))
    (matched : P.Matching (CacheKey.fromRequest r host)) :
    P.Visible (CacheKey.fromRequest r host) := by
  obtain ⟨here, there⟩ := matchers_agree P.l2KeyPrefix accepted cacheable target patternAscii
    hostPlain
  rw [Matching, message, same, encode_decode_of_ascii patternAscii, here] at matched
  refine ⟨?_, ?_⟩
  · rw [l2Key, same, there, matched]
  · refine encode_decode_of_ascii fun b mem => ?_
    rcases List.mem_append.mp mem with front | back
    · exact prefixAscii b front
    · exact keyAscii b back

end PurgeRequest

/-- A fetch is out, or what it brought is still to be stored. -/
def Pc.OnFetch : Pc → Prop
  | .fetching _ | .storeTiers _ _ | .put _ _ _ | .l2Put _ _ _ => True
  | .record _ result => result.ok = true
  | _ => False

/-! ## The fleet and the request -/

/-- Where the request stands: the next call it makes to the database or to Redis. -/
inductive Stage
  /-- It has not arrived. -/
  | idle
  /-- `repo.log`. -/
  | logging
  /-- `redis.scan` in `purgeL2`. -/
  | scanning (cursor : ByteString) (deleted : ℕ)
  /-- `redis.del` in `purgeL2`. -/
  | deleting (next : ByteString) (toDelete : List JsString) (deleted : ℕ)
  /-- `publishPurge`. -/
  | publishing (l2Evicted : ℕ)
  /-- The response `202`. -/
  | replied (subscribersNotified l2KeysEvicted : ℕ)
  deriving DecidableEq

/-- The fleet, the request, and the messages: which replicas have yet to process theirs,
and the purge that processes it. -/
structure Site (ι : Type) where
  fleet : State ι
  stage : Stage
  inbox : ι → Bool
  ticket : ι → Option ℕ
  steady : ByteString → Bool
  returned : List ByteString

/-- What can happen next. -/
inductive SiteAction (ι : Type)
  /-- A step of the fleet. -/
  | fleet (a : Action ι)
  /-- The request arrives. -/
  | post
  /-- The audit entry is written. -/
  | logged
  /-- Redis answers `SCAN`. -/
  | scanned (next : ByteString) (keys : List ByteString)
  /-- Redis answers `DEL`. -/
  | deleted (count : ℕ)
  /-- A command of `purgeL2` fails. -/
  | failed
  /-- Redis answers `PUBLISH`. -/
  | published (subscribers : ℕ)
  /-- A replica takes up its message. -/
  | receive (i : ι) (p : ℕ)

/-- A step of the fleet, as the request sees it: keys go out of Redis. -/
def Site.advance {ι : Type} (s : Site ι) (fleet : State ι) : Site ι :=
  { s with fleet := fleet, steady := fun k => s.steady k && (fleet.l2 k).isSome }

/-- Whether `SCAN` is through. -/
def Stage.next (next : ByteString) (deleted : ℕ) : Stage :=
  if next = bytes "0" then .publishing deleted else .scanning next deleted

namespace PurgeRequest

variable {ι : Type} [DecidableEq ι] (P : PurgeRequest) (D : Deployment ι)

/-- The fleet before the request. -/
def initial (clock : ℕ) : Site ι where
  fleet := D.initial clock
  stage := .idle
  inbox := fun _ => false
  ticket := fun _ => none
  steady := fun _ => false
  returned := []

/-- **The steps of the fleet and the request.** -/
def step (s : Site ι) : SiteAction ι → Option (Site ι)
  | .fleet a => (D.step s.fleet a).map s.advance
  | .post =>
      match s.stage with
      | .idle => if P.pattern = [] then none else some { s with stage := .logging }
      | _ => none
  | .logged =>
      match s.stage with
      | .logging =>
          some { s with
            stage := .scanning (bytes "0") 0
            steady := fun k => (s.fleet.l2 k).isSome
            returned := [] }
      | _ => none
  | .scanned next keys =>
      match s.stage with
      | .scanning _ deleted =>
          some { s with
            stage := if P.toDelete keys = [] then .next next deleted
              else .deleting next (P.toDelete keys) deleted
            returned := keys ++ s.returned }
      | _ => none
  | .deleted count =>
      match s.stage with
      | .deleting next toDelete deleted =>
          some { s.advance { s.fleet with l2 := P.del s.fleet.l2 toDelete } with
            stage := .next next (deleted + count) }
      | _ => none
  | .failed =>
      match s.stage with
      | .scanning _ _ | .deleting _ _ _ => some { s with stage := .publishing 0 }
      | _ => none
  | .published subscribers =>
      match s.stage with
      | .publishing l2Evicted =>
          some { s with stage := .replied subscribers l2Evicted, inbox := fun _ => true }
      | _ => none
  | .receive i p =>
      if s.inbox i then
        (D.step s.fleet (.purgeStart p i P.message)).map fun fleet =>
          { s.advance fleet with
            inbox := Function.update s.inbox i false
            ticket := Function.update s.ticket i (some p) }
      else none

/-- Every replica has processed its message. -/
def Done (s : Site ι) : Prop :=
  (∃ n e, s.stage = .replied n e) ∧
    ∀ i, ∃ p, s.ticket i = some p ∧ .purgeReturned p i P.message ∈ s.fleet.trace

/-- **The cases of a step.** -/
inductive Course (s : Site ι) : SiteAction ι → Site ι → Prop
  | fleet {a : Action ι} {f : State ι} (moved : D.step s.fleet a = some f) :
      Course s (.fleet a) (s.advance f)
  | post (here : s.stage = .idle) (nonempty : P.pattern ≠ []) :
      Course s .post { s with stage := .logging }
  | logged (here : s.stage = .logging) :
      Course s .logged
        { s with
          stage := .scanning (bytes "0") 0
          steady := fun k => (s.fleet.l2 k).isSome
          returned := [] }
  | scanned {next cursor : ByteString} {keys : List ByteString} {deleted : ℕ}
      (here : s.stage = .scanning cursor deleted) :
      Course s (.scanned next keys)
        { s with
          stage := if P.toDelete keys = [] then .next next deleted
            else .deleting next (P.toDelete keys) deleted
          returned := keys ++ s.returned }
  | deleted {count deleted : ℕ} {next : ByteString} {toDelete : List JsString}
      (here : s.stage = .deleting next toDelete deleted) :
      Course s (.deleted count)
        { s.advance { s.fleet with l2 := P.del s.fleet.l2 toDelete } with
          stage := .next next (deleted + count) }
  | failed (here : (∃ c d, s.stage = .scanning c d) ∨ ∃ n ks d, s.stage = .deleting n ks d) :
      Course s .failed { s with stage := .publishing 0 }
  | published {subscribers l2Evicted : ℕ} (here : s.stage = .publishing l2Evicted) :
      Course s (.published subscribers)
        { s with stage := .replied subscribers l2Evicted, inbox := fun _ => true }
  | receive {i : ι} {p : ℕ} {f : State ι} (waiting : s.inbox i = true)
      (began : D.step s.fleet (.purgeStart p i P.message) = some f) :
      Course s (.receive i p)
        { s.advance f with
          inbox := Function.update s.inbox i false
          ticket := Function.update s.ticket i (some p) }

variable {P : PurgeRequest} {D : Deployment ι} {s s' : Site ι}

theorem course_of_step {a : SiteAction ι} (taken : P.step D s a = some s') :
    P.Course D s a s' := by
  cases a with
  | fleet a =>
      simp only [step, Option.map_eq_some_iff] at taken
      obtain ⟨f, taken, rfl⟩ := taken
      exact .fleet taken
  | receive i p =>
      simp only [step, Option.ite_none_right_eq_some, Option.map_eq_some_iff] at taken
      obtain ⟨waiting, f, taken, rfl⟩ := taken
      exact .receive waiting taken
  | post =>
      simp only [step] at taken
      split at taken
      · rename_i here
        rw [Option.ite_none_left_eq_some] at taken
        cases taken.2
        exact .post here taken.1
      · cases taken
  | logged =>
      simp only [step] at taken
      split at taken <;> cases taken
      rename_i here
      exact .logged here
  | scanned next keys =>
      simp only [step] at taken
      split at taken <;> cases taken
      rename_i here
      exact .scanned here
  | deleted count =>
      simp only [step] at taken
      split at taken <;> cases taken
      rename_i here
      exact .deleted here
  | failed =>
      simp only [step] at taken
      split at taken <;> cases taken
      · rename_i here
        exact .failed (Or.inl ⟨_, _, here⟩)
      · rename_i here
        exact .failed (Or.inr ⟨_, _, _, here⟩)
  | published subscribers =>
      simp only [step] at taken
      split at taken <;> cases taken
      rename_i here
      exact .published here

/-- Deleting keys is dropping each. -/
theorem steps_del (keys : List JsString) (f : State ι) :
    Transition.Steps D.step (fun _ _ => True) f { f with l2 := P.del f.l2 keys } := by
  induction keys generalizing f with
  | nil => exact .refl f
  | cons key keys ih =>
      by_cases own : ∃ k, P.l2KeyPrefix ++ k = encode key
      · obtain ⟨k, own⟩ := own
        have dropped : D.step f (.l2Drop k) =
            some { f with l2 := Function.update f.l2 k none } := rfl
        refine (Transition.Steps.single trivial dropped).trans ?_
        have same : P.del f.l2 (key :: keys) = P.del (Function.update f.l2 k none) keys := by
          funext l
          simp only [del, List.map_cons, List.mem_cons, ← own, List.append_cancel_left_eq]
          by_cases here : l = k
          · subst here
            simp
          · simp [here]
        rw [same]
        exact ih { f with l2 := Function.update f.l2 k none }
      · have same : P.del f.l2 (key :: keys) = P.del f.l2 keys := by
          funext l
          have other : P.l2KeyPrefix ++ l ≠ encode key := fun same => own ⟨l, same⟩
          simp only [del, List.map_cons, List.mem_cons, other, false_or]
        rw [same]
        exact ih f

/-- **To the fleet, a step of the site is a run of its own.** -/
theorem fleet_of_step {a : SiteAction ι} (taken : P.step D s a = some s') :
    Transition.Steps D.step (fun _ _ => True) s.fleet s'.fleet := by
  cases course_of_step taken with
  | fleet moved => exact .single trivial moved
  | receive waiting began => exact .single trivial began
  | deleted here => exact steps_del _ s.fleet
  | _ => exact .refl _

/-! ## The messages -/

/-- Messages are sent at the end, one to each replica. -/
def Delivery (s : Site ι) : Prop :=
  ∀ i, (s.inbox i = true → s.ticket i = none) ∧
    (s.inbox i = true ∨ s.ticket i ≠ none → ∃ n e, s.stage = .replied n e)

theorem delivery_step {a : SiteAction ι} (taken : P.step D s a = some s')
    (before : Delivery s) : Delivery s' := by
  intro i
  obtain ⟨once, sent⟩ := before i
  have unsent : (∀ n e, s.stage ≠ .replied n e) → s.inbox i = false ∧ s.ticket i = none := by
    intro other
    have absent : ¬ (s.inbox i = true ∨ s.ticket i ≠ none) := fun here => by
      obtain ⟨n, e, same⟩ := sent here
      exact other n e same
    rw [not_or, Bool.not_eq_true, not_not] at absent
    exact absent
  have silent : (∀ n e, s.stage ≠ .replied n e) → (s.inbox i = true → s.ticket i = none) ∧
      ∀ stage : Stage, s.inbox i = true ∨ s.ticket i ≠ none → ∃ n e, stage = .replied n e := by
    intro other
    obtain ⟨empty, none⟩ := unsent other
    simp [empty, none]
  cases course_of_step taken with
  | fleet moved => exact ⟨once, sent⟩
  | post here nonempty => exact (silent (by simp [here])).imp_right fun all => all _
  | logged here => exact (silent (by simp [here])).imp_right fun all => all _
  | scanned here => exact (silent (by simp [here])).imp_right fun all => all _
  | deleted here => exact (silent (by simp [here])).imp_right fun all => all _
  | failed here =>
      refine (silent ?_).imp_right fun all => all _
      rcases here with ⟨c, d, here⟩ | ⟨n, ks, d, here⟩ <;> simp [here]
  | published here =>
      exact ⟨fun _ => (unsent (by simp [here])).2, fun _ => ⟨_, _, rfl⟩⟩
  | @receive j p f waiting began =>
      refine ⟨fun full => ?_, fun _ => (before j).2 (Or.inl waiting)⟩
      by_cases mine : i = j
      · subst mine
        simp at full
      · simp only [Function.update_of_ne mine] at full ⊢
        exact once full

/-- A replica receives its message once. -/
theorem ticket_step {a : SiteAction ι} {i : ι} {p : ℕ} (taken : P.step D s a = some s')
    (delivery : Delivery s) (had : s.ticket i = some p) : s'.ticket i = some p := by
  cases course_of_step taken with
  | @receive j q f waiting began =>
      have apart : i ≠ j := by
        rintro rfl
        rw [(delivery i).1 waiting] at had
        cases had
      exact (Function.update_of_ne apart ..).trans had
  | _ => exact had

/-- The response is the end of the request. -/
theorem replied_step {a : SiteAction ι} (taken : P.step D s a = some s')
    (replied : ∃ n e, s.stage = .replied n e) : ∃ n e, s'.stage = .replied n e := by
  obtain ⟨n, e, here'⟩ := replied
  cases course_of_step taken with
  | fleet moved => exact ⟨n, e, here'⟩
  | receive waiting began => exact ⟨n, e, here'⟩
  | failed here => rcases here with ⟨c, d, here⟩ | ⟨m, ks, d, here⟩ <;> simp [here] at here'
  | _ => simp_all

/-- What is done stays done. -/
theorem done_step {a : SiteAction ι} (taken : P.step D s a = some s') (delivery : Delivery s)
    (done : P.Done s) : P.Done s' := by
  refine ⟨replied_step taken done.1, fun i => ?_⟩
  obtain ⟨p, ticket, returned⟩ := done.2 i
  exact ⟨p, ticket_step taken delivery ticket,
    (persists_of_steps (fleet_of_step taken)).1.subset returned⟩

/-! ## The deletion from L2 -/

/-- **What is supposed of the course of the request**: `purgeL2` succeeds, `SCAN` keeps its
promise, and no fetch for a matching key begins before the purge is done. -/
def Undisturbed (P : PurgeRequest) (D : Deployment ι) (s : Site ι) : SiteAction ι → Prop
  | .failed => False
  | .scanned next keys =>
      next = bytes "0" → ∀ k, s.steady k = true → k ∈ keys ++ s.returned
  | .fleet (.step t _) => ∀ th lead, s.fleet.threads t = some th → th.pc = .fetch lead →
      P.Matching (D.key th.req) → P.Done s
  | _ => True

/-- No thread for a matching key has a fetch out, or something fetched to store. -/
def Dry (P : PurgeRequest) (D : Deployment ι) (f : State ι) : Prop :=
  ∀ t th, f.threads t = some th → P.Matching (D.key th.req) → ¬ th.pc.OnFetch

theorem dry_step {f f' : State ι} {a : Action ι} (moved : D.step f a = some f')
    (idle : ∀ t input th lead, a = .step t input → f.threads t = some th → th.pc = .fetch lead →
      ¬ P.Matching (D.key th.req))
    (dry : P.Dry D f) : P.Dry D f' := by
  refine threads_step moved (fun t i req _ matched => ?_)
    (fun t th input o act _ running move still => ⟨fun matched => ?_, fun u pc born matched => ?_⟩)
    dry
  · unfold Deployment.entryPoint
    split <;> simp [Pc.OnFetch]
  · have still := still matched
    cases move with
    | fetch here => exact absurd matched (idle t input th _ act running here)
    | fetched here => exact absurd (by rw [here]; trivial) still
    | leadSuccess role here ok => exact absurd (by rw [here]; exact ok) still
    | grant here granted => exact absurd (by rw [here]; trivial) still
    | put here => exact absurd (by rw [here]; trivial) still
    | lead here absent =>
        change ¬ Pc.OnFetch (if _ then _ else _)
        split <;> simp [Pc.OnFetch]
    | _ => simp [Pc.OnFetch]
  · cases move with
    | triggerLead here absent unused => cases born; simp [Pc.OnFetch]
    | _ => cases born

/-- Where nothing is to be stored, no matching key gets into L2. -/
theorem l2_of_dry {f f' : State ι} {a : Action ι} (moved : D.step f a = some f')
    (dry : P.Dry D f) {k : ByteString} (matched : P.Matching k) (held : f'.l2 k ≠ none) :
    f.l2 k ≠ none := by
  obtain ⟨blob, held⟩ := Option.ne_none_iff_exists'.mp held
  have old : f.l2 k = some blob := by
    cases turn_of_step moved with
    | @thread t input th o running move =>
        rcases l2_commit held with old | ⟨rfl, write⟩
        · exact old
        · cases move with
          | l2Put here encoded => exact absurd (by rw [here]; trivial) (dry t th running matched)
          | _ => cases write
    | @l2Drop key =>
        change Function.update f.l2 key none k = some blob at held
        by_cases dropped : k = key
        · rw [dropped, Function.update_self] at held
          cases held
        · rwa [Function.update_of_ne dropped] at held
    | _ => exact held
  rw [old]
  simp

/-- A key in L2 is still ahead of the scan: it has been there since the scan began, and has
not been returned, unless it is about to be deleted. -/
def Ahead (P : PurgeRequest) (k : ByteString) (steady : Prop) (returned : List ByteString) :
    Stage → Prop
  | .logging => True
  | .scanning _ _ => steady ∧ k ∉ returned
  | .deleting next toDelete _ => steady ∧
      (k ∈ returned → P.l2KeyPrefix ++ k ∈ toDelete.map encode) ∧
      (next = bytes "0" → k ∈ returned)
  | .idle | .publishing _ | .replied _ _ => False

/-- **The matching keys that are still in L2** are visible, and ahead of the scan. -/
def Covered (P : PurgeRequest) (s : Site ι) : Prop :=
  ∀ k, P.Matching k → s.fleet.l2 k ≠ none →
    P.Visible k ∧ P.Ahead k (s.steady k = true) s.returned s.stage

omit [DecidableEq ι] in
/-- Losing other keys leaves a key where it is. -/
theorem Ahead.advance {k : ByteString} (ahead : P.Ahead k (s.steady k = true) s.returned s.stage)
    {f : State ι} (held : f.l2 k ≠ none) :
    P.Ahead k ((s.advance f).steady k = true) s.returned s.stage := by
  have steady : s.steady k = true → (s.steady k && (f.l2 k).isSome) = true := by
    intro steady
    rw [steady, Bool.true_and, Option.isSome_iff_ne_none]
    exact held
  change P.Ahead k ((s.steady k && (f.l2 k).isSome) = true) s.returned s.stage
  cases stage : s.stage <;> rw [stage] at ahead
  · exact ahead
  · exact ahead
  · exact ahead.imp_left steady
  · exact ahead.imp_left steady
  · exact ahead
  · exact ahead

/-- What is behind the scan is not in L2 when it is through. -/
theorem ahead_next {k next : ByteString} {steady : Prop} {returned : List ByteString}
    (deleted : ℕ) (here : steady) (behind : k ∉ returned)
    (through : next = bytes "0" → k ∈ returned) :
    P.Ahead k steady returned (Stage.next next deleted) := by
  unfold Stage.next
  split
  · rename_i last
    exact absurd (through last) behind
  · exact ⟨here, behind⟩

/-- **A visible key that is left stays ahead of the scan**, as long as nobody stores it. -/
theorem ahead_step {a : SiteAction ι} {k : ByteString} (taken : P.step D s a = some s')
    (visible : P.Visible k) (succeeds : a ≠ .failed)
    (promised : ∀ next keys, a = .scanned next keys → next = bytes "0" →
      s.steady k = true → k ∈ keys ++ s.returned)
    (held : s'.fleet.l2 k ≠ none)
    (ahead : P.Ahead k (s.steady k = true) s.returned s.stage) :
    P.Ahead k (s'.steady k = true) s'.returned s'.stage := by
  cases course_of_step taken with
  | fleet moved => exact ahead.advance held
  | receive waiting began => exact ahead.advance held
  | post here nonempty =>
      rw [here] at ahead
      cases ahead
  | logged here => exact ⟨Option.isSome_iff_ne_none.mpr held, List.not_mem_nil⟩
  | @scanned next cursor keys deleted here =>
      rw [here] at ahead
      obtain ⟨steady, new⟩ := ahead
      -- A visible key that the page returns is among those to delete.
      have named : k ∈ keys → P.l2Key k ∈ P.toDelete keys := fun mem =>
        List.mem_filter.mpr ⟨List.mem_map_of_mem mem, visible.1⟩
      simp only
      split
      · rename_i nothing
        have behind : k ∉ keys ++ s.returned := by
          rw [List.mem_append]
          rintro (mem | mem)
          · exact absurd (named mem) (by rw [nothing]; exact List.not_mem_nil)
          · exact new mem
        exact ahead_next deleted steady behind fun last => promised _ _ rfl last steady
      · refine ⟨steady, fun mem => ?_, fun last => promised _ _ rfl last steady⟩
        rw [← visible.2]
        exact List.mem_map_of_mem (named ((List.mem_append.mp mem).resolve_right new))
  | @deleted count deleted next toDelete here =>
      -- A key that is left was there before, and is not among the deleted.
      rw [here] at ahead
      obtain ⟨steady, named, through⟩ := ahead
      have behind : k ∉ s.returned := fun mem => held (if_pos (named mem))
      have steady' : (s.steady k && (P.del s.fleet.l2 toDelete k).isSome) = true := by
        rw [steady, Bool.true_and, Option.isSome_iff_ne_none]
        exact held
      exact ahead_next _ steady' behind through
  | failed here => exact absurd rfl succeeds
  | published here =>
      rw [here] at ahead
      cases ahead

/-- **The scan stays covered.** -/
theorem covered_step {a : SiteAction ι} (taken : P.step D s a = some s')
    (meets : P.Undisturbed D s a) (dry : P.Dry D s.fleet) (covered : P.Covered s) :
    P.Covered s' := by
  intro k matched held
  have left : s.fleet.l2 k ≠ none := by
    cases course_of_step taken with
    | fleet moved => exact l2_of_dry moved dry matched held
    | receive waiting began => exact l2_of_dry began dry matched held
    | deleted here => exact P.of_del_ne_none held
    | _ => exact held
  obtain ⟨visible, ahead⟩ := covered k matched left
  refine ⟨visible, ahead_step taken visible ?_ ?_ held ahead⟩
  · rintro rfl
    exact meets
  · rintro next keys rfl last steady
    exact meets last k steady

end PurgeRequest

end EdgeCache

import EdgeCache.Lifetimes

/-!
# The age a hit reports

A hit from L1 reports, in whole seconds, how long ago its entry was stored.  That is how long ago
the copy was fetched only while `storedAt` is the time of the fetch, and it is set anew twice: a
promotion sets it to the time of the read from L2, which also answers `Age: 0` whatever the age of
what it read, and a waiter sets it to the time it gets to store.  An entry that is stored a
nanosecond late reports an age that is a second short at some moment of its lifetime
(`CacheEntry.age_exact_iff`).

**Main result.**  Where L2 is read, and waiters store, at the very clock reading at which the copy
was fetched, every hit tells its age (`tellsAge_of_run`).
-/

namespace EdgeCache

variable {ι : Type} [DecidableEq ι] {D : Deployment ι} {guard : State ι → Action ι → Prop}
  {start final s : State ι}

open Transition

/-! ## Ages in whole seconds -/

/-- Less than a second is lost where an age is cut to whole seconds. -/
theorem lt_tdiv_second (x : ℤ) : x - second < x.tdiv second * second := by
  have rest := Int.tmod_lt_of_pos x (show 0 < second by decide)
  rw [Int.tdiv_mul_self]
  omega

/-- Reading back a printed integer gives no less, unless a `long long` cannot hold it. -/
theorem le_strtoll_intToString {n : ℤ} (high : n < 2 ^ 63) : n ≤ strtoll (intToString n) := by
  by_cases low : -2 ^ 63 ≤ n
  · exact (strtoll_intToString low high).ge
  · exact (not_le.mp low).le.trans (le_max_left _ _)

/-- **An entry tells its age at every moment of its lifetime exactly if it was stored no later than
the copy was fetched.** -/
theorem CacheEntry.age_exact_iff {e : CacheEntry} {time : ℤ} (alive : 0 < e.ttlSeconds.toNat) :
    (∀ now, e.storedAt ≤ now → e.isFresh now = true →
        now - time - second < (now - e.storedAt).tdiv second * second) ↔ e.storedAt ≤ time := by
  refine ⟨fun tells => ?_, fun early now _ _ => ?_⟩
  · -- The last moment at which the age still reads zero.
    have fresh : e.isFresh (e.storedAt + second - 1) = true :=
      CacheEntry.isFresh_of_lt (by simp only [second]; omega) (by simp only [second]; omega)
    have told := tells _ (by simp only [second]; omega) fresh
    rw [show e.storedAt + second - 1 - e.storedAt = second - 1 by omega,
      show (second - 1).tdiv second = 0 by decide] at told
    omega
  · have lost := lt_tdiv_second (now - e.storedAt)
    omega

/-! ## Telling the age -/

/-- **Every hit tells its age**: a copy that was fetched at `time` is served, at the clock reading
the answer was decided on, with an `Age` of which less than a second is missing. -/
def TellsAge (D : Deployment ι) (s : State ι) : Prop :=
  ∀ t i req resp hit, .answered t i req resp hit ∈ s.trace →
    resp.header (bytes "X-Cache") = bytes "HIT" →
    ∃ now time ttl age, hit = some now ∧ Stored D s.trace (D.key req) resp.content time ttl ∧
      resp.headers.find? (bytes "Age") = some age ∧ now - time - second < strtoll age * second

/-- **What is read from L2, and what a waiter stores for some time, was fetched just now.** -/
def Undelayed (D : Deployment ι) (s : State ι) : Action ι → Prop
  | .step t input => ∀ th, s.threads t = some th →
      (∀ lead blob e, th.pc = .l2Get lead → input.reachable = true →
        s.l2 (D.key th.req) = some blob →
        RedisL2Cache.decode blob (RedisL2Cache.nowWallMs s.clock) s.clock = some e →
        ∃ ttl, Stored D s.trace (D.key th.req) e.content s.clock ttl) ∧
      ∀ n resp d, th.pc = .maybeStore n resp true → D.decision th.req resp = some d →
        0 < d.ttlSeconds.toNat → ∃ ttl, Stored D s.trace (D.key th.req) resp.content s.clock ttl
  | _ => True

/-- The statements of the ages: what is in L1 was stored no later than it was fetched. -/
def ages (D : Deployment ι) (trace : List (Event ι)) : Labels ι where
  Entry _ k e := 0 ≤ e.storedAt ∧ (0 < e.ttlSeconds.toNat →
    ∃ time ttl, Stored D trace k e.content time ttl ∧ e.storedAt ≤ time)
  Blob _ _ := True
  Own _ _ _ _ := True
  Slot _ _ _ _ _ := True
  Answer _ _ req resp hit := resp.header (bytes "X-Cache") = bytes "HIT" →
    ∃ now time ttl age, hit = some now ∧ Stored D trace (D.key req) resp.content time ttl ∧
      resp.headers.find? (bytes "Age") = some age ∧ now - time - second < strtoll age * second

section Headers

omit [DecidableEq ι]

/-- Decorating a response leaves its age alone. -/
theorem find?_Age_decorate (id xcache reason : ByteString) (resp : HttpResponse) :
    (decorate id resp xcache reason).headers.find? (bytes "Age") =
      resp.headers.find? (bytes "Age") := by
  rw [find?_decorate, if_neg (fun same => absurd same.2 (by decide)), if_neg (by decide),
    if_neg (by decide)]

theorem find?_Age_hitResponse (id : ByteString) (e : CacheEntry) (now : ℤ) :
    (hitResponse id e now).headers.find? (bytes "Age") =
      some (intToString ((now - e.storedAt).tdiv second)) := by
  rw [hitResponse, find?_Age_decorate]
  exact Headers.find?_insert_self ..

theorem find?_Age_l2Response (id : ByteString) (e : CacheEntry) :
    (l2Response id e).headers.find? (bytes "Age") = some (bytes "0") := by
  rw [l2Response, HttpResponse.setHeader, Headers.find?_insert_of_ne _ _ (by decide),
    find?_Age_decorate]
  exact Headers.find?_insert_self ..

end Headers

/-- **The ages are closed** where nothing is stored late. -/
theorem ages_closed (onTime : ∀ s, Steps D.step guard start s → OnTime D s)
    (undelayed : ∀ s a, guard s a → Undelayed D s a) :
    (ages D final.trace).Closed D guard start final where
  hit {s t th input now e} scene here entry fresh _ := by
    have alive : 0 < e.ttlSeconds.toNat := by
      rw [CacheEntry.isFresh, decide_eq_true_eq, UInt64.lt_iff_toNat_lt] at fresh
      exact Nat.zero_lt_of_lt fresh
    obtain ⟨time, ttl, stored, early⟩ := entry.2 alive
    have known := onTime s scene.front
    have read : now ≤ (s.clock : ℤ) := by
      have carried := known.threads t th scene.running
      rw [here] at carried
      exact carried
    -- The seconds that are printed fit, so a client reads back what was printed.
    have small : (now - e.storedAt).tdiv second < 2 ^ 63 := by
      have begun := entry.1
      have bounded := known.clock
      have parts := Int.mul_tdiv_add_tmod (now - e.storedAt) second
      have rest := Int.lt_tmod_of_pos (now - e.storedAt) (show 0 < second by decide)
      simp only [second] at parts rest ⊢
      omega
    refine ⟨now, time, ttl, _, rfl, ?_, find?_Age_hitResponse .., ?_⟩
    · rw [hitResponse_content]
      exact stored
    · calc now - time - second ≤ now - e.storedAt - second := by omega
        _ < (now - e.storedAt).tdiv second * second := lt_tdiv_second _
        _ ≤ strtoll (intToString ((now - e.storedAt).tdiv second)) * second :=
          Int.mul_le_mul_of_nonneg_right (le_strtoll_intToString small) (by decide)
  stale _ _ := not_hit (by decide)
  decoded {s t th input lead blob e} scene here reached held _ got := by
    have moment := RedisL2Cache.storedAt_of_decode got
    obtain ⟨ttl, now⟩ := (undelayed _ _ scene.meets th scene.running).1 lead blob e here reached
      held got
    have stored := now.mono scene.past.subset
    refine ⟨⟨by rw [moment]; exact Int.natCast_nonneg _, fun _ => ⟨_, ttl, stored, moment.le⟩⟩,
      fun n _ => ?_⟩
    -- `Age: 0` is right, for the response was stored at this very moment.
    have answer : (ages D final.trace).Answer t th.replica th.req
        (l2Response (D.replicaId th.replica) e) (some e.storedAt) := fun _ => by
      refine ⟨_, s.clock, ttl, _, rfl, ?_, find?_Age_l2Response .., ?_⟩
      · rw [l2Response_content]
        exact stored
      · rw [moment, show strtoll (bytes "0") = 0 by decide]
        simp only [second]
        omega
    exact Labels.published_of_slot trivial fun _ => answer
  fetched _ _ _ _ := trivial
  pass _ _ := not_hit (by decide)
  passFailure _ _ := not_hit (by decide)
  failure {s t th input lead rejected b} scene failed n _ := by
    have hopeless := failed.hopeless (scene.hopeless t th scene.running)
    exact Labels.published_of_slot trivial fun _ => not_hit_failureResponse hopeless
  success _ _ _ _ _ _ := Labels.published_of_slot trivial not_hit_fetchedResponse
  entry {s t th input lead resp d} scene here _ _ granted := by
    have stored := (onTime s scene.front).stored scene.running here scene.past.subset granted
    exact ⟨Int.natCast_nonneg _, fun _ => ⟨s.clock, _, stored, le_rfl⟩⟩
  encoded _ _ _ _ := trivial
  placeholder _ _ _ _ := trivial
  coalesced _ _ _ _ := not_hit (by decide)
  waiterEntry {s t th input n resp d} scene here _ _ granted _ := by
    refine ⟨Int.natCast_nonneg _, fun alive => ?_⟩
    obtain ⟨ttl, stored⟩ := (undelayed _ _ scene.meets th scene.running).2 n resp d here granted alive
    exact ⟨s.clock, ttl, stored.mono scene.past.subset, le_rfl⟩

/-- **Where nothing is stored late, every hit tells its age.** -/
theorem tellsAge_of_run (D : Deployment ι) {clock : ℕ} {acts : List (Action ι)}
    (fits : clock < 2 ^ 63)
    (meets : Meets D.step (fun s a => Instant s a ∧ Undelayed D s a) (D.initial clock) acts)
    (ran : run D.step (D.initial clock) acts = some s) : TellsAge D s := by
  have steps := Steps.of_run meets ran
  have flow := flow_of_run (ages_closed
    (fun _ front => onTime_of_steps fits (fun _ _ meets => meets.1) front)
    fun _ _ meets => meets.2) steps
  exact flow.answers

/-! ## An age that starts anew -/

/-- A page is stored on one replica, and after some time a request on the other replica reads it
from L2; some time later the page is asked for there once more. -/
def rereadRun (before after : ℕ) : List (Action Bool) :=
  let takes (n t : ℕ) := List.replicate n
    (.step t (okInput (bytes "ETag") (bytes "1") (bytes "x")) : Action Bool)
  .start 0 false (getRequest (bytes "/a")) :: takes 13 0 ++ .tick before ::
    .start 1 true (getRequest (bytes "/a")) :: takes 7 1 ++ .tick after ::
    .start 2 true (getRequest (bytes "/a")) :: takes 2 2

/-- Whether a page fetched at the start is answered as a hit after two seconds with the age zero. -/
def answeredYoung (s : State Bool) : Bool :=
  (s.trace.any fun
    | .answered _ _ _ resp hit =>
        resp.header (bytes "X-Cache") = bytes "HIT" ∧ hit = some (2 * second) ∧
          resp.headers.find? (bytes "Age") = some (bytes "0")
    | _ => false) &&
  s.trace.all fun
    | .fetched _ _ _ _ time => time = 0
    | _ => true

/-- **A read from L2 makes a copy young again**: two seconds after the only fetch the page is
answered with the age zero. -/
theorem not_tellsAge_rereadRun :
    ∃ s, run pairDeployment.step (pairDeployment.initial 0) (rereadRun 2000000000 0) = some s ∧
      Meets pairDeployment.step Instant (pairDeployment.initial 0) (rereadRun 2000000000 0) ∧
      ¬ TellsAge pairDeployment s := by
  obtain ⟨s, ran, young⟩ := exists_of_run
    (show (run pairDeployment.step (pairDeployment.initial 0) (rereadRun 2000000000 0)).any
      answeredYoung = true by decide +kernel)
  have instant := meets_instant
    (show passes pairDeployment.step isInstant (pairDeployment.initial 0)
      (rereadRun 2000000000 0) = true by decide +kernel)
  refine ⟨s, ran, instant, fun tells => ?_⟩
  rw [answeredYoung, Bool.and_eq_true, List.any_eq_true, List.all_eq_true] at young
  obtain ⟨⟨e, mem, matched⟩, early⟩ := young
  cases e with
  | answered t i req resp hit =>
      obtain ⟨marked, reading, zero⟩ := of_decide_eq_true matched
      obtain ⟨now, time, ttl, age, rfl, ⟨u, j, req', result, d, fetched, -⟩, told, near⟩ :=
        tells t i req resp hit mem marked
      have start : time = 0 := of_decide_eq_true (early _ fetched)
      rw [zero, Option.some.injEq] at told
      rw [Option.some.injEq] at reading
      rw [← told, reading, start, show strtoll (bytes "0") = 0 by decide] at near
      simp only [second] at near
      omega
  | _ => cases matched

/-- Whether the content was fetched for the key and stored just now. -/
def justStored (s : State Bool) (k : ByteString) (content : Int32 × ByteString) : Bool :=
  s.trace.any fun
    | .granted u i req resp _ time =>
        time = s.clock ∧ pairDeployment.key req = k ∧ resp.content = content ∧
          s.trace.any fun
            | .fetched u' i' req' result time' =>
                u' = u ∧ i' = i ∧ req' = req ∧ time' = time ∧ result.ok = true ∧
                  result.response = resp
            | _ => false
    | _ => false

theorem stored_of_justStored {s : State Bool} {k : ByteString} {content : Int32 × ByteString}
    (passed : justStored s k content = true) :
    ∃ ttl, Stored pairDeployment s.trace k content s.clock ttl := by
  obtain ⟨e, granted, matched⟩ := List.any_eq_true.mp passed
  cases e with
  | granted u i req resp d time =>
      obtain ⟨rfl, key, same, found⟩ := of_decide_eq_true matched
      obtain ⟨e, fetched, matched⟩ := List.any_eq_true.mp found
      cases e with
      | fetched u' i' req' result time' =>
          obtain ⟨rfl, rfl, rfl, rfl, ok, rfl⟩ := of_decide_eq_true matched
          exact ⟨_, _, _, _, result, d, fetched, granted, key, ok, same, rfl⟩
      | _ => cases matched
  | _ => cases matched

/-- Whether what is read from L2, and what a waiter stores, was stored just now. -/
def isUndelayed (s : State Bool) : Action Bool → Bool
  | .step t input =>
      (s.threads t).all fun th =>
        match th.pc with
        | .l2Get _ =>
            !input.reachable || (s.l2 (pairDeployment.key th.req)).all fun blob =>
              (RedisL2Cache.decode blob (RedisL2Cache.nowWallMs s.clock) s.clock).all fun e =>
                justStored s (pairDeployment.key th.req) e.content
        | .maybeStore _ resp true => justStored s (pairDeployment.key th.req) resp.content
        | _ => true
  | _ => true

theorem undelayed_of_isUndelayed (s : State Bool) (a : Action Bool)
    (passed : isUndelayed s a = true) : Undelayed pairDeployment s a := by
  cases a with
  | step t input =>
      intro th running
      rw [isUndelayed, running, Option.all_some] at passed
      refine ⟨fun lead blob e here reached held got => ?_, fun n resp d here _ _ => ?_⟩
      · simp only [here, reached, held, got, Option.all_some, Bool.not_true, Bool.false_or] at passed
        exact stored_of_justStored passed
      · simp only [here] at passed
        exact stored_of_justStored passed
  | _ => trivial

/-- A copy that is read from L2 just after it was fetched tells its age three and a half seconds
later. -/
theorem tellsAge_rereadRun :
    ∃ s, run pairDeployment.step (pairDeployment.initial 0) (rereadRun 0 3500000000) = some s ∧
      TellsAge pairDeployment s := by
  have runs : (run pairDeployment.step (pairDeployment.initial 0)
      (rereadRun 0 3500000000)).isSome = true := by decide +kernel
  obtain ⟨s, ran⟩ := Option.isSome_iff_exists.mp runs
  have instant := meets_instant
    (show passes pairDeployment.step isInstant (pairDeployment.initial 0)
      (rereadRun 0 3500000000) = true by decide +kernel)
  have undelayed := meets_of_passes undelayed_of_isUndelayed
    (show passes pairDeployment.step isUndelayed (pairDeployment.initial 0)
      (rereadRun 0 3500000000) = true by decide +kernel)
  exact ⟨s, ran, tellsAge_of_run pairDeployment (by decide) (instant.and undelayed) ran⟩

end EdgeCache

import EdgeCache.ControlPlane

/-!
# What a purge reaches in L2

The keys of L2 are bytes; the control plane sees them decoded, picks those whose path matches the
pattern, and names them to Redis encoded again.  A key goes away if it comes through this unharmed,
and if the pattern still matches its path when both are strings of UTF-16.

* `reaches_iff_visible` — `purgeL2` takes away a key that is there all along, in whatever batches
  `SCAN` returns the keys, **exactly if the key is visible**.
* `reaches_iff` — for a pattern that matches the path of the request, exactly if the key is
  well-formed UTF-8 and no surrogate is alone in the pattern.
-/

namespace EdgeCache

open Utf8 Transition

namespace PurgeRequest

variable {ι : Type} [DecidableEq ι] (D : Deployment ι)

/-- **The scan runs without an error**, `SCAN` returns every key that is there all along, and nobody
but the purge changes the key. -/
def Alone (k : ByteString) (s : Site ι) : SiteAction ι → Prop
  | .failed => False
  | .scanned next keys =>
      next = bytes "0" → ∀ k, s.steady k = true → k ∈ keys ++ s.returned
  | .fleet a => ∀ f, D.step s.fleet a = some f → f.l2 k = s.fleet.l2 k
  | _ => True

/-- **`purgeL2` reaches a key**: where it is in Redis when the scan begins, it is not there any more
when the scan is over. -/
def Reaches (P : PurgeRequest) (k : ByteString) : Prop :=
  ∀ s acts s' n, s.stage = .logging → s.fleet.l2 k ≠ none →
    Meets (P.step D) (Alone D k) s acts → run (P.step D) s acts = some s' →
    s'.stage = .publishing n → s'.fleet.l2 k = none

variable {D} {P : PurgeRequest} {s s' : Site ι} {k : ByteString}

/-- Nobody stores the key anew. -/
theorem held_of_step {a : SiteAction ι} (taken : P.step D s a = some s') (alone : Alone D k s a)
    (held : s'.fleet.l2 k ≠ none) : s.fleet.l2 k ≠ none := by
  cases course_of_step taken with
  | fleet moved =>
      rw [← alone _ moved]
      exact held
  | @receive i p f waiting began =>
      have same : f.l2 = s.fleet.l2 := by
        cases turn_of_step began with
        | purgeStart unused => rfl
      rw [← same]
      exact held
  | deleted here => exact P.of_del_ne_none held
  | _ => exact held

/-- The key is ahead of the scan, as long as it is there. -/
def StillAhead (P : PurgeRequest) (k : ByteString) (s : Site ι) : Prop :=
  s.fleet.l2 k ≠ none → P.Ahead k (s.steady k = true) s.returned s.stage

theorem stillAhead_step {a : SiteAction ι} (visible : P.Visible k)
    (taken : P.step D s a = some s') (alone : Alone D k s a) (before : StillAhead P k s) :
    StillAhead P k s' := by
  intro held
  refine ahead_step taken visible ?_ ?_ held (before (held_of_step taken alone held))
  · rintro rfl
    exact alone
  · rintro next keys rfl last steady
    exact alone last k steady

/-- **A visible key is reached**, in whatever batches the keys come. -/
theorem reaches_of_visible (visible : P.Visible k) : Reaches D P k := by
  intro s acts s' n start _ meets ran ended
  have ahead : StillAhead P k s' := (Steps.of_run meets ran).invariant
    (fun _ _ _ alone taken before => stillAhead_step visible taken alone before)
    (fun _ => by rw [start]; trivial)
  by_contra held
  have never := ahead held
  rw [ended] at never
  exact never

/-! ### A scan of one key -/

/-- The scan is about to begin, and Redis has one key. -/
def oneKey (D : Deployment ι) (k : ByteString) : Site ι where
  fleet := { D.initial 0 with l2 := fun l => if l = k then some [] else none }
  stage := .logging
  inbox := fun _ => false
  ticket := fun _ => none
  steady := fun _ => false
  returned := []

/-- The scan returns it at once. -/
def oneScan (ι : Type) (k : ByteString) : List (SiteAction ι) :=
  [.logged, .scanned (bytes "0") [k]]

/-- Where the scan has got then. -/
def scannedKey (P : PurgeRequest) (D : Deployment ι) (k : ByteString) : Site ι :=
  { oneKey D k with
    stage := if P.toDelete [k] = [] then .publishing 0
      else .deleting (bytes "0") (P.toDelete [k]) 0
    steady := fun l => ((oneKey D k).fleet.l2 l).isSome
    returned := [k] }

/-- Where the deletion leads from there. -/
def deletedKey (P : PurgeRequest) (D : Deployment ι) (k : ByteString) : Site ι :=
  { (scannedKey P D k).advance
      { (scannedKey P D k).fleet with
        l2 := P.del (scannedKey P D k).fleet.l2 (P.toDelete [k]) } with
    stage := .publishing 1 }

theorem run_oneScan :
    run (P.step D) (oneKey D k) (oneScan ι k) = some (scannedKey P D k) := by
  simp only [oneScan, run_cons, run_nil, step, oneKey, Option.bind_some, scannedKey, Stage.next,
    if_true, List.append_nil]

theorem meets_oneScan (more : List (SiteAction ι))
    (later : Meets (P.step D) (Alone D k) (scannedKey P D k) more) :
    Meets (P.step D) (Alone D k) (oneKey D k) (oneScan ι k ++ more) := by
  refine ⟨trivial, fun s₁ first => ⟨fun _ l steady => ?_, fun s₂ second => ?_⟩⟩
  · cases first
    have held : ((oneKey D k).fleet.l2 l).isSome = true := steady
    by_contra other
    have ne : l ≠ k := by
      rintro rfl
      simp at other
    rw [oneKey] at held
    simp [ne] at held
  · have ran := @run_oneScan _ _ D P k
    rw [oneScan, run_cons, first, Option.bind_some, run_cons, second, Option.bind_some, run_nil,
      Option.some.injEq] at ran
    rwa [ran]

/-- **What is reached is visible.** -/
theorem visible_of_reaches (reaches : Reaches D P k) : P.Visible k := by
  have there : (oneKey D k).fleet.l2 k ≠ none := by simp [oneKey]
  by_cases none_ : P.toDelete [k] = []
  · -- The key is not picked, and stays.
    have ended : (scannedKey P D k).stage = .publishing 0 := if_pos none_
    have meets := @meets_oneScan _ _ D P k [] trivial
    have gone := reaches _ _ _ 0 rfl there meets (by rw [List.append_nil]; exact run_oneScan) ended
    exact absurd gone there
  · -- It is picked, and goes away if it is named as it is.
    have picked : l2PathMatches (decode P.l2KeyPrefix) (P.l2Key k) P.pattern = true := by
      by_contra other
      exact none_ (List.filter_cons_of_neg other)
    have one : P.toDelete [k] = [P.l2Key k] := List.filter_cons_of_pos picked
    refine ⟨picked, ?_⟩
    by_contra renamed
    have stage : (scannedKey P D k).stage = .deleting (bytes "0") (P.toDelete [k]) 0 :=
      if_neg none_
    have ran : run (P.step D) (oneKey D k) (oneScan ι k ++ [.deleted 1]) =
        some (deletedKey P D k) := by
      rw [run_append, run_oneScan, Option.bind_some, run_cons]
      simp only [step, stage, Stage.next, if_true, Nat.zero_add]
      rfl
    have meets := @meets_oneScan _ _ D P k [.deleted 1] ⟨trivial, fun _ _ => trivial⟩
    have gone := reaches _ _ _ 1 rfl there meets ran rfl
    have left : (deletedKey P D k).fleet.l2 k = (oneKey D k).fleet.l2 k := by
      change P.del (oneKey D k).fleet.l2 (P.toDelete [k]) k = _
      rw [one]
      exact if_neg fun mem => renamed (List.mem_singleton.mp mem).symm
    exact there (left.symm.trans gone)

/-- **`purgeL2` reaches the visible keys, and no others.** -/
theorem reaches_iff_visible : Reaches D P k ↔ P.Visible k :=
  ⟨visible_of_reaches, reaches_of_visible⟩

/-! ## Which keys are visible -/

section Patterns

variable {p : JsString} {path : ByteString}

theorem encode_eq_iff_of_ascii {s : ByteString} (ascii : Ascii s) :
    encode p = s ↔ p = s.map unit := by
  constructor
  · exact eq_of_encode_eq_ascii ascii
  · rintro rfl
    rw [← decode_of_ascii ascii, encode_decode_of_ascii ascii]

/-- A start and a star. -/
theorem encode_star (q : JsString) : encode (q ++ [unit STAR]) = encode q ++ [STAR] :=
  encode_append (by decide) q []

theorem wellFormed_star {q : JsString} : WellFormed (q ++ [unit STAR]) ↔ WellFormed q := by
  rw [WellFormed, encode_star, decode_append _ (by decide), WellFormed]
  exact List.append_left_inj _

/-- **A pattern that matches the bytes of a path matches its units** exactly if it matches
everything, or no surrogate is alone in it. -/
theorem l2PathMatches_iff {l2KeyPrefix key : JsString}
    (shown : l2Path (key.drop l2KeyPrefix.length) = decode path)
    (matched : RuleStore.patternMatches (encode p) path = true) :
    l2PathMatches l2KeyPrefix key p = true ↔
      (p = [unit STAR] ∨ p = (bytes "/*").map unit) ∨ WellFormed p := by
  have star : encode p = [42] ↔ p = [unit STAR] :=
    encode_eq_iff_of_ascii (show Ascii [42] by decide +kernel)
  have slash : encode p = bytes "/*" ↔ p = (bytes "/*").map unit :=
    encode_eq_iff_of_ascii (show Ascii (bytes "/*") by decide +kernel)
  rw [l2PathMatches, shown]
  unfold RuleStore.patternMatches at matched
  by_cases all : p = [unit STAR] ∨ p = (bytes "/*").map unit
  · simp only [all, if_true, true_or]
  · have some_ : ¬ (encode p = [42] ∨ encode p = bytes "/*") := by rwa [star, slash]
    rw [if_neg some_] at matched
    simp only [all, if_false, false_or]
    by_cases ends : p.getLast? = some (unit STAR)
    · obtain ⟨q, rfl⟩ := List.getLast?_eq_some_iff.mp ends
      rw [encode_star, List.getLast?_concat, if_pos rfl, List.dropLast_concat,
        List.isPrefixOf_iff_prefix] at matched
      rw [if_pos ends, List.dropLast_concat, List.isPrefixOf_iff_prefix,
        prefix_decode_iff matched, wellFormed_star]
    · have other : (encode p).getLast? ≠ some 42 := fun last =>
        ends (getLast?_of_encode (by decide) last)
      rw [if_neg other, beq_iff_eq] at matched
      rw [if_neg ends, beq_iff_eq, WellFormed, matched]

end Patterns

/-- **The pattern arrives at the key as it is meant**: it matches everything, or no surrogate is alone
in it.  Behind a host with a bar in it the control plane takes something else for the path. -/
def ArrivesAt (P : PurgeRequest) (r : HttpRequest) (host : ByteString) : Prop :=
  if BAR ∈ host then
    l2PathMatches (decode P.l2KeyPrefix) (P.l2Key (CacheKey.fromRequest r host)) P.pattern = true
  else (P.pattern = [unit STAR] ∨ P.pattern = (bytes "/*").map unit) ∨ WellFormed P.pattern

/-- **`purgeL2` reaches the key of a request** whose path the pattern matches exactly if the key is
well-formed UTF-8 and the pattern arrives at it as it is meant. -/
theorem reaches_iff {buffer rest : ByteString} {r : HttpRequest}
    (accepted : parse buffer = .complete r rest) (cacheable : r.isCacheableMethod = true)
    (matched : RuleStore.patternMatches P.message r.path = true) (host : ByteString) :
    Reaches D P (CacheKey.fromRequest r host) ↔
      Valid (P.l2KeyPrefix ++ CacheKey.fromRequest r host) ∧ ArrivesAt P r host := by
  rw [reaches_iff_visible, Visible, and_comm, Valid, l2Key, ArrivesAt]
  refine and_congr_right fun _ => ?_
  by_cases bar : BAR ∈ host
  · rw [if_pos bar, l2Key]
  · rw [if_neg bar]
    exact l2PathMatches_iff
      (l2Path_key P.l2KeyPrefix cacheable bar (plainPath_of_parse accepted)) matched

/-- A purge of everything under a start. -/
def purgeUnder (start : ByteString) : PurgeRequest where
  l2KeyPrefix := bytes "l2:"
  pattern := decode start ++ [unit STAR]

/-- Below `/é` the key of `/éa` is reached. -/
theorem reaches_accented :
    Reaches pairDeployment (purgeUnder [47, 0xC3, 0xA9])
      (CacheKey.fromRequest (plainGet [47, 0xC3, 0xA9, 97] []) (bytes "origin")) :=
  (reaches_iff
    (show parse (bytes "GET /" ++ [0xC3, 0xA9, 97] ++ bytes " HTTP/1.1\r\n\r\n") =
      .complete (plainGet [47, 0xC3, 0xA9, 97] []) [] by decide +kernel)
    (by decide +kernel) (by decide +kernel) _).mpr
    ⟨by decide +kernel, (if_neg (by decide +kernel)).mpr (.inr (by decide +kernel))⟩

/-- A byte that no character starts with is shown as U+FFFD, and the key is named to Redis with that
in it. -/
theorem not_reaches_latin :
    parse (bytes "GET /a" ++ [0xE9] ++ bytes " HTTP/1.1\r\n\r\n") =
        .complete (plainGet [47, 97, 0xE9] []) [] ∧
      RuleStore.patternMatches (purgeUnder (bytes "/a")).message (plainGet [47, 97, 0xE9] []).path =
        true ∧
      ¬ Reaches pairDeployment (purgeUnder (bytes "/a"))
        (CacheKey.fromRequest (plainGet [47, 97, 0xE9] []) (bytes "origin")) := by
  refine ⟨by decide +kernel, by decide +kernel, fun reaches => ?_⟩
  exact absurd (visible_of_reaches reaches).2 (by decide +kernel)

end PurgeRequest

end EdgeCache

import EdgeCache.CacheRuns

/-!
# Lifetimes and the sweeper

`isServeableStale` adds the two lifetimes of an entry modulo `2^64`.  Where the sum wraps, the
window ends `2^64` seconds too early: the entry may be fresh and not serveable, and the sweeper,
which asks for the window alone, takes out an entry that would still be served.

`WindowExact` is the condition under which neither happens: the sum does not wrap, or the age is
below what is left of it.  It is exact for the tests of one entry (`TestsAgree.iff_windowExact`)
and for the sweeper (`SweepsExactly.iff_windowExact`).
-/

namespace EdgeCache

open Transition

namespace CacheEntry

/-- The age in whole seconds, as a mathematical integer. -/
def ageSeconds (e : CacheEntry) (now : ℤ) : ℕ := ((now - e.storedAt) / second).toNat

/-- How long the entry may be served at all, as a mathematical integer. -/
def windowSeconds (e : CacheEntry) : ℕ :=
  e.ttlSeconds.toNat + e.staleWhileRevalidateSeconds.toNat

/-- A clock reading at or after the moment of storing; the difference is an `int64_t` number of
nanoseconds. -/
def ReadAt (e : CacheEntry) (now : ℤ) : Prop := e.storedAt ≤ now ∧ now - e.storedAt < 2 ^ 63

/-- **The tests say what they mean**, and a fresh entry is serveable. -/
structure TestsAgree (e : CacheEntry) (now : ℤ) : Prop where
  fresh : e.isFresh now = true ↔ e.ageSeconds now < e.ttlSeconds.toNat
  serveable : e.isServeableStale now = true ↔ e.ageSeconds now < e.windowSeconds
  served : e.isFresh now = true → e.isServeableStale now = true

/-- The sum of the lifetimes does not wrap, or the age is below what is left of it. -/
def WindowExact (e : CacheEntry) (now : ℤ) : Prop :=
  e.windowSeconds < 2 ^ 64 ∨ e.ageSeconds now + 2 ^ 64 < e.windowSeconds

variable {e : CacheEntry} {now : ℤ}

/-- The comparisons read the age as it is. -/
theorem ReadAt.toNat_age (read : e.ReadAt now) : (e.age now).toNat = e.ageSeconds now := by
  obtain ⟨stored, near⟩ := read
  have whole : (now - e.storedAt).tdiv second = (now - e.storedAt) / 1000000000 :=
    Int.tdiv_eq_ediv_of_nonneg (by omega)
  rw [age, whole, UInt64.ofInt, UInt64.toNat_ofNat', ageSeconds]
  simp only [second]
  omega

theorem ReadAt.isFresh_iff (read : e.ReadAt now) :
    e.isFresh now = true ↔ e.ageSeconds now < e.ttlSeconds.toNat := by
  rw [isFresh, decide_eq_true_eq, UInt64.lt_iff_toNat_lt, read.toNat_age]

theorem ReadAt.isServeableStale_iff (read : e.ReadAt now) :
    e.isServeableStale now = true ↔ e.ageSeconds now < e.windowSeconds % 2 ^ 64 := by
  rw [isServeableStale, decide_eq_true_eq, UInt64.lt_iff_toNat_lt, read.toNat_age,
    UInt64.toNat_add, windowSeconds]

/-- **The window is the one that was meant exactly if `WindowExact`.** -/
theorem ReadAt.window_iff (read : e.ReadAt now) :
    (e.isServeableStale now = true ↔ e.ageSeconds now < e.windowSeconds) ↔ e.WindowExact now := by
  have age := (e.age now).toNat_lt
  rw [read.toNat_age] at age
  have ttl := e.ttlSeconds.toNat_lt
  have swr := e.staleWhileRevalidateSeconds.toNat_lt
  rw [read.isServeableStale_iff, WindowExact]
  rw [windowSeconds]
  omega

theorem TestsAgree.iff_windowExact (read : e.ReadAt now) : e.TestsAgree now ↔ e.WindowExact now := by
  rw [← read.window_iff]
  refine ⟨TestsAgree.serveable, fun window => ⟨read.isFresh_iff, window, fun fresh => ?_⟩⟩
  have young := read.isFresh_iff.mp fresh
  exact window.mpr (young.trans_le (Nat.le_add_right _ _))

end CacheEntry

namespace LRUCache

variable {c : LRUCache} {now : ℤ}

/-- **The sweeper takes out what cannot be served any more and nothing else**, keeps the order of
the rest, and counts what it takes out. -/
structure SweepsExactly (c : LRUCache) (now : ℤ) : Prop where
  order : (c.sweepExpired now).2.order =
    c.order.filter fun n => n.entry.ageSeconds now < n.entry.windowSeconds
  count : (c.sweepExpired now).1 =
    (c.order.filter fun n => n.entry.windowSeconds ≤ n.entry.ageSeconds now).length
  spared : ∀ n ∈ c.order, n.entry.isFresh now = true ∨ n.entry.isServeableStale now = true →
    n ∈ (c.sweepExpired now).2.order

/-- What the sweeper leaves, and what it counts. -/
theorem Coherent.order_sweepExpired (coherent : c.Coherent) (now : ℤ) :
    (c.sweepExpired now).2.order = c.order.filter fun n => n.entry.isServeableStale now := by
  rw [LRUCache.sweepExpired, coherent.order_removeIf]
  simp

/-- **The exact rule** for the sweeper. -/
theorem SweepsExactly.iff_windowExact (coherent : c.Coherent)
    (read : ∀ n ∈ c.order, n.entry.ReadAt now) :
    c.SweepsExactly now ↔ ∀ n ∈ c.order, n.entry.WindowExact now := by
  have left := coherent.order_sweepExpired now
  constructor
  · intro sweeps n mem
    rw [← (read n mem).window_iff]
    have same := congrArg (n ∈ ·) (left.symm.trans sweeps.order)
    simpa [List.mem_filter, mem] using same
  · intro exact_
    have window : ∀ n ∈ c.order,
        (n.entry.isServeableStale now = true ↔ n.entry.ageSeconds now < n.entry.windowSeconds) :=
      fun n mem => (read n mem).window_iff.mpr (exact_ n mem)
    refine ⟨left.trans (List.filter_congr fun n mem => ?_), ?_, fun n mem served => ?_⟩
    · rw [Bool.eq_iff_iff, decide_eq_true_eq]
      exact window n mem
    · rw [LRUCache.sweepExpired, LRUCache.removeIf]
      refine congrArg List.length (List.filter_congr fun n mem => ?_)
      rw [Bool.eq_iff_iff, Bool.not_eq_true', Bool.eq_false_iff, decide_eq_true_eq, ← Nat.not_lt]
      exact not_congr (window n mem)
    · rw [left, List.mem_filter]
      refine ⟨mem, served.elim (fun fresh => ?_) id⟩
      exact ((CacheEntry.TestsAgree.iff_windowExact (read n mem)).mpr (exact_ n mem)).served fresh

/-- **The tests and the sweeper agree exactly where no window wraps below the age**: at every
reading of the clock after an entry was stored, and for every reachable shard. -/
theorem tests_and_sweeper_agree_iff (e : CacheEntry) (now : ℤ) {maxBytes : UInt64}
    {ops : List CacheOp} (ran : run next (empty maxBytes) ops = some c) :
    (e.ReadAt now → (e.TestsAgree now ↔ e.WindowExact now)) ∧
      ((∀ n ∈ c.order, n.entry.ReadAt now) →
        (c.SweepsExactly now ↔ ∀ n ∈ c.order, n.entry.WindowExact now)) :=
  ⟨CacheEntry.TestsAgree.iff_windowExact,
    SweepsExactly.iff_windowExact (coherent_of_run ran)⟩

/-! ## A window that wraps -/

/-- An entry with the longest lifetime there is, and one second of grace. -/
def wrappingEntry : CacheEntry :=
  { bodyEntry (bytes "x") with ttlSeconds := 18446744073709551615, staleWhileRevalidateSeconds := 1 }

/-- A shard that holds it. -/
def oneWrapping : LRUCache := (empty 140).put (bytes "a") wrappingEntry

/-- An entry with a minute to live is swept when it should be. -/
theorem tests_and_sweeper_agree_bodyEntry :
    (bodyEntry []).TestsAgree 59999999999 ∧
      ((empty 140).put (bytes "a") (bodyEntry [])).SweepsExactly 60000000000 := by
  have ran : run next (empty 140) [.put (bytes "a") (bodyEntry [])] =
      some ((empty 140).put (bytes "a") (bodyEntry [])) := rfl
  have only : ∀ n ∈ ((empty 140).put (bytes "a") (bodyEntry [])).order,
      n.entry = bodyEntry [] := by decide +kernel
  have before := (tests_and_sweeper_agree_iff (bodyEntry []) 59999999999 ran).1
  have after := (tests_and_sweeper_agree_iff (bodyEntry []) 60000000000 ran).2
  refine ⟨(before ⟨by decide, by decide⟩).mpr (Or.inl (by decide)), ?_⟩
  refine (after fun n mem => ?_).mpr fun n mem => ?_
  · rw [only n mem]
    exact ⟨by decide, by decide⟩
  · rw [only n mem]
    exact Or.inl (by decide)

/-- **An entry is fresh and swept at the moment it is stored.** -/
theorem not_agree_wrappingEntry :
    wrappingEntry.ReadAt 0 ∧ ¬ wrappingEntry.TestsAgree 0 ∧
      run next (empty 140) [.put (bytes "a") wrappingEntry] = some oneWrapping ∧
      (oneWrapping.get (bytes "a")).1 = some wrappingEntry ∧ wrappingEntry.isFresh 0 = true ∧
      ((oneWrapping.sweepExpired 0).2.get (bytes "a")).1 = none ∧
      ¬ oneWrapping.SweepsExactly 0 := by
  have fresh : wrappingEntry.isFresh 0 = true := by decide +kernel
  refine ⟨⟨by decide, by decide⟩, fun agree => ?_, rfl, by decide +kernel, fresh,
    by decide +kernel, fun sweeps => ?_⟩
  · exact absurd (agree.served fresh) (by decide +kernel)
  · exact absurd sweeps.count (by decide +kernel)

end LRUCache

end EdgeCache

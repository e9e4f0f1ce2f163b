import EdgeCache.ByteBudget

/-!
# An entry that exceeds the budget

`put` links the new entry in front and then evicts from the back until the rest fits.  Where the
new entry alone exceeds the budget nothing ever fits, so the loop takes out every other entry
before it takes out the new one: the shard is empty afterwards (`order_put_of_oversized`).
What else was resident is therefore kept only where nothing else was (`keepsOthers_put_iff`).
The other shards are not touched (`holds_put_of_oversized`).
-/

namespace EdgeCache

open Recency Transition

namespace LRUCache

variable {c : LRUCache} {k : ByteString} {e : CacheEntry}

/-- Putting `e` under `k` keeps the entries of the other keys, and a lookup of any of them
returns what it returned. -/
def KeepsOthers (c : LRUCache) (k : ByteString) (e : CacheEntry) : Prop :=
  ∀ k', k' ≠ k → (∀ e', c.Holds k' e' → (c.put k e).Holds k' e') ∧
    ((c.put k e).get k').1 = (c.get k').1

/-- No other key is resident. -/
def Alone (c : LRUCache) (k : ByteString) : Prop := ∀ k' e', c.Holds k' e' → k' = k

/-- The new entry is in front. -/
theorem exists_order_store (c : LRUCache) (k : ByteString) (e : CacheEntry) :
    ∃ n rest, (c.store k e).order = n :: rest ∧ n.bytes = e.sizeBytes := by
  unfold LRUCache.store
  cases c.lookup k with
  | none => exact ⟨_, _, rfl, rfl⟩
  | some n => exact ⟨_, _, rfl, rfl⟩

/-- **Nothing is left** of a shard after an entry that exceeds its budget. -/
theorem order_put_of_oversized (coherent : c.Coherent) (accountable : c.Accountable (.put k e))
    (large : c.maxBytes < e.sizeBytes) : (c.put k e).order = [] := by
  obtain ⟨n, rest, order, weight⟩ := exists_order_store c k e
  have kept := (evict_order (coherent.store k e) accountable (Nat.le_refl _)).1
  have exceeds : ¬ Node.weight n ≤ c.maxBytes.toNat := by
    rw [Node.weight, weight, Nat.not_le]
    exact UInt64.lt_iff_toNat_lt.mp large
  rw [put, evictToFit, kept, store_maxBytes, order, fitting, if_neg exceeds]

theorem not_holds_of_order_eq_nil (blank : c.order = []) : ¬ c.Holds k e := by
  rintro ⟨n, mem, -⟩
  rw [blank] at mem
  exact List.not_mem_nil mem

/-- **The exact rule**: an entry that exceeds the budget leaves the others alone only where
there are none. -/
theorem KeepsOthers.iff_alone (coherent : c.Coherent) (accountable : c.Accountable (.put k e))
    (large : c.maxBytes < e.sizeBytes) : c.KeepsOthers k e ↔ c.Alone k := by
  have gone := order_put_of_oversized coherent accountable large
  constructor
  · intro keeps k' e' held
    by_contra other
    exact not_holds_of_order_eq_nil gone ((keeps k' other).1 e' held)
  · intro alone k' other
    refine ⟨fun e' held => absurd (alone k' e' held) other, Option.ext fun e' => ?_⟩
    rw [get_eq_some_iff (coherent.put k e), get_eq_some_iff coherent]
    exact iff_of_false (not_holds_of_order_eq_nil gone) fun held => other (alone k' e' held)

/-- The budget stays what it was along a run. -/
theorem run_maxBytes {c c' : LRUCache} {ops : List CacheOp} (ran : run next c ops = some c') :
    c'.maxBytes = c.maxBytes := by
  induction ops generalizing c with
  | nil => cases ran; rfl
  | cons op ops ih => exact (ih ran).trans (perform_maxBytes op)

/-- **An entry that exceeds the budget wipes the shard**: in every state of every run, putting
it keeps the other entries exactly if no other key is resident. -/
theorem keepsOthers_put_iff {maxBytes : UInt64} {ops : List CacheOp}
    (accountable : Meets next Accountable (empty maxBytes) ops)
    (ran : run next (empty maxBytes) ops = some c) (fits : c.Accountable (.put k e))
    (large : maxBytes < e.sizeBytes) : c.KeepsOthers k e ↔ c.Alone k := by
  have steady := steady_of_steps (Steps.of_run accountable ran)
  exact KeepsOthers.iff_alone steady.coherent fits ((run_maxBytes ran).symm ▸ large)

/-- A shard of 140 bytes with one small entry. -/
def oneSmall : LRUCache := (empty 140).put (bytes "a") (bodyEntry (bytes "x"))

/-- An entry of 164 bytes. -/
def oversized : CacheEntry := bodyEntry (List.replicate 100 0)

/-- Replacing the only entry leaves the others alone. -/
theorem keepsOthers_put_oneSmall :
    oneSmall.KeepsOthers (bytes "a") oversized ↔ oneSmall.Alone (bytes "a") :=
  keepsOthers_put_iff
    (meets_of_passes accountable_of_test
      (show passes next accountableTest (empty 140)
        [.put (bytes "a") (bodyEntry (bytes "x"))] = true by decide +kernel)) rfl
    (accountable_of_test oneSmall (.put (bytes "a") oversized) (by decide +kernel))
    (by decide +kernel)

/-- **An entry of 164 bytes takes the small one with it.** -/
theorem not_keepsOthers_oneSmall :
    run next (empty 140) [.put (bytes "a") (bodyEntry (bytes "x"))] = some oneSmall ∧
      140 < oversized.sizeBytes ∧ ¬ oneSmall.KeepsOthers (bytes "b") oversized := by
  refine ⟨rfl, by decide +kernel, fun keeps => ?_⟩
  have same := (keeps (bytes "a") (by decide)).2
  exact absurd same (by decide +kernel)

end LRUCache

namespace ShardedCache

variable {c : ShardedCache} {hash : ByteString → UInt64} {k k' : ByteString} {e e' : CacheEntry}

/-- **The other shards keep what they hold**, and the shard of the key keeps nothing. -/
theorem holds_put_of_oversized (accountable : (c.shardFor hash k).Accountable (.put k e))
    (large : (c.shardFor hash k).maxBytes < e.sizeBytes) :
    (c.put hash k e).Holds hash k' e' ↔
      c.Holds hash k' e' ∧ c.shardIndex hash k' ≠ c.shardIndex hash k := by
  rw [Holds, put, shardFor_update]
  by_cases same : c.shardIndex hash k = c.shardIndex hash k'
  · have shard : c.shardFor hash k' = c.shardFor hash k := by
      simp only [shardFor, same]
    have gone := LRUCache.order_put_of_oversized (c.coherent_shardFor hash k) accountable large
    rw [if_pos same, shard]
    exact iff_of_false (LRUCache.not_holds_of_order_eq_nil gone) fun held => held.2 same.symm
  · rw [if_neg same]
    exact (and_iff_left (Ne.symm same)).symm

end ShardedCache

end EdgeCache

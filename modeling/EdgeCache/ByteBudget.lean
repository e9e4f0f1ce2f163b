import EdgeCache.RequestPurge

/-!
# The byte budget

Each shard keeps what it accounts for within its share of the budget.  What it accounts for
an entry is the size of the entry with an allowance for bookkeeping, and not the key, which the
client chooses.  Where every key is within the allowance, and the shares add up to no more than
the budget, the budget bounds what is really held (`held_le_of_run`).
-/

namespace EdgeCache

open Recency Transition

/-! ## What is really held -/

/-- The bytes of the reason, the etag, the body and the headers of an entry. -/
def CacheEntry.held (e : CacheEntry) : ℕ :=
  e.reason.length + e.etag.length + e.body.length +
    (e.headers.entries.map fun kv => kv.1.length + kv.2.length).sum

/-- What `sizeBytes` counts beyond them. -/
def CacheEntry.allowance (e : CacheEntry) : ℕ := 64 + 8 * e.headers.entries.length

theorem CacheEntry.size_eq (e : CacheEntry) : e.size = e.held + e.allowance := by
  have each : ∀ l : List (ByteString × ByteString),
      (l.map fun kv => kv.1.length + kv.2.length + 8).sum =
        (l.map fun kv => kv.1.length + kv.2.length).sum + 8 * l.length := by
    intro l
    induction l with
    | nil => rfl
    | cons kv l ih =>
        simp only [List.map_cons, List.sum_cons, List.length_cons, ih]
        omega
  rw [size, held, allowance, each]
  omega

/-- The bytes a node really holds, its key included. -/
def Node.held (n : Node) : ℕ := n.key.length + n.entry.held

/-- The bytes all resident entries really hold. -/
def ShardedCache.held (c : ShardedCache) : ℕ :=
  (c.shards.map fun s => total Node.held s.order).sum

/-! ## The operations -/

namespace ShardedCache

/-- `ShardedCache::erase`. -/
def erase (c : ShardedCache) (hash : ByteString → UInt64) (key : ByteString) :
    Bool × ShardedCache :=
  (((c.shardFor hash key).erase key).1,
    c.update (c.shardIndex hash key) (fun s => (s.erase key).2) fun _ kept => kept.erase key)

/-- `ShardedCache::sweepExpired`. -/
def sweepExpired (c : ShardedCache) (now : ℤ) : ℕ × ShardedCache :=
  ((c.shards.map fun s => (s.sweepExpired now).1).sum,
    { shards := c.shards.map fun s => (s.sweepExpired now).2
      nonempty := by rw [List.length_map]; exact c.nonempty
      coherent := fun s mem => by
        obtain ⟨before, inside, rfl⟩ := List.mem_map.mp mem
        exact (c.coherent before inside).sweepExpired now })

end ShardedCache

/-- What can happen to the sharded cache. -/
inductive ShardedOp
  /-- An operation from its call to its return. -/
  | call (op : CacheOp)
  /-- One round of the loop of `purge`, between those of other operations. -/
  | purgeRound (i : ℕ) (pattern : ByteString)
  /-- One round of the loop of `sweepExpired`. -/
  | sweepRound (i : ℕ) (now : ℤ)

namespace ShardedCache

variable {c c' : ShardedCache} {hash : ByteString → UInt64}

/-- The cache after an operation. -/
def perform (c : ShardedCache) (hash : ByteString → UInt64) : ShardedOp → ShardedCache
  | .call (.get k) => (c.get hash k).2
  | .call (.put k e) => c.put hash k e
  | .call (.erase k) => (c.erase hash k).2
  | .call (.purge pattern) => (c.purge pattern).2
  | .call (.sweepExpired now) => (c.sweepExpired now).2
  | .purgeRound i pattern => c.purgeShard i pattern
  | .sweepRound i now => c.sweepShard i now

/-- The operations as a transition system. -/
def next (hash : ByteString → UInt64) (c : ShardedCache) (op : ShardedOp) : Option ShardedCache :=
  some (c.perform hash op)

/-- The key is within what `sizeBytes` counts beyond the contents of the entry. -/
def KeysAllowed (_ : ShardedCache) : ShardedOp → Prop
  | .call (.put k e) => k.length ≤ e.allowance
  | _ => True

/-- What is put fits into the address space, together with what its shard holds. -/
def Addressable (hash : ByteString → UInt64) (c : ShardedCache) : ShardedOp → Prop
  | .call (.put k e) => (c.shardFor hash k).accounted + e.size < 2 ^ 64
  | _ => True

/-- **Every operation changes each shard by one operation at most**, and puts into the shard of
the key alone. -/
theorem getElem?_perform {op : ShardedOp} {i : ℕ} {s' : LRUCache}
    (found : (c.perform hash op).shards[i]? = some s') :
    ∃ s, c.shards[i]? = some s ∧ (s' = s ∨ ∃ op', s' = (s.perform op').2 ∧
      ∀ k e, op' = .put k e → op = .call (.put k e) ∧ i = c.shardIndex hash k) := by
  have updated : ∀ {j : ℕ} (op' : CacheOp),
      (c.shards.modify j fun s => (s.perform op').2)[i]? = some s' →
      (∀ k e, op' = .put k e → op = .call (.put k e) ∧ j = c.shardIndex hash k) →
      ∃ s, c.shards[i]? = some s ∧ (s' = s ∨ ∃ op', s' = (s.perform op').2 ∧
        ∀ k e, op' = .put k e → op = .call (.put k e) ∧ i = c.shardIndex hash k) := by
    intro j op' found put
    rw [List.getElem?_modify] at found
    obtain ⟨s, here, changed⟩ := Option.map_eq_some_iff.mp found
    refine ⟨s, here, ?_⟩
    split at changed
    · rename_i same
      exact Or.inr ⟨op', changed.symm, same ▸ put⟩
    · exact Or.inl changed.symm
  have mapped : ∀ (op' : CacheOp),
      (c.shards.map fun s => (s.perform op').2)[i]? = some s' → (∀ k e, op' ≠ .put k e) →
      ∃ s, c.shards[i]? = some s ∧ (s' = s ∨ ∃ op', s' = (s.perform op').2 ∧
        ∀ k e, op' = .put k e → op = .call (.put k e) ∧ i = c.shardIndex hash k) := by
    intro op' found other
    rw [List.getElem?_map] at found
    obtain ⟨s, here, changed⟩ := Option.map_eq_some_iff.mp found
    exact ⟨s, here, Or.inr ⟨op', changed.symm, fun k e is => absurd is (other k e)⟩⟩
  cases op with
  | call op =>
      cases op with
      | get k => exact updated (.get k) found (by simp)
      | put k e => exact updated (.put k e) found (by simp)
      | erase k => exact updated (.erase k) found (by simp)
      | purge pattern => exact mapped (.purge pattern) found (by simp)
      | sweepExpired now => exact mapped (.sweepExpired now) found (by simp)
  | purgeRound i pattern => exact updated (.purge pattern) found (by simp)
  | sweepRound i now => exact updated (.sweepExpired now) found (by simp)

/-- The shard at the position of a key is the one for that key. -/
theorem shardFor_of_getElem? {k : ByteString} {s : LRUCache}
    (found : c.shards[c.shardIndex hash k]? = some s) : c.shardFor hash k = s :=
  (List.getElem?_eq_some_iff.mp found).2

/-- The same of a shard wherever it stands. -/
theorem mem_perform {op : ShardedOp} {s' : LRUCache} (mem : s' ∈ (c.perform hash op).shards) :
    s' ∈ c.shards ∨ ∃ s ∈ c.shards, ∃ op', s' = (s.perform op').2 ∧
      ∀ k e, op' = .put k e → op = .call (.put k e) ∧ s = c.shardFor hash k := by
  obtain ⟨i, found⟩ := List.mem_iff_getElem?.mp mem
  obtain ⟨s, here, rfl | ⟨op', changed, put⟩⟩ := getElem?_perform found
  · exact Or.inl (List.mem_of_getElem? here)
  · refine Or.inr ⟨s, List.mem_of_getElem? here, op', changed, fun k e is => ?_⟩
    obtain ⟨whole, rfl⟩ := put k e is
    exact ⟨whole, (shardFor_of_getElem? here).symm⟩

end ShardedCache

/-! ## One shard -/

namespace LRUCache

variable {c : LRUCache}

/-- An operation keeps what is resident, or installs what it puts. -/
theorem Coherent.holds_perform (coherent : c.Coherent) {op : CacheOp} {k : ByteString}
    {e : CacheEntry} (held : (c.perform op).2.Holds k e) : c.Holds k e ∨ op = .put k e := by
  cases op with
  | get k' => exact Or.inl ((holds_get coherent).mp held)
  | put k' e' =>
      rcases holds_of_put coherent held with ⟨rfl, rfl⟩ | ⟨-, old⟩
      · exact Or.inr rfl
      · exact Or.inl old
  | erase k' => exact Or.inl ((holds_erase coherent).mp held).2
  | purge pattern => exact Or.inl ((holds_purge coherent).mp held).1
  | sweepExpired now => exact Or.inl ((holds_sweepExpired coherent).mp held).1

/-- **A shard within its share of the budget**, in which every key is within the allowance. -/
structure Within (share : UInt64) (c : LRUCache) : Prop where
  steady : c.Steady
  budget : c.maxBytes = share
  counted : ∀ k e, c.Holds k e → k.length ≤ e.allowance ∧ e.size < 2 ^ 64

theorem within_empty (share : UInt64) : Within share (empty share) where
  steady := steady_empty share
  budget := rfl
  counted := by
    rintro k e ⟨n, mem, -⟩
    exact absurd mem List.not_mem_nil

/-- Putting an entry adds no more than its size. -/
theorem accounted_store_le (k : ByteString) (e : CacheEntry) :
    (c.store k e).accounted ≤ c.accounted + e.size := by
  have cut : e.sizeBytes.toNat ≤ e.size := by
    rw [CacheEntry.sizeBytes, UInt64.toNat_ofNat']
    exact Nat.mod_le _ _
  have fewer : ∀ id, total Node.weight (c.unlink id) ≤ c.accounted :=
    fun id => total_le_of_sublist List.filter_sublist
  unfold LRUCache.store
  cases c.lookup k with
  | none =>
      change e.sizeBytes.toNat + c.accounted ≤ c.accounted + e.size
      omega
  | some n =>
      have rest := fewer n.id
      change e.sizeBytes.toNat + total Node.weight (c.unlink n.id) ≤ c.accounted + e.size
      omega

/-- **Every operation keeps a shard within its share.** -/
theorem Within.perform {share : UInt64} (within : Within share c) {op : CacheOp}
    (allowed : ∀ k e, op = .put k e → k.length ≤ e.allowance ∧ c.accounted + e.size < 2 ^ 64) :
    Within share (c.perform op).2 where
  steady := by
    refine within.steady.perform ?_
    cases op with
    | put k e =>
        exact (accounted_store_le k e).trans_lt (allowed k e rfl).2
    | _ => trivial
  budget := (perform_maxBytes op).trans within.budget
  counted := by
    intro k e held
    rcases within.steady.coherent.holds_perform held with old | rfl
    · exact within.counted k e old
    · obtain ⟨key, fits⟩ := allowed k e rfl
      exact ⟨key, by omega⟩

/-- A node accounts for no less than it holds, and for 64 bytes at least. -/
theorem Within.held_le_weight {share : UInt64} (within : Within share c) {n : Node}
    (mem : n ∈ c.order) : n.held ≤ n.weight ∧ 64 ≤ n.weight := by
  obtain ⟨key, fits⟩ := within.counted n.key n.entry ⟨n, mem, rfl, rfl⟩
  have weight : n.weight = n.entry.held + n.entry.allowance := by
    rw [Node.weight, within.steady.coherent.bytes n mem, CacheEntry.sizeBytes,
      UInt64.toNat_ofNat_of_lt' fits, CacheEntry.size_eq]
  rw [weight, Node.held]
  refine ⟨by omega, ?_⟩
  rw [CacheEntry.allowance]
  omega

/-- **What a shard really holds is within its share.** -/
theorem Within.held_le {share : UInt64} (within : Within share c) :
    total Node.held c.order ≤ share.toNat := by
  calc total Node.held c.order
      ≤ c.accounted := List.sum_le_sum fun n mem => (within.held_le_weight mem).1
    _ ≤ c.maxBytes.toNat := within.steady.bounded
    _ = share.toNat := by rw [within.budget]

/-- A share below 64 bytes holds nothing. -/
theorem Within.held_eq_zero {share : UInt64} (within : Within share c) (tiny : share.toNat < 64) :
    total Node.held c.order = 0 := by
  cases order : c.order with
  | nil => rfl
  | cons n rest =>
      have least := (within.held_le_weight (n := n) (by rw [order]; exact List.mem_cons_self)).2
      have bounded := within.steady.bounded
      rw [accounted, order, total_cons, within.budget] at bounded
      omega

end LRUCache

/-! ## All shards -/

namespace ShardedCache

variable {c : ShardedCache} {hash : ByteString → UInt64}

/-- The share of the budget that the constructor gives to each shard. -/
def share (maxBytes : UInt64) (shards : ℕ) : UInt64 :=
  let perShard := maxBytes / UInt64.ofNat (if shards = 0 then 1 else shards)
  if perShard = 0 then maxBytes else perShard

/-- Every shard is within its share. -/
structure Within (maxBytes : UInt64) (shards : ℕ) (c : ShardedCache) : Prop where
  length : c.shards.length = if shards = 0 then 1 else shards
  shards : ∀ s ∈ c.shards, s.Within (share maxBytes shards)

theorem within_create (maxBytes : UInt64) (shards : ℕ) :
    Within maxBytes shards (create maxBytes shards) where
  length := List.length_replicate
  shards := by
    intro s mem
    rw [(List.mem_replicate.mp mem).2]
    exact LRUCache.within_empty _

theorem length_perform (op : ShardedOp) : (c.perform hash op).shards.length = c.shards.length := by
  cases op with
  | call op =>
      cases op with
      | purge pattern => exact List.length_map _
      | sweepExpired now => exact List.length_map _
      | _ => exact List.length_modify _ _ _
  | _ => exact List.length_modify _ _ _

/-- **Every operation keeps the shards within their shares.** -/
theorem Within.perform {maxBytes : UInt64} {shards : ℕ} (within : Within maxBytes shards c)
    {op : ShardedOp} (allowed : KeysAllowed c op) (addressable : Addressable hash c op) :
    Within maxBytes shards (c.perform hash op) where
  length := (length_perform op).trans within.length
  shards := by
    intro s' mem
    rcases mem_perform mem with old | ⟨s, inside, op', rfl, put⟩
    · exact within.shards s' old
    · refine (within.shards s inside).perform fun k e is => ?_
      obtain ⟨rfl, rfl⟩ := put k e is
      exact ⟨allowed, addressable⟩

/-- A share is no more than the budget. -/
theorem share_le (maxBytes : UInt64) (shards : ℕ) :
    (share maxBytes shards).toNat ≤ maxBytes.toNat := by
  have part : ∀ n : UInt64, (if maxBytes / n = 0 then maxBytes else maxBytes / n).toNat ≤
      maxBytes.toNat := by
    intro n
    split
    · exact le_rfl
    · rw [UInt64.toNat_div]
      exact Nat.div_le_self _ _
  exact part _

/-- The shares add up to no more than the budget, unless there are more shards than bytes. -/
theorem length_mul_share_le {maxBytes : UInt64} {shards : ℕ} (enough : shards ≤ maxBytes.toNat) :
    (if shards = 0 then 1 else shards) * (share maxBytes shards).toNat ≤ maxBytes.toNat := by
  have bound := maxBytes.toNat_lt
  by_cases none : shards = 0
  · simp only [share, none, if_true]
    split
    · omega
    · simp
  · have count : (UInt64.ofNat shards).toNat = shards :=
      UInt64.toNat_ofNat_of_lt' (by rw [UInt64.size]; omega)
    have quotient : (maxBytes / UInt64.ofNat shards).toNat = maxBytes.toNat / shards := by
      rw [UInt64.toNat_div, count]
    have positive : 0 < maxBytes.toNat / shards := Nat.div_pos enough (Nat.pos_of_ne_zero none)
    have nonzero : maxBytes / UInt64.ofNat shards ≠ 0 := by
      intro zero
      rw [zero, UInt64.toNat_zero] at quotient
      omega
    simp only [share, if_neg none, if_neg nonzero, quotient]
    exact Nat.mul_div_le _ _

/-- **The budget bounds what is really held**, where no key exceeds the allowance and there are
no more shards than bytes, or so few bytes that nothing fits. -/
theorem held_le_of_run {maxBytes : UInt64} {shards : ℕ} {ops : List ShardedOp}
    (shares : shards ≤ maxBytes.toNat ∨ maxBytes.toNat < 64)
    (meets : Meets (next hash) (fun c op => KeysAllowed c op ∧ Addressable hash c op)
      (create maxBytes shards) ops)
    (ran : run (next hash) (create maxBytes shards) ops = some c) : c.held ≤ maxBytes.toNat := by
  have within : Within maxBytes shards c :=
    (Steps.of_run meets ran).invariant (fun c op c' meets taken within => by
      cases taken
      exact within.perform meets.1 meets.2) (within_create maxBytes shards)
  rcases shares with enough | tiny
  · have each : ∀ held ∈ c.shards.map (fun s => total Node.held s.order),
        held ≤ (share maxBytes shards).toNat := by
      intro held mem
      obtain ⟨s, inside, rfl⟩ := List.mem_map.mp mem
      exact (within.shards s inside).held_le
    calc c.held
        ≤ (c.shards.map fun s => total Node.held s.order).length *
            (share maxBytes shards).toNat := by
          exact List.sum_le_card_nsmul _ _ each
      _ = (if shards = 0 then 1 else shards) * (share maxBytes shards).toNat := by
          rw [List.length_map, within.length]
      _ ≤ maxBytes.toNat := length_mul_share_le enough
  · have least := (share_le maxBytes shards).trans_lt tiny
    have zero : c.held = 0 := by
      refine List.sum_eq_zero fun held mem => ?_
      obtain ⟨s, inside, rfl⟩ := List.mem_map.mp mem
      exact (within.shards s inside).held_eq_zero least
    omega

/-! ## Keys that are not accounted for -/

/-- A key with a path of the given length. -/
def pathKey (n : ℕ) : ByteString := bytes "GET|origin|/" ++ List.replicate n 97 ++ bytes "|"

/-- An empty response is stored under one key, and another under a key that is longer by a
byte. -/
def twoKeys (n : ℕ) : List ShardedOp :=
  [.call (.put (pathKey n) (LRUCache.bodyEntry [])),
    .call (.put (pathKey (n + 1)) (LRUCache.bodyEntry []))]

/-- Whether an operation meets both conditions. -/
def allowedTest (hash : ByteString → UInt64) (c : ShardedCache) : ShardedOp → Bool
  | .call (.put k e) =>
      k.length ≤ e.allowance && (c.shardFor hash k).accounted + e.size < 2 ^ 64
  | _ => true

theorem allowed_of_test (c : ShardedCache) (op : ShardedOp)
    (passed : allowedTest hash c op = true) : KeysAllowed c op ∧ Addressable hash c op := by
  cases op with
  | call op =>
      cases op with
      | put k e =>
          simp only [allowedTest, Bool.and_eq_true, decide_eq_true_eq] at passed
          exact passed
      | _ => exact ⟨trivial, trivial⟩
  | _ => exact ⟨trivial, trivial⟩

/-- With short keys, 200 bytes on two shards hold both responses. -/
theorem held_twoKeys : ∃ c, run (next fun k => UInt64.ofNat k.length) (create 200 2) (twoKeys 10) =
    some c ∧ 0 < c.held ∧ c.held ≤ 200 := by
  have meets := meets_of_passes allowed_of_test
    (show passes (next fun k => UInt64.ofNat k.length) (allowedTest fun k => UInt64.ofNat k.length)
      (create 200 2) (twoKeys 10) = true by decide +kernel)
  obtain ⟨c, ran, some⟩ := exists_of_run
    (show (run (next fun k => UInt64.ofNat k.length) (create 200 2) (twoKeys 10)).any
      (fun c => decide (0 < c.held)) = true by decide +kernel)
  exact ⟨c, ran, of_decide_eq_true some, held_le_of_run (Or.inl (by decide)) meets ran⟩

/-- **Long keys exceed the budget**: 200 bytes hold two empty responses with keys of 313 and 314
bytes. -/
theorem not_held_le_twoKeys :
    ∃ c, run (next fun k => UInt64.ofNat k.length) (create 200 2) (twoKeys 300) = some c ∧
      ¬ c.held ≤ 200 := by
  obtain ⟨c, ran, more⟩ := exists_of_run
    (show (run (next fun k => UInt64.ofNat k.length) (create 200 2) (twoKeys 300)).any
      (fun c => decide (c.held = 627)) = true by decide +kernel)
  refine ⟨c, ran, ?_⟩
  rw [of_decide_eq_true more]
  decide

/-- Of more shards than bytes, each gets the whole budget. -/
example : (run (next fun k => UInt64.ofNat k.length) (create 64 65) (twoKeys 40)).any
    (fun c => decide (c.held = 107)) = true := by decide +kernel

end ShardedCache

end EdgeCache

import EdgeCache.LRUCache

/-!
# The sharded cache

`ShardedCache` is a non-empty array of shards; a key lives in the shard its
hash selects.  The hash is `std::hash<std::string>`, of which nothing is used
but that it is a function, so it is a parameter here.

That every shard satisfies its representation invariant is a field of the
structure.  All operations go through `update`, which changes one shard by a
function that keeps the invariant, so the lemmas below follow from one about
`update`.
-/

namespace EdgeCache

/-- `ShardedCache`. -/
structure ShardedCache where
  shards : List LRUCache
  nonempty : 0 < shards.length
  coherent : ∀ s ∈ shards, s.Coherent

namespace ShardedCache

/-- `ShardedCache(maxBytes, shards)`. -/
def create (maxBytes : UInt64) (shards : ℕ) : ShardedCache :=
  let count := if shards = 0 then 1 else shards
  let share := maxBytes / UInt64.ofNat count
  let perShard := if share = 0 then maxBytes else share
  { shards := List.replicate count (LRUCache.empty perShard)
    nonempty := by
      rw [List.length_replicate]
      show 0 < if shards = 0 then 1 else shards
      split <;> omega
    coherent := fun s mem => (List.mem_replicate.mp mem).2 ▸ LRUCache.coherent_empty perShard }

/-- The position of `shardFor(key)`. -/
def shardIndex (c : ShardedCache) (hash : ByteString → UInt64) (key : ByteString) : ℕ :=
  (hash key).toNat % c.shards.length

theorem shardIndex_lt (c : ShardedCache) (hash : ByteString → UInt64) (key : ByteString) :
    c.shardIndex hash key < c.shards.length := Nat.mod_lt _ c.nonempty

/-- `shardFor(key)`. -/
def shardFor (c : ShardedCache) (hash : ByteString → UInt64) (key : ByteString) : LRUCache :=
  c.shards.get ⟨c.shardIndex hash key, c.shardIndex_lt hash key⟩

theorem coherent_shardFor (c : ShardedCache) (hash : ByteString → UInt64) (key : ByteString) :
    (c.shardFor hash key).Coherent := c.coherent _ (List.get_mem _ _)

/-- Change the shard at one position by an operation that keeps the invariant. -/
def update (c : ShardedCache) (i : ℕ) (f : LRUCache → LRUCache)
    (keeps : ∀ s : LRUCache, s.Coherent → (f s).Coherent) : ShardedCache where
  shards := c.shards.modify i f
  nonempty := by rw [List.length_modify]; exact c.nonempty
  coherent s mem := by
    obtain ⟨j, inside, rfl⟩ := List.mem_iff_getElem.mp mem
    rw [List.getElem_modify]
    split
    · exact keeps _ (c.coherent _ (List.getElem_mem _))
    · exact c.coherent _ (List.getElem_mem _)

/-- `ShardedCache::get`. -/
def get (c : ShardedCache) (hash : ByteString → UInt64) (key : ByteString) :
    Option CacheEntry × ShardedCache :=
  (((c.shardFor hash key).get key).1,
    c.update (c.shardIndex hash key) (fun s => (s.get key).2) fun _ kept => kept.get key)

/-- `ShardedCache::put`. -/
def put (c : ShardedCache) (hash : ByteString → UInt64) (key : ByteString) (entry : CacheEntry) :
    ShardedCache :=
  c.update (c.shardIndex hash key) (fun s => s.put key entry) fun _ kept => kept.put key entry

/-- One round of the loop of `ShardedCache::purge`. -/
def purgeShard (c : ShardedCache) (i : ℕ) (pattern : ByteString) : ShardedCache :=
  c.update i (fun s => (s.purge pattern).2) fun _ kept => kept.purge pattern

/-- One round of the loop of `ShardedCache::sweepExpired`. -/
def sweepShard (c : ShardedCache) (i : ℕ) (now : ℤ) : ShardedCache :=
  c.update i (fun s => (s.sweepExpired now).2) fun _ kept => kept.sweepExpired now

/-- The entry `e` is resident under the key `k`. -/
def Holds (c : ShardedCache) (hash : ByteString → UInt64) (k : ByteString) (e : CacheEntry) :
    Prop := (c.shardFor hash k).Holds k e

variable {c : ShardedCache} {hash : ByteString → UInt64} {k k' : ByteString} {e e' : CacheEntry}

@[simp] theorem length_update {i : ℕ} {f : LRUCache → LRUCache}
    {keeps : ∀ s : LRUCache, s.Coherent → (f s).Coherent} :
    (c.update i f keeps).shards.length = c.shards.length := List.length_modify _ _ _

@[simp] theorem length_get : (c.get hash k).2.shards.length = c.shards.length :=
  List.length_modify _ _ _

@[simp] theorem length_put : (c.put hash k e).shards.length = c.shards.length :=
  List.length_modify _ _ _

/-- The shard of a key depends on the number of shards only. -/
theorem shardIndex_congr {c' : ShardedCache} (same : c.shards.length = c'.shards.length) :
    c.shardIndex hash k = c'.shardIndex hash k := by
  rw [shardIndex, shardIndex, same]

/-- The shard a key selects, after one shard has changed. -/
theorem shardFor_update {i : ℕ} {f : LRUCache → LRUCache}
    {keeps : ∀ s : LRUCache, s.Coherent → (f s).Coherent} :
    (c.update i f keeps).shardFor hash k =
      if i = c.shardIndex hash k then f (c.shardFor hash k) else c.shardFor hash k := by
  simp only [shardFor, shardIndex, update, List.get_eq_getElem, List.length_modify]
  exact List.getElem_modify ..

/-- **`get` answers the resident entry.** -/
theorem get_eq_some_iff : (c.get hash k).1 = some e ↔ c.Holds hash k e :=
  LRUCache.get_eq_some_iff (c.coherent_shardFor hash k)

/-- `get` changes no resident entry. -/
theorem holds_get : (c.get hash k).2.Holds hash k' e' ↔ c.Holds hash k' e' := by
  rw [Holds, get, shardFor_update]
  split
  · exact LRUCache.holds_get (c.coherent_shardFor hash k')
  · rfl

/-- **`put` installs its own entry or nothing.** -/
theorem holds_of_put (after : (c.put hash k e).Holds hash k' e') :
    (k' = k ∧ e' = e) ∨ (k' ≠ k ∧ c.Holds hash k' e') := by
  rw [Holds, put, shardFor_update] at after
  split at after
  · exact LRUCache.holds_of_put (c.coherent_shardFor hash k') after
  · rename_i elsewhere
    exact Or.inr ⟨fun same => elsewhere (by rw [same]), after⟩

/-- **Purging a shard** drops the matching keys that live there. -/
theorem holds_purgeShard {i : ℕ} {pattern : ByteString} :
    (c.purgeShard i pattern).Holds hash k e ↔
      c.Holds hash k e ∧ (i = c.shardIndex hash k → purgeMatches pattern k = false) := by
  rw [Holds, purgeShard, shardFor_update]
  split
  · rename_i here
    simp only [here, forall_const]
    exact LRUCache.holds_purge (c.coherent_shardFor hash k)
  · rename_i elsewhere
    simp [elsewhere, Holds]

/-- Sweeping a shard drops entries and adds none. -/
theorem holds_of_sweepShard {i : ℕ} {now : ℤ} (after : (c.sweepShard i now).Holds hash k e) :
    c.Holds hash k e := by
  rw [Holds, sweepShard, shardFor_update] at after
  split at after
  · exact ((LRUCache.holds_sweepExpired (c.coherent_shardFor hash k)).mp after).1
  · exact after

/-- A new cache is empty. -/
theorem not_holds_create {maxBytes : UInt64} {shards : ℕ} :
    ¬ (create maxBytes shards).Holds hash k e := by
  rintro ⟨n, mem, -⟩
  have blank := (List.mem_replicate.mp
    (List.get_mem (create maxBytes shards).shards ⟨_, shardIndex_lt _ hash k⟩)).2
  rw [shardFor, blank] at mem
  exact List.not_mem_nil mem

end ShardedCache

end EdgeCache

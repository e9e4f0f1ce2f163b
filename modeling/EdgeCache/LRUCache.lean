import EdgeCache.CacheEntry
import EdgeCache.CacheKey

/-!
# One shard of the in-memory cache

`LRUCache` is a list of nodes ordered by last use, most recent first, and an
index from keys to the nodes.  An iterator into the list is the identity of its
node, so the index maps a key to an `id`; following an iterator is `deref`.
The byte counter is a `uint64_t` and wraps.

`Coherent` is the representation invariant that ties the three together.  Every
operation keeps it, and under it the cache is described by one relation,
`Holds c k e`: the entry `e` is resident under the key `k`.
-/

namespace EdgeCache

/-- `LRUCache::Node`; `id` is the address an iterator points to. -/
structure Node where
  id : ℕ
  key : ByteString
  entry : CacheEntry
  bytes : UInt64
  deriving DecidableEq

/-- `LRUCache`. -/
structure LRUCache where
  order : List Node
  index : AList fun _ : ByteString => ℕ
  maxBytes : UInt64
  curBytes : UInt64
  evictions : UInt64
  nextId : ℕ

namespace LRUCache

/-- `LRUCache(maxBytes)`. -/
def empty (maxBytes : UInt64) : LRUCache where
  order := []
  index := ∅
  maxBytes := maxBytes
  curBytes := 0
  evictions := 0
  nextId := 0

/-- The node an iterator points to. -/
def deref (c : LRUCache) (id : ℕ) : Option Node := c.order.find? fun n => n.id = id

/-- `index_.find(key)`, followed to its node. -/
def lookup (c : LRUCache) (key : ByteString) : Option Node :=
  (c.index.lookup key).bind c.deref

/-- The list without the node at `id`. -/
def unlink (c : LRUCache) (id : ℕ) : List Node := c.order.filter fun n => n.id ≠ id

/-- Erase a node from the list, the index and the byte count. -/
def remove (c : LRUCache) (n : Node) : LRUCache :=
  { c with
    order := c.unlink n.id
    index := c.index.erase n.key
    curBytes := c.curBytes - n.bytes }

/-- `LRUCache::get`: a hit moves its node to the front. -/
def get (c : LRUCache) (key : ByteString) : Option CacheEntry × LRUCache :=
  match c.lookup key with
  | none => (none, c)
  | some n => (some n.entry, { c with order := n :: c.unlink n.id })

/-- `put` before it makes room: overwrite the key's node or link a new one. -/
def store (c : LRUCache) (key : ByteString) (entry : CacheEntry) : LRUCache :=
  let bytes := entry.sizeBytes
  match c.lookup key with
  | some n =>
      { c with
        order := { n with entry := entry, bytes := bytes } :: c.unlink n.id
        curBytes := c.curBytes - n.bytes + bytes }
  | none =>
      { c with
        order := { id := c.nextId, key := key, entry := entry, bytes := bytes } :: c.order
        index := c.index.insert key c.nextId
        curBytes := c.curBytes + bytes
        nextId := c.nextId + 1 }

/-- The loop of `evictToFit_`, at most `fuel` rounds. -/
def evict : ℕ → LRUCache → LRUCache
  | 0, c => c
  | fuel + 1, c =>
      if c.maxBytes < c.curBytes then
        match c.order.getLast? with
        | none => c
        | some back => evict fuel { c.remove back with evictions := c.evictions + 1 }
      else c

/-- `evictToFit_`: each round drops a node, so there are no more rounds than nodes. -/
def evictToFit (c : LRUCache) : LRUCache := evict c.order.length c

/-- `LRUCache::put`. -/
def put (c : LRUCache) (key : ByteString) (entry : CacheEntry) : LRUCache :=
  (c.store key entry).evictToFit

/-- `LRUCache::erase`. -/
def erase (c : LRUCache) (key : ByteString) : Bool × LRUCache :=
  match c.lookup key with
  | none => (false, c)
  | some n => (true, c.remove n)

/-- The loop shared by `purge` and `sweepExpired`: drop every node the test
selects, and count them. -/
def removeIf (c : LRUCache) (test : Node → Bool) : ℕ × LRUCache :=
  let doomed := c.order.filter test
  (doomed.length, doomed.foldl remove c)

/-- `LRUCache::purge`. -/
def purge (c : LRUCache) (pattern : ByteString) : ℕ × LRUCache :=
  c.removeIf fun n => purgeMatches pattern n.key

/-- `LRUCache::sweepExpired` at the clock reading `now`. -/
def sweepExpired (c : LRUCache) (now : ℤ) : ℕ × LRUCache :=
  c.removeIf fun n => !n.entry.isServeableStale now

/-! ## The representation invariant -/

/-- **The representation invariant.** -/
structure Coherent (c : LRUCache) : Prop where
  keys : (c.order.map (·.key)).Nodup
  ids : (c.order.map (·.id)).Nodup
  index : ∀ k id, c.index.lookup k = some id ↔ ∃ n ∈ c.order, n.key = k ∧ n.id = id
  fresh : ∀ n ∈ c.order, n.id < c.nextId
  bytes : ∀ n ∈ c.order, n.bytes = n.entry.sizeBytes
  curBytes : c.curBytes = (c.order.map (·.bytes)).sum

/-- The entry `e` is resident under the key `k`. -/
def Holds (c : LRUCache) (k : ByteString) (e : CacheEntry) : Prop :=
  ∃ n ∈ c.order, n.key = k ∧ n.entry = e

variable {c : LRUCache}

theorem coherent_empty (maxBytes : UInt64) : (empty maxBytes).Coherent where
  keys := List.nodup_nil
  ids := List.nodup_nil
  index k id := by simp [empty]
  fresh n mem := absurd mem List.not_mem_nil
  bytes n mem := absurd mem List.not_mem_nil
  curBytes := rfl

theorem mem_unlink {n : Node} {id : ℕ} : n ∈ c.unlink id ↔ n ∈ c.order ∧ n.id ≠ id := by
  simp [unlink]

theorem mem_of_mem_unlink {n : Node} {id : ℕ} (left : n ∈ c.unlink id) : n ∈ c.order :=
  List.mem_of_mem_filter left

theorem mem_unlink_of_ne {n : Node} {id : ℕ} (mem : n ∈ c.order) (other : n.id ≠ id) :
    n ∈ c.unlink id := by
  rw [mem_unlink]
  exact ⟨mem, other⟩

namespace Coherent

variable (coherent : c.Coherent)
include coherent

theorem eq_of_id {n m : Node} (left : n ∈ c.order) (right : m ∈ c.order) (same : n.id = m.id) :
    n = m := List.inj_on_of_nodup_map coherent.ids left right same

theorem eq_of_key {n m : Node} (left : n ∈ c.order) (right : m ∈ c.order)
    (same : n.key = m.key) : n = m := List.inj_on_of_nodup_map coherent.keys left right same

/-- An iterator in the index leads to the node of its key. -/
theorem lookup_eq_some_iff {k : ByteString} {n : Node} :
    c.lookup k = some n ↔ n ∈ c.order ∧ n.key = k := by
  rw [lookup, Option.bind_eq_some_iff]
  constructor
  · rintro ⟨id, indexed, found⟩
    obtain ⟨m, mem, key, rfl⟩ := (coherent.index k id).mp indexed
    have here : n.id = m.id := by simpa using List.find?_some found
    have same := coherent.eq_of_id (List.mem_of_find?_eq_some found) mem here
    exact ⟨same ▸ mem, same ▸ key⟩
  · rintro ⟨mem, key⟩
    refine ⟨n.id, (coherent.index k n.id).mpr ⟨n, mem, key, rfl⟩, ?_⟩
    cases found : c.deref n.id with
    | none => exact absurd (List.find?_eq_none.mp found n mem) (by simp)
    | some m =>
        have here : m.id = n.id := by simpa using List.find?_some found
        rw [coherent.eq_of_id (List.mem_of_find?_eq_some found) mem here]

theorem lookup_eq_none_iff {k : ByteString} : c.lookup k = none ↔ ∀ n ∈ c.order, n.key ≠ k := by
  constructor
  · intro missing n mem key
    rw [coherent.lookup_eq_some_iff.mpr ⟨mem, key⟩] at missing
    cases missing
  · intro absent
    cases found : c.lookup k with
    | none => rfl
    | some n =>
        obtain ⟨mem, key⟩ := coherent.lookup_eq_some_iff.mp found
        exact absurd key (absent n mem)

/-- A key has at most one resident entry. -/
theorem holds_unique {k : ByteString} {e e' : CacheEntry} (left : c.Holds k e)
    (right : c.Holds k e') : e = e' := by
  obtain ⟨n, mem, key, rfl⟩ := left
  obtain ⟨m, mem', key', rfl⟩ := right
  rw [coherent.eq_of_key mem mem' (key.trans key'.symm)]

end Coherent

/-- The bytes of a list of nodes, with one node taken out. -/
theorem sum_bytes_unlink {l : List Node} {n : Node} (distinct : (l.map (·.id)).Nodup)
    (mem : n ∈ l) :
    (l.map (·.bytes)).sum = ((l.filter fun m => m.id ≠ n.id).map (·.bytes)).sum + n.bytes := by
  induction l with
  | nil => exact absurd mem List.not_mem_nil
  | cons head rest ih =>
      rw [List.map_cons, List.nodup_cons] at distinct
      rcases List.mem_cons.mp mem with rfl | later
      · have others : rest.filter (fun m => m.id ≠ n.id) = rest := by
          refine List.filter_eq_self.mpr fun m inside => decide_eq_true fun same => ?_
          exact distinct.1 (same ▸ List.mem_map_of_mem inside)
        rw [List.filter_cons_of_neg (by simp), others, List.map_cons, List.sum_cons]
        grind
      · have other : head.id ≠ n.id := fun same =>
          distinct.1 (same ▸ List.mem_map_of_mem later)
        rw [List.filter_cons_of_pos (by simpa using other), List.map_cons, List.sum_cons,
          List.map_cons, List.sum_cons, ih distinct.2 later]
        grind

/-! ## The operations keep the invariant -/

/-- Dropping a resident node keeps the invariant. -/
theorem Coherent.remove (coherent : c.Coherent) {n : Node} (mem : n ∈ c.order) :
    (c.remove n).Coherent where
  keys := coherent.keys.sublist (List.filter_sublist.map _)
  ids := coherent.ids.sublist (List.filter_sublist.map _)
  index k id := by
    show AList.lookup k (c.index.erase n.key) = some id ↔ _
    by_cases here : k = n.key
    · subst here
      rw [AList.lookup_erase]
      refine iff_of_false (by simp) ?_
      rintro ⟨m, left, key, -⟩
      change m ∈ c.unlink n.id at left
      rw [mem_unlink] at left
      obtain ⟨inside, other⟩ := left
      exact other (congrArg Node.id (coherent.eq_of_key inside mem key))
    · rw [AList.lookup_erase_ne here, coherent.index]
      constructor
      · rintro ⟨m, inside, key, same⟩
        refine ⟨m, mem_unlink_of_ne inside fun equal => here ?_, key, same⟩
        rw [← key, coherent.eq_of_id inside mem equal]
      · rintro ⟨m, left, key, same⟩
        exact ⟨m, mem_of_mem_unlink left, key, same⟩
  fresh m left := coherent.fresh m (mem_of_mem_unlink left)
  bytes m left := coherent.bytes m (mem_of_mem_unlink left)
  curBytes := by
    have total := sum_bytes_unlink coherent.ids mem
    show c.curBytes - n.bytes = ((c.unlink n.id).map (·.bytes)).sum
    rw [coherent.curBytes, total, unlink]
    grind

/-- Moving a node to the front with a new entry keeps the invariant. -/
theorem Coherent.replace (coherent : c.Coherent) {n n' : Node} (mem : n ∈ c.order)
    (id : n'.id = n.id) (key : n'.key = n.key) (size : n'.bytes = n'.entry.sizeBytes) :
    Coherent { c with
      order := n' :: c.unlink n.id
      curBytes := c.curBytes - n.bytes + n'.bytes } where
  keys := by
    refine List.nodup_cons.mpr ⟨fun again => ?_, coherent.keys.sublist (List.filter_sublist.map _)⟩
    obtain ⟨m, left, same⟩ := List.mem_map.mp again
    rw [mem_unlink] at left
    obtain ⟨inside, other⟩ := left
    exact other (congrArg Node.id (coherent.eq_of_key inside mem (same.trans key)))
  ids := by
    refine List.nodup_cons.mpr ⟨fun again => ?_, coherent.ids.sublist (List.filter_sublist.map _)⟩
    obtain ⟨m, left, same⟩ := List.mem_map.mp again
    rw [mem_unlink] at left
    exact left.2 (same.trans id)
  -- The index still points at the node, which has kept its identity.
  index k i := by
    show c.index.lookup k = some i ↔ _
    rw [coherent.index]
    constructor
    · rintro ⟨m, inside, rfl, rfl⟩
      by_cases here : m.id = n.id
      · rw [coherent.eq_of_id inside mem here]
        exact ⟨n', List.mem_cons_self, key, id⟩
      · exact ⟨m, List.mem_cons_of_mem _ (mem_unlink_of_ne inside here), rfl, rfl⟩
    · rintro ⟨m, inside, rfl, rfl⟩
      rcases List.mem_cons.mp inside with rfl | left
      · exact ⟨n, mem, key.symm, id.symm⟩
      · exact ⟨m, mem_of_mem_unlink left, rfl, rfl⟩
  fresh m inside := by
    rcases List.mem_cons.mp inside with rfl | left
    · exact id ▸ coherent.fresh n mem
    · exact coherent.fresh m (mem_of_mem_unlink left)
  bytes m inside := by
    rcases List.mem_cons.mp inside with rfl | left
    · exact size
    · exact coherent.bytes m (mem_of_mem_unlink left)
  curBytes := by
    have total := sum_bytes_unlink coherent.ids mem
    show c.curBytes - n.bytes + n'.bytes = ((n' :: c.unlink n.id).map (·.bytes)).sum
    rw [coherent.curBytes, total, List.map_cons, List.sum_cons, unlink]
    grind

/-- Linking a node for an absent key keeps the invariant. -/
theorem Coherent.link (coherent : c.Coherent) {k : ByteString} (e : CacheEntry)
    (absent : ∀ n ∈ c.order, n.key ≠ k) :
    Coherent { c with
      order := { id := c.nextId, key := k, entry := e, bytes := e.sizeBytes } :: c.order
      index := c.index.insert k c.nextId
      curBytes := c.curBytes + e.sizeBytes
      nextId := c.nextId + 1 } where
  keys := by
    refine List.nodup_cons.mpr ⟨fun again => ?_, coherent.keys⟩
    obtain ⟨m, inside, same⟩ := List.mem_map.mp again
    exact absent m inside same
  ids := by
    refine List.nodup_cons.mpr ⟨fun again => ?_, coherent.ids⟩
    obtain ⟨m, inside, same⟩ := List.mem_map.mp again
    exact absurd same (coherent.fresh m inside).ne
  -- The new key is the only one whose entry in the index changes.
  index k' i := by
    show AList.lookup k' (c.index.insert k c.nextId) = some i ↔ _
    by_cases here : k' = k
    · subst here
      rw [AList.lookup_insert, Option.some.injEq]
      constructor
      · rintro rfl
        exact ⟨_, List.mem_cons_self, rfl, rfl⟩
      · rintro ⟨m, inside, key, rfl⟩
        rcases List.mem_cons.mp inside with rfl | old
        · rfl
        · exact absurd key (absent m old)
    · rw [AList.lookup_insert_ne here, coherent.index]
      constructor
      · rintro ⟨m, inside, key, same⟩
        exact ⟨m, List.mem_cons_of_mem _ inside, key, same⟩
      · rintro ⟨m, inside, key, same⟩
        rcases List.mem_cons.mp inside with rfl | old
        · exact absurd key.symm here
        · exact ⟨m, old, key, same⟩
  fresh m inside := by
    rcases List.mem_cons.mp inside with rfl | old
    · exact Nat.lt_succ_self _
    · exact (coherent.fresh m old).trans (Nat.lt_succ_self _)
  bytes m inside := by
    rcases List.mem_cons.mp inside with rfl | old
    · rfl
    · exact coherent.bytes m old
  curBytes := by
    show c.curBytes + e.sizeBytes = List.sum (e.sizeBytes :: c.order.map (·.bytes))
    rw [coherent.curBytes, List.sum_cons]
    grind

theorem Coherent.get (coherent : c.Coherent) (k : ByteString) : (c.get k).2.Coherent := by
  unfold LRUCache.get
  cases found : c.lookup k with
  | none => exact coherent
  | some n =>
      obtain ⟨mem, -⟩ := coherent.lookup_eq_some_iff.mp found
      have moved := coherent.replace mem rfl rfl (coherent.bytes n mem)
      rwa [show c.curBytes - n.bytes + n.bytes = c.curBytes by grind] at moved

theorem Coherent.store (coherent : c.Coherent) (k : ByteString) (e : CacheEntry) :
    (c.store k e).Coherent := by
  unfold LRUCache.store
  cases found : c.lookup k with
  | none => exact coherent.link e (coherent.lookup_eq_none_iff.mp found)
  | some n => exact coherent.replace (coherent.lookup_eq_some_iff.mp found).1 rfl rfl rfl

/-- The counters that no lookup reads do not matter to the invariant. -/
theorem Coherent.withEvictions (coherent : c.Coherent) (evictions : UInt64) :
    Coherent { c with evictions := evictions } :=
  ⟨coherent.keys, coherent.ids, coherent.index, coherent.fresh, coherent.bytes,
    coherent.curBytes⟩

/-- Making room keeps the invariant and adds nothing. -/
theorem Coherent.evict {c : LRUCache} (coherent : c.Coherent) (fuel : ℕ) :
    (evict fuel c).Coherent ∧ ∀ n ∈ (LRUCache.evict fuel c).order, n ∈ c.order := by
  induction fuel generalizing c with
  | zero => exact ⟨coherent, fun n mem => mem⟩
  | succ fuel ih =>
      unfold LRUCache.evict
      split
      · cases last : c.order.getLast? with
        | none => exact ⟨coherent, fun n mem => mem⟩
        | some back =>
            have mem := List.mem_of_getLast? last
            obtain ⟨kept, fewer⟩ := ih ((coherent.remove mem).withEvictions (c.evictions + 1))
            exact ⟨kept, fun n inside => mem_of_mem_unlink (fewer n inside)⟩
      · exact ⟨coherent, fun n mem => mem⟩

theorem Coherent.put (coherent : c.Coherent) (k : ByteString) (e : CacheEntry) :
    (c.put k e).Coherent := ((coherent.store k e).evict _).1

theorem Coherent.erase (coherent : c.Coherent) (k : ByteString) : (c.erase k).2.Coherent := by
  unfold LRUCache.erase
  cases found : c.lookup k with
  | none => exact coherent
  | some n => exact coherent.remove (coherent.lookup_eq_some_iff.mp found).1

/-- Dropping several resident nodes, one after the other. -/
theorem Coherent.foldl_remove {l : List Node} {c : LRUCache} (coherent : c.Coherent)
    (inside : ∀ n ∈ l, n ∈ c.order) (distinct : l.Nodup) :
    (l.foldl LRUCache.remove c).Coherent ∧
      ∀ m, m ∈ (l.foldl LRUCache.remove c).order ↔ m ∈ c.order ∧ m ∉ l := by
  induction l generalizing c with
  | nil => exact ⟨coherent, fun m => by simp⟩
  | cons n l ih =>
      obtain ⟨notAgain, distinct⟩ := List.nodup_cons.mp distinct
      have mem := inside n List.mem_cons_self
      have other : ∀ m ∈ c.order, m.id ≠ n.id ↔ m ≠ n := fun m left =>
        ⟨fun apart same => apart (congrArg Node.id same),
          fun apart same => apart (coherent.eq_of_id left mem same)⟩
      obtain ⟨kept, rest⟩ := ih (coherent.remove mem) (fun m later =>
        mem_unlink_of_ne (inside m (List.mem_cons_of_mem _ later))
          ((other m (inside m (List.mem_cons_of_mem _ later))).mpr
            fun same => notAgain (same ▸ later))) distinct
      refine ⟨kept, fun m => (rest m).trans ?_⟩
      rw [LRUCache.remove, mem_unlink, List.mem_cons, not_or, and_assoc]
      exact and_congr_right fun left => and_congr_left fun _ => other m left

/-- The shared loop keeps the invariant and leaves exactly what the test spares. -/
theorem Coherent.removeIf (coherent : c.Coherent) (test : Node → Bool) :
    (c.removeIf test).2.Coherent ∧
      ∀ m, m ∈ (c.removeIf test).2.order ↔ m ∈ c.order ∧ test m = false := by
  obtain ⟨kept, rest⟩ := coherent.foldl_remove (l := c.order.filter test)
    (fun n mem => (List.mem_filter.mp mem).1) (coherent.ids.of_map.filter _)
  refine ⟨kept, fun m => (rest m).trans ?_⟩
  rw [List.mem_filter, not_and, Bool.not_eq_true]
  exact ⟨fun ⟨mem, spared⟩ => ⟨mem, spared mem⟩, fun ⟨mem, spared⟩ => ⟨mem, fun _ => spared⟩⟩

theorem Coherent.purge (coherent : c.Coherent) (pattern : ByteString) :
    (c.purge pattern).2.Coherent := (coherent.removeIf _).1

theorem Coherent.sweepExpired (coherent : c.Coherent) (now : ℤ) :
    (c.sweepExpired now).2.Coherent := (coherent.removeIf _).1

/-! ## What the operations do to the resident entries -/

/-- The budget is fixed at construction. -/
theorem store_maxBytes (k : ByteString) (e : CacheEntry) :
    (c.store k e).maxBytes = c.maxBytes := by
  unfold store
  cases c.lookup k <;> rfl

/-- Where nothing has to be evicted, `put` is `store`. -/
theorem put_of_fits {k : ByteString} {e : CacheEntry}
    (fits : (c.store k e).curBytes ≤ c.maxBytes) : c.put k e = c.store k e := by
  have room : ¬ (c.store k e).maxBytes < (c.store k e).curBytes := by
    rw [store_maxBytes, UInt64.not_lt]
    exact fits
  unfold put evictToFit
  cases (c.store k e).order.length with
  | zero => rfl
  | succ fuel => exact if_neg room

section Spec

variable (coherent : c.Coherent) {k k' : ByteString} {e e' : CacheEntry}
include coherent

/-- **`get` answers the resident entry of the key.** -/
theorem get_eq_some_iff : (c.get k).1 = some e ↔ c.Holds k e := by
  unfold get
  cases found : c.lookup k with
  | none =>
      refine iff_of_false (by simp) ?_
      rintro ⟨n, mem, key, -⟩
      exact coherent.lookup_eq_none_iff.mp found n mem key
  | some n =>
      obtain ⟨mem, key⟩ := coherent.lookup_eq_some_iff.mp found
      rw [Option.some.injEq]
      constructor
      · rintro rfl
        exact ⟨n, mem, key, rfl⟩
      · exact coherent.holds_unique ⟨n, mem, key, rfl⟩

/-- Once a node has been replaced, its key holds the new entry and the other
keys hold what they held. -/
theorem holds_replace {c' : LRUCache} {n m : Node} (mem : n ∈ c.order)
    (moved : c'.order = m :: c.unlink n.id) (key : m.key = n.key) :
    c'.Holds k' e' ↔ (k' = n.key ∧ e' = m.entry) ∨ (k' ≠ n.key ∧ c.Holds k' e') := by
  rw [Holds, moved]
  constructor
  · rintro ⟨l, inside, rfl, rfl⟩
    rcases List.mem_cons.mp inside with rfl | left
    · exact Or.inl ⟨key, rfl⟩
    · rw [mem_unlink] at left
      obtain ⟨old, other⟩ := left
      exact Or.inr ⟨fun same => other (congrArg Node.id (coherent.eq_of_key old mem same)),
        l, old, rfl, rfl⟩
  · rintro (⟨rfl, rfl⟩ | ⟨other, l, old, rfl, rfl⟩)
    · exact ⟨m, List.mem_cons_self, key, rfl⟩
    · refine ⟨l, List.mem_cons_of_mem _ (mem_unlink_of_ne old fun same => other ?_), rfl, rfl⟩
      rw [coherent.eq_of_id old mem same]

/-- `get` changes the order of the nodes and nothing else. -/
theorem holds_get : (c.get k).2.Holds k' e' ↔ c.Holds k' e' := by
  unfold get
  cases found : c.lookup k with
  | none => rfl
  | some n =>
      obtain ⟨mem, -⟩ := coherent.lookup_eq_some_iff.mp found
      refine (holds_replace coherent mem rfl rfl).trans ?_
      by_cases here : k' = n.key
      · simp only [here, true_and, ne_eq, not_true_eq_false, false_and, or_false]
        exact ⟨fun same => ⟨n, mem, rfl, same.symm⟩,
          fun held => coherent.holds_unique held ⟨n, mem, rfl, rfl⟩⟩
      · simp [here]

/-- What `store` makes resident. -/
theorem holds_store : (c.store k e).Holds k' e' ↔
    (k' = k ∧ e' = e) ∨ (k' ≠ k ∧ c.Holds k' e') := by
  unfold store
  cases found : c.lookup k with
  | none =>
      have absent := coherent.lookup_eq_none_iff.mp found
      constructor
      · rintro ⟨m, inside, rfl, rfl⟩
        rcases List.mem_cons.mp inside with rfl | old
        · exact Or.inl ⟨rfl, rfl⟩
        · exact Or.inr ⟨absent m old, m, old, rfl, rfl⟩
      · rintro (⟨rfl, rfl⟩ | ⟨-, m, old, rfl, rfl⟩)
        · exact ⟨_, List.mem_cons_self, rfl, rfl⟩
        · exact ⟨m, List.mem_cons_of_mem _ old, rfl, rfl⟩
  | some n =>
      obtain ⟨mem, rfl⟩ := coherent.lookup_eq_some_iff.mp found
      exact holds_replace coherent (m := { n with entry := e, bytes := e.sizeBytes }) mem rfl rfl

/-- **`put` installs its own entry or nothing**: whatever is resident
afterwards is the new entry, or an entry of another key that was there before. -/
theorem holds_of_put (after : (c.put k e).Holds k' e') :
    (k' = k ∧ e' = e) ∨ (k' ≠ k ∧ c.Holds k' e') := by
  obtain ⟨n, mem, rest⟩ := after
  exact (holds_store coherent).mp ⟨n, ((coherent.store k e).evict _).2 n mem, rest⟩

/-- An entry that fits is resident after `put`, if the cache holds no other key. -/
theorem holds_put_of_sole (sole : ∀ n ∈ c.order, n.key = k) (fits : e.sizeBytes ≤ c.maxBytes) :
    (c.put k e).Holds k e := by
  have only : (c.store k e).curBytes = e.sizeBytes := by
    have held := (coherent.store k e).curBytes
    rw [held]
    unfold store
    cases found : c.lookup k with
    | none =>
        have none : c.order = [] := List.eq_nil_iff_forall_not_mem.mpr fun n mem =>
          coherent.lookup_eq_none_iff.mp found n mem (sole n mem)
        simp [none]
    | some n =>
        obtain ⟨mem, key⟩ := coherent.lookup_eq_some_iff.mp found
        have none : c.unlink n.id = [] := List.eq_nil_iff_forall_not_mem.mpr fun m left => by
          rw [mem_unlink] at left
          obtain ⟨old, other⟩ := left
          exact other (congrArg Node.id (coherent.eq_of_key old mem ((sole m old).trans key.symm)))
        simp [none]
  rw [put_of_fits (only ▸ fits)]
  exact (holds_store coherent).mpr (Or.inl ⟨rfl, rfl⟩)

/-- **`erase` drops the entry of its key and nothing else**, and reports whether there was one. -/
theorem holds_erase : (c.erase k).2.Holds k' e' ↔ k' ≠ k ∧ c.Holds k' e' := by
  unfold erase
  cases found : c.lookup k with
  | none =>
      have absent := coherent.lookup_eq_none_iff.mp found
      refine ⟨fun held => ⟨?_, held⟩, And.right⟩
      obtain ⟨m, mem, key, -⟩ := held
      exact key ▸ absent m mem
  | some n =>
      obtain ⟨mem, rfl⟩ := coherent.lookup_eq_some_iff.mp found
      constructor
      · rintro ⟨m, left, rfl, rfl⟩
        change m ∈ c.unlink n.id at left
        rw [mem_unlink] at left
        obtain ⟨inside, other⟩ := left
        exact ⟨fun same => other (congrArg Node.id (coherent.eq_of_key inside mem same)),
          m, inside, rfl, rfl⟩
      · rintro ⟨other, m, inside, rfl, rfl⟩
        refine ⟨m, mem_unlink_of_ne inside fun same => other ?_, rfl, rfl⟩
        rw [coherent.eq_of_id inside mem same]

theorem erase_eq_true_iff : (c.erase k).1 = true ↔ ∃ e, c.Holds k e := by
  unfold erase
  cases found : c.lookup k with
  | none =>
      refine iff_of_false Bool.false_ne_true ?_
      rintro ⟨e, m, mem, key, -⟩
      exact coherent.lookup_eq_none_iff.mp found m mem key
  | some n =>
      obtain ⟨mem, key⟩ := coherent.lookup_eq_some_iff.mp found
      exact iff_of_true rfl ⟨n.entry, n, mem, key, rfl⟩

/-- **`purge` drops exactly the keys the pattern matches.** -/
theorem holds_purge {pattern : ByteString} :
    (c.purge pattern).2.Holds k e ↔ c.Holds k e ∧ purgeMatches pattern k = false := by
  constructor
  · rintro ⟨n, mem, rfl, rfl⟩
    obtain ⟨inside, spared⟩ := ((coherent.removeIf _).2 n).mp mem
    exact ⟨⟨n, inside, rfl, rfl⟩, spared⟩
  · rintro ⟨⟨n, inside, rfl, rfl⟩, spared⟩
    exact ⟨n, ((coherent.removeIf _).2 n).mpr ⟨inside, spared⟩, rfl, rfl⟩

/-- **`sweepExpired` drops exactly what could not even be served stale.** -/
theorem holds_sweepExpired {now : ℤ} :
    (c.sweepExpired now).2.Holds k e ↔ c.Holds k e ∧ e.isServeableStale now = true := by
  constructor
  · rintro ⟨n, mem, rfl, rfl⟩
    obtain ⟨inside, spared⟩ := ((coherent.removeIf _).2 n).mp mem
    exact ⟨⟨n, inside, rfl, rfl⟩, by simpa using spared⟩
  · rintro ⟨⟨n, inside, rfl, rfl⟩, spared⟩
    exact ⟨n, ((coherent.removeIf _).2 n).mpr ⟨inside, by simpa using spared⟩, rfl, rfl⟩

end Spec

end LRUCache

end EdgeCache

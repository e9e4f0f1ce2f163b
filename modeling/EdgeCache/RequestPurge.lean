import EdgeCache.CacheRuns
import EdgeCache.ShardedCache

/-!
# What a purge does to requests

`ShardedCache::purge` visits every shard.  Seen from the requests whose keys are in the
cache it is **exact** (`purge_exact`): the requests whose path the pattern matches find
nothing any more, whatever their query string and wherever their shard, and all others
find what they found before.

Nothing here depends on how the cache came about: `ShardedCache` carries its invariant.
-/

namespace EdgeCache

namespace LRUCache

variable {c : LRUCache}

/-- The number of nodes `purge` reports is the number it removes. -/
theorem Coherent.count_purge (coherent : c.Coherent) (pattern : ByteString) :
    (c.purge pattern).1 + (c.purge pattern).2.count = c.count := by
  rw [(coherent.purge pattern).count_eq, coherent.count_eq, LRUCache.purge,
    coherent.order_removeIf, LRUCache.removeIf]
  exact (List.length_eq_length_filter_add _).symm

/-- Nothing is left for a second purge. -/
theorem Coherent.purge_purge (coherent : c.Coherent) (pattern : ByteString) :
    (c.purge pattern).2.purge pattern = (0, (c.purge pattern).2) := by
  have spared : (c.purge pattern).2.order.filter
      (fun n => purgeMatches pattern n.key) = [] := by
    rw [LRUCache.purge, coherent.order_removeIf, List.filter_filter, List.filter_eq_nil_iff]
    simp
  rw [LRUCache.purge, LRUCache.removeIf, spared]
  rfl

end LRUCache

namespace ShardedCache

/-- `ShardedCache::purge`. -/
def purge (c : ShardedCache) (pattern : ByteString) : ℕ × ShardedCache :=
  ((c.shards.map fun s => (s.purge pattern).1).sum,
    { shards := c.shards.map fun s => (s.purge pattern).2
      nonempty := by rw [List.length_map]; exact c.nonempty
      coherent := fun s mem => by
        obtain ⟨before, inside, rfl⟩ := List.mem_map.mp mem
        exact (c.coherent before inside).purge pattern })

/-- `ShardedCache::count`. -/
def count (c : ShardedCache) : ℕ := (c.shards.map LRUCache.count).sum

variable {c : ShardedCache} {hash : ByteString → UInt64} {k : ByteString} {e : CacheEntry}

theorem eq_of_shards {c c' : ShardedCache} (same : c.shards = c'.shards) : c = c' := by
  cases c
  cases c'
  cases same
  rfl

/-- The rounds of the loop, one shard after the other, add up to the whole purge. -/
theorem purge_eq_foldl (pattern : ByteString) :
    (c.purge pattern).2 =
      (List.range c.shards.length).foldl (fun c i => c.purgeShard i pattern) c := by
  have rounds : ∀ n i : ℕ,
      ((List.range n).foldl (fun c i => c.purgeShard i pattern) c).shards[i]? =
        c.shards[i]?.map fun s => if i < n then (s.purge pattern).2 else s := by
    intro n i
    induction n with
    | zero => simp
    | succ n ih =>
        rw [List.range_succ, List.foldl_append, List.foldl_cons, List.foldl_nil]
        change (List.modify _ n _)[i]? = _
        rw [List.getElem?_modify, ih]
        cases c.shards[i]? with
        | none => rfl
        | some s =>
            rcases lt_trichotomy n i with before | rfl | later
            · simp [before.ne, Nat.not_lt_of_lt before, Nat.not_lt.mpr before]
            · simp
            · simp [later.ne', later, Nat.lt_succ_of_lt later]
  refine eq_of_shards (List.ext_getElem? fun i => ?_)
  rw [rounds, purge, List.getElem?_map]
  by_cases inside : i < c.shards.length
  · simp [inside]
  · simp [List.getElem?_eq_none (Nat.le_of_not_lt inside)]

theorem shardFor_purge {pattern : ByteString} :
    (c.purge pattern).2.shardFor hash k = ((c.shardFor hash k).purge pattern).2 := by
  simp only [shardFor, shardIndex, purge, List.get_eq_getElem, List.length_map, List.getElem_map]

/-- **A purge drops exactly the keys the pattern matches**, in whichever shard they are. -/
theorem holds_purge {pattern : ByteString} :
    (c.purge pattern).2.Holds hash k e ↔ c.Holds hash k e ∧ purgeMatches pattern k = false := by
  rw [Holds, shardFor_purge]
  exact LRUCache.holds_purge (c.coherent_shardFor hash k)

/-- A matching key is not found after the purge. -/
theorem get_purge_of_matches {pattern : ByteString} (matched : purgeMatches pattern k = true) :
    ((c.purge pattern).2.get hash k).1 = none := by
  refine Option.eq_none_iff_forall_ne_some.mpr fun e found => ?_
  have spared := (holds_purge.mp (get_eq_some_iff.mp found)).2
  rw [matched] at spared
  cases spared

/-- Any other key is found as before. -/
theorem get_purge_of_not_matches {pattern : ByteString}
    (spared : purgeMatches pattern k = false) :
    ((c.purge pattern).2.get hash k).1 = (c.get hash k).1 := by
  refine Option.ext fun e => ?_
  rw [get_eq_some_iff, get_eq_some_iff, holds_purge]
  exact and_iff_left spared

theorem count_purge (pattern : ByteString) :
    (c.purge pattern).1 + (c.purge pattern).2.count = c.count := by
  rw [count, count, purge, List.map_map, ← List.sum_map_add]
  refine congrArg List.sum (List.map_congr_left fun s mem => ?_)
  exact (c.coherent s mem).count_purge pattern

theorem purge_purge (pattern : ByteString) :
    (c.purge pattern).2.purge pattern = (0, (c.purge pattern).2) := by
  have again : ∀ s ∈ c.shards, (s.purge pattern).2.purge pattern = (0, (s.purge pattern).2) :=
    fun s mem => (c.coherent s mem).purge_purge pattern
  refine Prod.ext ?_ (eq_of_shards ?_)
  · simp only [purge, List.map_map]
    refine List.sum_eq_zero fun n mem => ?_
    obtain ⟨s, inside, rfl⟩ := List.mem_map.mp mem
    exact congrArg Prod.fst (again s inside)
  · change (c.shards.map _).map _ = c.shards.map _
    rw [List.map_map]
    refine List.map_congr_left fun s mem => ?_
    rw [Function.comp, again s mem]

/-- **A purge is exact for requests.**  After it, the requests whose path the pattern
matches find nothing and all others find what they found; it returns how many entries it
removed, and a second one removes nothing and changes nothing. -/
theorem purge_exact (c : ShardedCache) (hash : ByteString → UInt64) {host : ByteString}
    (hostPlain : BAR ∉ host) (pattern : ByteString) :
    (∀ buffer rest r, parse buffer = .complete r rest → r.isCacheableMethod = true →
      (PathMatches pattern r.path →
        ((c.purge pattern).2.get hash (CacheKey.fromRequest r host)).1 = none) ∧
      (¬ PathMatches pattern r.path →
        ((c.purge pattern).2.get hash (CacheKey.fromRequest r host)).1 =
          (c.get hash (CacheKey.fromRequest r host)).1)) ∧
    (c.purge pattern).1 + (c.purge pattern).2.count = c.count ∧
    (c.purge pattern).2.purge pattern = (0, (c.purge pattern).2) := by
  refine ⟨fun buffer rest r accepted cacheable => ?_, count_purge pattern, purge_purge pattern⟩
  have exact_ := purgeMatches_fromRequest pattern cacheable hostPlain (plainPath_of_parse accepted)
  refine ⟨fun matched => get_purge_of_matches (exact_.mpr matched), fun spared => ?_⟩
  exact get_purge_of_not_matches (Bool.eq_false_iff.mpr (exact_.not.mpr spared))

/-- A cache of four shards that holds a response to `/a/b?x=1`. -/
def oneResponse : ShardedCache :=
  (create 10000 4).put (fun _ => 7)
    (CacheKey.fromRequest (plainGet (bytes "/a/b") (bytes "x=1")) (bytes "h"))
    (LRUCache.bodyEntry (bytes "x"))

/-- A prefix takes it away. -/
theorem purge_exact_oneResponse :
    (oneResponse.get (fun _ => 7)
        (CacheKey.fromRequest (plainGet (bytes "/a/b") (bytes "x=1")) (bytes "h"))).1 ≠ none ∧
      ((oneResponse.purge (bytes "/a*")).2.get (fun _ => 7)
        (CacheKey.fromRequest (plainGet (bytes "/a/b") (bytes "x=1")) (bytes "h"))).1 = none := by
  have hostPlain : BAR ∉ bytes "h" := by decide
  have accepted : parse (bytes "GET /a/b?x=1 HTTP/1.1\r\n\r\n") =
      .complete (plainGet (bytes "/a/b") (bytes "x=1")) [] := by decide +kernel
  refine ⟨by decide +kernel, ?_⟩
  have gone := (purge_exact oneResponse (fun _ => 7) hostPlain (bytes "/a*")).1 _ _ _ accepted
    (by decide +kernel)
  exact gone.1 (Or.inr (Or.inr (Or.inl ⟨by decide +kernel, by decide +kernel⟩)))

end ShardedCache

end EdgeCache

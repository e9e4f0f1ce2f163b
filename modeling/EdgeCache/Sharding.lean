import EdgeCache.ByteBudget
import EdgeCache.CacheRecency

/-!
# Sharding is invisible

A key is resident in no shard but the one its hash selects (`placed_of_run`), so the shards
partition what is cached.  As long as nothing is evicted they answer together as one
`LRUCache` does that never evicts (`answers_of_meets`): the keyed operations meet the shard of their
key, and what `purge`, `sweepExpired`, `count` and `sizeBytes` add up over the shards is what the
single cache counts, since both hold the same pairs (`Mirrors.perm`).
-/

namespace EdgeCache

open Recency Transition

/-- Lists whose elements tell which list they are in have no element twice. -/
theorem nodup_flatten_of_placed {α : Type*} {ls : List (List α)} (place : α → ℕ)
    (each : ∀ l ∈ ls, l.Nodup) (placed : ∀ i l, ls[i]? = some l → ∀ a ∈ l, place a = i) :
    ls.flatten.Nodup := by
  refine List.nodup_flatten.mpr ⟨each, List.pairwise_iff_getElem.mpr fun i j hi hj less => ?_⟩
  intro a left right
  have first := placed i _ (List.getElem?_eq_getElem hi) a left
  have second := placed j _ (List.getElem?_eq_getElem hj) a right
  omega

namespace LRUCache

/-- `LRUCache::sizeBytes`. -/
def sizeBytes (c : LRUCache) : UInt64 := c.curBytes

/-- A budget that the byte counter cannot exceed. -/
def unlimited : UInt64 := 18446744073709551615

variable {c : LRUCache} {k : ByteString} {e : CacheEntry}

theorem mem_recency : (k, e) ∈ c.recency ↔ c.Holds k e := by
  rw [recency, List.mem_map]
  constructor
  · rintro ⟨n, mem, same⟩
    cases same
    exact ⟨n, mem, rfl, rfl⟩
  · rintro ⟨n, mem, rfl, rfl⟩
    exact ⟨n, mem, rfl⟩

/-- The pairs of a shard are distinct. -/
theorem Coherent.nodup_recency (coherent : c.Coherent) : c.recency.Nodup :=
  List.Nodup.of_map Prod.fst (recency_keys c ▸ coherent.keys)

/-- `count()` counts the pairs. -/
theorem Coherent.count_recency (coherent : c.Coherent) : c.count = c.recency.length := by
  rw [coherent.count_eq, recency, List.length_map]

/-- `sizeBytes()` sums up the sizes of the pairs. -/
theorem Coherent.sizeBytes_recency (coherent : c.Coherent) :
    c.sizeBytes.toNat = total RecencyList.weight c.recency % 2 ^ 64 := by
  have weights : total RecencyList.weight c.recency = total Node.weight c.order := by
    rw [total, total, recency, List.map_map]
    refine congrArg List.sum (List.map_congr_left fun n mem => ?_)
    rw [Node.weight, coherent.bytes n mem]
    rfl
  rw [weights, ← toNat_sum_bytes, sizeBytes, coherent.curBytes]

end LRUCache

namespace ShardedCache

/-- `ShardedCache::sizeBytes`. -/
def sizeBytes (c : ShardedCache) : UInt64 := (c.shards.map LRUCache.sizeBytes).sum

/-- One operation, with what it returns. -/
def answer (c : ShardedCache) (hash : ByteString → UInt64) : CacheOp → CacheReply × ShardedCache
  | .get k => (.found (c.get hash k).1, (c.get hash k).2)
  | .put k e => (.stored, c.put hash k e)
  | .erase k => (.erased (c.erase hash k).1, (c.erase hash k).2)
  | .purge pattern => (.removed (c.purge pattern).1, (c.purge pattern).2)
  | .sweepExpired now => (.removed (c.sweepExpired now).1, (c.sweepExpired now).2)

/-- Operations one after the other, with what they return. -/
def answerAll (hash : ByteString → UInt64) :
    ShardedCache → List CacheOp → List CacheReply × ShardedCache
  | c, [] => ([], c)
  | c, op :: ops =>
      let (reply, c') := c.answer hash op
      let (replies, c'') := answerAll hash c' ops
      (reply :: replies, c'')

/-- No shard evicts: what is put fits into the shard of its key. -/
def Roomy (hash : ByteString → UInt64) (c : ShardedCache) : ShardedOp → Prop
  | .call (.put k e) =>
      ((c.shardFor hash k).store k e).curBytes ≤ (c.shardFor hash k).maxBytes
  | _ => True

/-- **Every key is resident in no shard but the one its hash selects.** -/
def Placed (hash : ByteString → UInt64) (c : ShardedCache) : Prop :=
  ∀ i s, c.shards[i]? = some s → ∀ k e, s.Holds k e → i = c.shardIndex hash k

variable {c : ShardedCache} {hash : ByteString → UInt64} {k k' : ByteString} {e e' : CacheEntry}

theorem answer_snd (op : CacheOp) : (c.answer hash op).2 = c.perform hash (.call op) := by
  cases op <;> rfl

/-! ## Where a key is -/

theorem placed_create (maxBytes : UInt64) (shards : ℕ) : Placed hash (create maxBytes shards) := by
  intro i s found k e held
  rw [(List.mem_replicate.mp (List.mem_of_getElem? found)).2] at held
  obtain ⟨n, mem, -⟩ := held
  exact absurd mem List.not_mem_nil

theorem Placed.perform (placed : c.Placed hash) (op : ShardedOp) :
    (c.perform hash op).Placed hash := by
  intro i s' found k e held
  obtain ⟨s, here, changed⟩ := getElem?_perform found
  rw [shardIndex_congr (length_perform op)]
  rcases changed with rfl | ⟨op', rfl, put⟩
  · exact placed i s' here k e held
  · rcases (c.coherent s (List.mem_of_getElem? here)).holds_perform held with old | is
    · exact placed i s here k e old
    · exact (put k e is).2

/-- **In every reachable state a key is in the shard its hash selects and in no other.** -/
theorem placed_of_run {maxBytes : UInt64} {shards : ℕ} {ops : List ShardedOp}
    (ran : run (next hash) (create maxBytes shards) ops = some c) : c.Placed hash := by
  refine (Steps.of_run (meets_true _ _ ops) ran).invariant (fun c op c' _ taken placed => ?_)
    (placed_create maxBytes shards)
  cases taken
  exact placed.perform op

/-! ## What the operations do to the resident entries -/

/-- Where there is room, `put` installs its entry and keeps the others. -/
theorem holds_put_of_roomy (roomy : Roomy hash c (.call (.put k e))) :
    (c.put hash k e).Holds hash k' e' ↔ (k' = k ∧ e' = e) ∨ (k' ≠ k ∧ c.Holds hash k' e') := by
  rw [Holds, put, shardFor_update]
  split
  · rename_i same
    have shard : c.shardFor hash k' = c.shardFor hash k := by
      simp only [shardFor, same]
    rw [shard, LRUCache.put_of_fits roomy, LRUCache.holds_store (c.coherent_shardFor hash k),
      Holds, shard]
  · rename_i apart
    have other : k' ≠ k := fun same => apart (by rw [same])
    simp [other, Holds]

/-- `erase` drops the entry of its key and nothing else. -/
theorem holds_erase :
    (c.erase hash k).2.Holds hash k' e' ↔ k' ≠ k ∧ c.Holds hash k' e' := by
  rw [Holds, erase, shardFor_update]
  split
  · exact LRUCache.holds_erase (c.coherent_shardFor hash k')
  · rename_i apart
    have other : k' ≠ k := fun same => apart (by rw [same])
    simp [other, Holds]

theorem shardFor_sweepExpired {now : ℤ} :
    (c.sweepExpired now).2.shardFor hash k = ((c.shardFor hash k).sweepExpired now).2 := by
  simp only [shardFor, shardIndex, sweepExpired, List.get_eq_getElem, List.length_map,
    List.getElem_map]

/-- A sweep drops what cannot be served any more, in whichever shard it is. -/
theorem holds_sweepExpired {now : ℤ} :
    (c.sweepExpired now).2.Holds hash k e ↔ c.Holds hash k e ∧ e.isServeableStale now = true := by
  rw [Holds, shardFor_sweepExpired]
  exact LRUCache.holds_sweepExpired (c.coherent_shardFor hash k)

/-! ## All shards together -/

/-- The pairs of all shards. -/
def pairs (c : ShardedCache) : RecencyList := (c.shards.map LRUCache.recency).flatten

/-- What the shards report added up is what their pairs amount to. -/
theorem sum_eq_countP {count : LRUCache → ℕ} {test : ByteString × CacheEntry → Bool}
    (each : ∀ s : LRUCache, s.Coherent → count s = s.recency.countP test) :
    (c.shards.map count).sum = c.pairs.countP test := by
  rw [pairs, List.countP_flatten, List.map_map]
  exact congrArg List.sum (List.map_congr_left fun s mem => each s (c.coherent s mem))

theorem count_eq_length : c.count = c.pairs.length := by
  rw [count, pairs, List.length_flatten, List.map_map]
  exact congrArg List.sum
    (List.map_congr_left fun s mem => (c.coherent s mem).count_recency)

theorem toNat_sizeBytes :
    c.sizeBytes.toNat = total RecencyList.weight c.pairs % 2 ^ 64 := by
  have summed : ∀ l : List LRUCache, (∀ s ∈ l, s.Coherent) →
      (l.map LRUCache.sizeBytes).sum.toNat =
        total RecencyList.weight (l.map LRUCache.recency).flatten % 2 ^ 64 := by
    intro l coherent
    induction l with
    | nil => rfl
    | cons s l ih =>
        have rest := ih fun t mem => coherent t (List.mem_cons_of_mem _ mem)
        have first := (coherent s List.mem_cons_self).sizeBytes_recency
        rw [List.map_cons, List.sum_cons, List.map_cons, List.flatten_cons, total_append,
          UInt64.toNat_add, first, rest]
        omega
  exact summed c.shards c.coherent

theorem Placed.mem_pairs (placed : c.Placed hash) : (k, e) ∈ c.pairs ↔ c.Holds hash k e := by
  rw [pairs, List.mem_flatten]
  constructor
  · rintro ⟨l, mem, inside⟩
    obtain ⟨s, shard, rfl⟩ := List.mem_map.mp mem
    obtain ⟨i, found⟩ := List.mem_iff_getElem?.mp shard
    have held := LRUCache.mem_recency.mp inside
    obtain rfl := placed i s found k e held
    rw [Holds, shardFor_of_getElem? found]
    exact held
  · intro held
    exact ⟨_, List.mem_map_of_mem (List.get_mem _ _), LRUCache.mem_recency.mpr held⟩

theorem Placed.nodup_pairs (placed : c.Placed hash) : c.pairs.Nodup := by
  refine nodup_flatten_of_placed (fun p => c.shardIndex hash p.1) ?_ ?_
  · intro l mem
    obtain ⟨s, inside, rfl⟩ := List.mem_map.mp mem
    exact (c.coherent s inside).nodup_recency
  · rintro i l found ⟨k, e⟩ mem
    rw [List.getElem?_map] at found
    obtain ⟨s, here, rfl⟩ := Option.map_eq_some_iff.mp found
    exact (placed i s here k e (LRUCache.mem_recency.mp mem)).symm

/-! ## The simulation -/

/-- **The shards hold together what a cache without a budget holds.** -/
structure Mirrors (hash : ByteString → UInt64) (c : ShardedCache) (s : LRUCache) : Prop where
  placed : c.Placed hash
  coherent : s.Coherent
  budget : s.maxBytes = LRUCache.unlimited
  same : ∀ k e, c.Holds hash k e ↔ s.Holds k e

variable {s : LRUCache}

theorem mirrors_create (maxBytes : UInt64) (shards : ℕ) :
    Mirrors hash (create maxBytes shards) (.empty LRUCache.unlimited) where
  placed := placed_create maxBytes shards
  coherent := LRUCache.coherent_empty _
  budget := rfl
  same k e := by
    refine iff_of_false not_holds_create ?_
    rintro ⟨n, mem, -⟩
    exact absurd mem List.not_mem_nil

/-- The pairs are the same, in some order. -/
theorem Mirrors.perm (mirrors : Mirrors hash c s) : c.pairs.Perm s.recency := by
  refine (List.perm_ext_iff_of_nodup mirrors.placed.nodup_pairs
    mirrors.coherent.nodup_recency).mpr fun p => ?_
  rw [mirrors.placed.mem_pairs, LRUCache.mem_recency]
  exact mirrors.same p.1 p.2

theorem Mirrors.count (mirrors : Mirrors hash c s) : c.count = s.count := by
  rw [count_eq_length, mirrors.coherent.count_recency, mirrors.perm.length_eq]

theorem Mirrors.sizeBytes (mirrors : Mirrors hash c s) : c.sizeBytes = s.sizeBytes := by
  refine UInt64.toNat_inj.mp ?_
  rw [toNat_sizeBytes, mirrors.coherent.sizeBytes_recency, total_perm mirrors.perm]

/-- A cache without a budget never evicts. -/
theorem Mirrors.put_eq (mirrors : Mirrors hash c s) : s.put k e = s.store k e := by
  refine LRUCache.put_of_fits ?_
  rw [mirrors.budget, UInt64.le_iff_toNat_le]
  exact Nat.le_of_lt_succ (UInt64.toNat_lt _)

/-- **One operation** returns the same and keeps the two alike. -/
theorem Mirrors.answer (mirrors : Mirrors hash c s) {op : CacheOp}
    (roomy : Roomy hash c (.call op)) :
    (c.answer hash op).1 = (s.perform op).1 ∧
      Mirrors hash (c.answer hash op).2 (s.perform op).2 := by
  have coherent := mirrors.coherent
  have counts : ∀ test : ByteString × CacheEntry → Bool,
      c.pairs.countP test = s.recency.countP test := fun test => mirrors.perm.countP_eq test
  -- The replies, and what is resident afterwards; where it is and the budget do not depend on it.
  have step : (c.answer hash op).1 = (s.perform op).1 ∧
      ∀ k' e', (c.answer hash op).2.Holds hash k' e' ↔ (s.perform op).2.Holds k' e' := by
    cases op with
    | get k =>
        refine ⟨congrArg CacheReply.found (Option.ext fun e => ?_), fun k' e' => ?_⟩
        · exact get_eq_some_iff.trans
            ((mirrors.same k e).trans (LRUCache.get_eq_some_iff coherent).symm)
        · exact holds_get.trans ((mirrors.same k' e').trans (LRUCache.holds_get coherent).symm)
    | put k e =>
        refine ⟨rfl, fun k' e' => ?_⟩
        change (c.put hash k e).Holds hash k' e' ↔ (s.put k e).Holds k' e'
        rw [holds_put_of_roomy roomy, mirrors.put_eq, LRUCache.holds_store coherent, mirrors.same]
    | erase k =>
        refine ⟨congrArg CacheReply.erased ?_, fun k' e' => ?_⟩
        · rw [Bool.eq_iff_iff, LRUCache.erase_eq_true_iff coherent]
          exact (LRUCache.erase_eq_true_iff (c.coherent_shardFor hash k)).trans
            (exists_congr fun e => mirrors.same k e)
        · exact holds_erase.trans ((and_congr_right fun _ => mirrors.same k' e').trans
            (LRUCache.holds_erase coherent).symm)
    | purge pattern =>
        have removed := fun (t : LRUCache) (kept : t.Coherent) => (kept.recency_removeIf
          (fun n => purgeMatches pattern n.key) (fun p => purgeMatches pattern p.1)
          fun _ => rfl).1
        refine ⟨congrArg CacheReply.removed ?_, fun k' e' => ?_⟩
        · exact (sum_eq_countP removed).trans ((counts _).trans (removed s coherent).symm)
        · exact holds_purge.trans ((and_congr_left fun _ => mirrors.same k' e').trans
            (LRUCache.holds_purge coherent).symm)
    | sweepExpired now =>
        have removed := fun (t : LRUCache) (kept : t.Coherent) => (kept.recency_removeIf
          (fun n => !n.entry.isServeableStale now) (fun p => !p.2.isServeableStale now)
          fun _ => rfl).1
        refine ⟨congrArg CacheReply.removed ?_, fun k' e' => ?_⟩
        · exact (sum_eq_countP removed).trans ((counts _).trans (removed s coherent).symm)
        · exact holds_sweepExpired.trans ((and_congr_left fun _ => mirrors.same k' e').trans
            (LRUCache.holds_sweepExpired coherent).symm)
  refine ⟨step.1, ?_, coherent.perform op, ?_, step.2⟩
  · rw [answer_snd]
    exact mirrors.placed.perform _
  · rw [LRUCache.perform_maxBytes, mirrors.budget]

/-- **A run of operations.** -/
theorem Mirrors.answerAll {c : ShardedCache} {s : LRUCache} {ops : List CacheOp}
    (mirrors : Mirrors hash c s)
    (roomy : Meets (next hash) (Roomy hash) c (ops.map ShardedOp.call)) :
    (answerAll hash c ops).1 = (s.performAll ops).1 ∧
      Mirrors hash (answerAll hash c ops).2 (s.performAll ops).2 := by
  induction ops generalizing c s with
  | nil => exact ⟨rfl, mirrors⟩
  | cons op ops ih =>
      obtain ⟨reply, after⟩ := mirrors.answer roomy.1
      obtain ⟨replies, finally_⟩ := ih after (by
        rw [answer_snd]
        exact roomy.2 _ rfl)
      refine ⟨?_, finally_⟩
      simp only [ShardedCache.answerAll, LRUCache.performAll, reply, replies]

/-- **Sharding is invisible.**  As long as no shard evicts, a sharded cache returns what one cache
without a budget returns, and counts what it counts; and in every reachable state, evictions or
not, a key is resident in the shard its hash selects and in no other. -/
theorem sharding_invisible (hash : ByteString → UInt64) (maxBytes : UInt64) (shards : ℕ) :
    (∀ ops : List CacheOp,
      Meets (next hash) (Roomy hash) (create maxBytes shards) (ops.map ShardedOp.call) →
      (answerAll hash (create maxBytes shards) ops).1 =
          ((LRUCache.empty LRUCache.unlimited).performAll ops).1 ∧
        (answerAll hash (create maxBytes shards) ops).2.count =
          ((LRUCache.empty LRUCache.unlimited).performAll ops).2.count ∧
        (answerAll hash (create maxBytes shards) ops).2.sizeBytes =
          ((LRUCache.empty LRUCache.unlimited).performAll ops).2.sizeBytes) ∧
    ∀ (ops : List ShardedOp) (c : ShardedCache),
      run (next hash) (create maxBytes shards) ops = some c →
      ∀ i s k e, c.shards[i]? = some s → s.Holds k e → i = c.shardIndex hash k := by
  refine ⟨fun ops roomy => ?_, fun ops c ran i s k e found held => ?_⟩
  · obtain ⟨replies, mirrors⟩ := (mirrors_create maxBytes shards).answerAll roomy
    exact ⟨replies, mirrors.count, mirrors.sizeBytes⟩
  · exact placed_of_run ran i s found k e held

/-! ## A small run -/

/-- Two keys in different shards, one of them purged. -/
def twoShardOps : List CacheOp :=
  [.put (bytes "GET|h|/a") (LRUCache.bodyEntry (bytes "x")),
    .put (bytes "GET|h|/bb") (LRUCache.bodyEntry (bytes "y")), .purge (bytes "/a"),
    .get (bytes "GET|h|/bb"), .erase (bytes "GET|h|/a"), .sweepExpired 60000000000]

/-- Whether what is put fits into the shard of its key. -/
def roomyTest (hash : ByteString → UInt64) (c : ShardedCache) : ShardedOp → Bool
  | .call (.put k e) => ((c.shardFor hash k).store k e).curBytes ≤ (c.shardFor hash k).maxBytes
  | _ => true

theorem roomy_of_test (c : ShardedCache) (op : ShardedOp) (passed : roomyTest hash c op = true) :
    Roomy hash c op := by
  cases op with
  | call op =>
      cases op with
      | put k e =>
          have fits : ((c.shardFor hash k).store k e).curBytes ≤ (c.shardFor hash k).maxBytes :=
            of_decide_eq_true passed
          exact fits
      | _ => trivial
  | _ => trivial

theorem sharding_invisible_twoShardOps :
    (answerAll (fun k => UInt64.ofNat k.length) (create 140 2) twoShardOps).1 =
      ((LRUCache.empty LRUCache.unlimited).performAll twoShardOps).1 :=
  ((sharding_invisible (fun k => UInt64.ofNat k.length) 140 2).1 twoShardOps
    (meets_of_passes roomy_of_test
      (show passes (next _) (roomyTest fun k => UInt64.ofNat k.length) (create 140 2)
        (twoShardOps.map ShardedOp.call) = true by decide +kernel))).1

/-- What both return. -/
example : ((LRUCache.empty LRUCache.unlimited).performAll twoShardOps).1 =
    [.stored, .stored, .removed 1, .found (some (LRUCache.bodyEntry (bytes "y"))),
      .erased false, .removed 1] := by decide +kernel

end ShardedCache

end EdgeCache

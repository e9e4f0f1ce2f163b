import EdgeCache.CacheRuns

/-!
# A shard is a recency list

The specification is the list of the resident pairs, most recently touched first.  A hit
and a `put` move the key to the front, and a `put` then keeps the longest prefix of the
list that fits into the budget.  `LRUCache` returns what the specification returns
(`refines_of_run`).
-/

namespace EdgeCache

open Recency

/-- The resident pairs, most recently touched first. -/
abbrev RecencyList := List (ByteString × CacheEntry)

namespace RecencyList

/-- What a pair accounts for. -/
def weight (p : ByteString × CacheEntry) : ℕ := p.2.sizeBytes.toNat

/-- The entry of a key. -/
def lookup (l : RecencyList) (k : ByteString) : Option CacheEntry :=
  (l.find? fun p => p.1 = k).map Prod.snd

/-- The pairs of the other keys. -/
def without (l : RecencyList) (k : ByteString) : RecencyList := l.filter fun p => p.1 ≠ k

/-- Put a pair in front, in place of the one its key had. -/
def touch (l : RecencyList) (k : ByteString) (e : CacheEntry) : RecencyList :=
  (k, e) :: l.without k

/-- Perform an operation within a budget: the reply, the list and how many pairs were
dropped to make room. -/
def perform (budget : ℕ) (l : RecencyList) : CacheOp → CacheReply × RecencyList × ℕ
  | .get k =>
      match l.lookup k with
      | none => (.found none, l, 0)
      | some e => (.found (some e), l.touch k e, 0)
  | .put k e =>
      let kept := fitting weight budget (l.touch k e)
      (.stored, kept, (l.touch k e).length - kept.length)
  | .erase k => (.erased (l.any fun p => p.1 = k), l.without k, 0)
  | .purge pattern =>
      (.removed (l.countP fun p => purgeMatches pattern p.1),
        l.filter fun p => !purgeMatches pattern p.1, 0)
  | .sweepExpired now =>
      (.removed (l.countP fun p => !p.2.isServeableStale now),
        l.filter fun p => p.2.isServeableStale now, 0)

/-- Perform operations one after the other. -/
def performAll (budget : ℕ) : RecencyList → List CacheOp → List CacheReply × RecencyList × ℕ
  | l, [] => ([], l, 0)
  | l, op :: ops =>
      let (reply, l', dropped) := l.perform budget op
      let (replies, l'', more) := performAll budget l' ops
      (reply :: replies, l'', dropped + more)

/-- **Why a pair goes**: its key was put again, erased, purged or swept, or it was evicted
and does not fit together with everything touched more recently. -/
inductive Goes (budget : ℕ) (l : RecencyList) : CacheOp → ByteString × CacheEntry → Prop
  | replaced (k : ByteString) (e e' : CacheEntry) : Goes budget l (.put k e') (k, e)
  | evicted {k : ByteString} {e : CacheEntry} {p : ByteString × CacheEntry}
      {front back : RecencyList} (place : l.touch k e = front ++ p :: back)
      (large : budget < total weight (front ++ [p])) : Goes budget l (.put k e) p
  | erased (k : ByteString) (e : CacheEntry) : Goes budget l (.erase k) (k, e)
  | purged {pattern : ByteString} {p : ByteString × CacheEntry}
      (matched : purgeMatches pattern p.1 = true) : Goes budget l (.purge pattern) p
  | swept {now : ℤ} {p : ByteString × CacheEntry} (dead : p.2.isServeableStale now = false) :
      Goes budget l (.sweepExpired now) p

variable {budget : ℕ} {l : RecencyList} {p : ByteString × CacheEntry} {k : ByteString}
  {e : CacheEntry} {op : CacheOp}

theorem mem_without_of_ne (mem : p ∈ l) (other : p.1 ≠ k) : p ∈ l.without k := by
  simp [without, mem, other]

theorem mem_of_mem_without (mem : p ∈ l.without k) : p ∈ l := List.mem_of_mem_filter mem

/-- A pair that was found is a pair of the list. -/
theorem mem_of_lookup (found : l.lookup k = some e) : (k, e) ∈ l := by
  obtain ⟨⟨k', e'⟩, here, rfl⟩ := Option.map_eq_some_iff.mp found
  have same : k' = k := by simpa using List.find?_some here
  exact same ▸ List.mem_of_find?_eq_some here

theorem perform_get_miss (found : l.lookup k = none) :
    l.perform budget (.get k) = (.found none, l, 0) := by
  simp only [perform, found]

theorem perform_get_hit (found : l.lookup k = some e) :
    l.perform budget (.get k) = (.found (some e), l.touch k e, 0) := by
  simp only [perform, found]

/-- **A pair stays until there is a reason for it to go.** -/
theorem stays_or_goes (distinct : (l.map Prod.fst).Nodup) (mem : p ∈ l) :
    p ∈ (l.perform budget op).2.1 ∨ Goes budget l op p := by
  cases op with
  | get k =>
      refine Or.inl ?_
      cases found : l.lookup k with
      | none => rwa [perform_get_miss found]
      | some e =>
          rw [perform_get_hit found]
          by_cases same : p.1 = k
          · have only := List.inj_on_of_nodup_map distinct mem (mem_of_lookup found) same
            exact only ▸ List.mem_cons_self
          · exact List.mem_cons_of_mem _ (mem_without_of_ne mem same)
  | put k e =>
      obtain ⟨k', e'⟩ := p
      by_cases same : k' = k
      · exact Or.inr (same ▸ .replaced k' e' e)
      · by_cases kept : (k', e') ∈ fitting weight budget (l.touch k e)
        · exact Or.inl kept
        · have inside : (k', e') ∈ l.touch k e :=
            List.mem_cons_of_mem _ (mem_without_of_ne mem same)
          obtain ⟨front, back, place⟩ := List.append_of_mem inside
          exact Or.inr (.evicted place (lt_total_of_notMem_fitting place kept))
  | erase k =>
      obtain ⟨k', e'⟩ := p
      by_cases same : k' = k
      · exact Or.inr (same ▸ .erased k' e')
      · exact Or.inl (mem_without_of_ne mem same)
  | purge pattern =>
      by_cases matched : purgeMatches pattern p.1 = true
      · exact Or.inr (.purged matched)
      · exact Or.inl (List.mem_filter.mpr ⟨mem, by simpa using matched⟩)
  | sweepExpired now =>
      by_cases alive : p.2.isServeableStale now = true
      · exact Or.inl (List.mem_filter.mpr ⟨mem, alive⟩)
      · exact Or.inr (.swept (by simpa using alive))

/-- **A pair comes in by its own `put`.** -/
theorem came_or_was (mem : p ∈ (l.perform budget op).2.1) : p ∈ l ∨ op = .put p.1 p.2 := by
  cases op with
  | get k =>
      refine Or.inl ?_
      cases found : l.lookup k with
      | none => rwa [perform_get_miss found] at mem
      | some e =>
          rw [perform_get_hit found] at mem
          rcases List.mem_cons.mp mem with rfl | old
          · exact mem_of_lookup found
          · exact mem_of_mem_without old
  | put k e =>
      rcases List.mem_cons.mp ((prefix_fitting ..).subset mem) with rfl | old
      · exact Or.inr rfl
      · exact Or.inl (mem_of_mem_without old)
  | erase k => exact Or.inl (mem_of_mem_without mem)
  | purge pattern => exact Or.inl (List.mem_filter.mp mem).1
  | sweepExpired now => exact Or.inl (List.mem_filter.mp mem).1

end RecencyList

/-! ## The simulation -/

namespace LRUCache

variable {c : LRUCache} {k : ByteString} {e : CacheEntry}

/-- The pair a node stands for. -/
def pair (n : Node) : ByteString × CacheEntry := (n.key, n.entry)

/-- **The recency list a shard stands for.** -/
def recency (c : LRUCache) : RecencyList := c.order.map pair

theorem recency_keys (c : LRUCache) : c.recency.map Prod.fst = c.order.map (·.key) := by
  rw [recency, List.map_map]
  rfl

/-- The list finds what the index finds. -/
theorem Coherent.lookup_recency (coherent : c.Coherent) (k : ByteString) :
    c.recency.lookup k = (c.lookup k).map Node.entry := by
  cases found : c.lookup k with
  | none =>
      have absent := coherent.lookup_eq_none_iff.mp found
      have none : c.recency.find? (fun p => p.1 = k) = none := by
        rw [List.find?_eq_none, recency]
        intro p mem
        obtain ⟨n, inside, rfl⟩ := List.mem_map.mp mem
        exact fun here => absent n inside (of_decide_eq_true here)
      rw [RecencyList.lookup, none]
      rfl
  | some n =>
      obtain ⟨mem, rfl⟩ := coherent.lookup_eq_some_iff.mp found
      cases here : c.recency.lookup n.key with
      | none =>
          rw [RecencyList.lookup, Option.map_eq_none_iff, List.find?_eq_none] at here
          exact absurd (here (pair n) (List.mem_map_of_mem mem)) (by simp [pair])
      | some e =>
          obtain ⟨m, inside, same⟩ := List.mem_map.mp (RecencyList.mem_of_lookup here)
          rw [pair, Prod.mk.injEq] at same
          rw [← same.2, coherent.eq_of_key inside mem same.1]
          rfl

/-- Taking a node out of the list takes out its key. -/
theorem Coherent.without_recency (coherent : c.Coherent) {n : Node} (mem : n ∈ c.order) :
    c.recency.without n.key = (c.unlink n.id).map pair := by
  rw [RecencyList.without, recency, List.filter_map, unlink]
  refine congrArg (List.map pair) (List.filter_congr fun m inside => ?_)
  have same : m.key = n.key ↔ m.id = n.id :=
    ⟨fun same => congrArg Node.id (coherent.eq_of_key inside mem same),
      fun same => congrArg Node.key (coherent.eq_of_id inside mem same)⟩
  simp [pair, same]

theorem Coherent.without_recency_of_absent (coherent : c.Coherent)
    (missing : c.lookup k = none) : c.recency.without k = c.recency := by
  refine List.filter_eq_self.mpr fun p mem => ?_
  obtain ⟨n, inside, rfl⟩ := List.mem_map.mp mem
  exact decide_eq_true (coherent.lookup_eq_none_iff.mp missing n inside)

/-- Before it makes room, `put` touches its key. -/
theorem Coherent.recency_store (coherent : c.Coherent) (k : ByteString) (e : CacheEntry) :
    (c.store k e).recency = c.recency.touch k e := by
  unfold LRUCache.store RecencyList.touch
  cases found : c.lookup k with
  | none => rw [coherent.without_recency_of_absent found]; rfl
  | some n =>
      obtain ⟨mem, rfl⟩ := coherent.lookup_eq_some_iff.mp found
      rw [coherent.without_recency mem]
      rfl

/-- The shared loop filters the list, and counts what it drops. -/
theorem Coherent.recency_removeIf (coherent : c.Coherent) (test : Node → Bool)
    (test' : ByteString × CacheEntry → Bool) (same : ∀ n, test n = test' (pair n)) :
    (c.removeIf test).1 = c.recency.countP test' ∧
      (c.removeIf test).2.recency = c.recency.filter fun p => !test' p := by
  constructor
  · rw [LRUCache.removeIf, recency, List.countP_map, List.countP_eq_length_filter]
    exact congrArg List.length (List.filter_congr fun n _ => same n)
  · rw [recency, coherent.order_removeIf, recency, List.filter_map]
    refine congrArg (List.map pair) (List.filter_congr fun n _ => ?_)
    rw [Function.comp_apply, same]

/-- Dropping nodes does not count as eviction. -/
theorem removeIf_evictions (test : Node → Bool) :
    (c.removeIf test).2.evictions = c.evictions := by
  rw [removeIf]
  generalize c.order.filter test = l
  induction l generalizing c with
  | nil => rfl
  | cons n l ih => exact ih (c := c.remove n)

theorem store_evictions (k : ByteString) (e : CacheEntry) :
    (c.store k e).evictions = c.evictions := by
  unfold store
  cases c.lookup k <;> rfl

/-- **One operation**: the shard and the list reply the same and stay related, and the
eviction counter grows by the number of dropped pairs. -/
def Simulates (c : LRUCache) (op : CacheOp) : Prop :=
  (c.perform op).1 = (c.recency.perform c.maxBytes.toNat op).1 ∧
    (c.perform op).2.recency = (c.recency.perform c.maxBytes.toNat op).2.1 ∧
    (c.perform op).2.evictions = c.evictions +
      UInt64.ofNat (c.recency.perform c.maxBytes.toNat op).2.2

theorem Coherent.simulates_get (coherent : c.Coherent) (k : ByteString) :
    c.Simulates (.get k) := by
  have lookup := coherent.lookup_recency k
  unfold Simulates
  cases found : c.lookup k with
  | none =>
      rw [found] at lookup
      rw [RecencyList.perform_get_miss lookup]
      simp [LRUCache.perform, LRUCache.get, found]
  | some n =>
      rw [found] at lookup
      rw [RecencyList.perform_get_hit lookup]
      obtain ⟨mem, rfl⟩ := coherent.lookup_eq_some_iff.mp found
      refine ⟨by simp [LRUCache.perform, LRUCache.get, found], ?_, ?_⟩
      · simp only [LRUCache.perform, LRUCache.get, found, RecencyList.touch]
        rw [coherent.without_recency mem]
        rfl
      · simp [LRUCache.perform, LRUCache.get, found]

theorem Coherent.simulates_put (coherent : c.Coherent) {k : ByteString} {e : CacheEntry}
    (accountable : c.Accountable (.put k e)) : c.Simulates (.put k e) := by
  have stored := coherent.store k e
  obtain ⟨order, evictions⟩ := evict_order stored accountable (Nat.le_refl _)
  have touched := coherent.recency_store k e
  -- A node weighs what its pair weighs, so the two keep the same prefix of their orders.
  have kept : (fitting Node.weight c.maxBytes.toNat (c.store k e).order).map pair =
      fitting RecencyList.weight c.maxBytes.toNat (c.recency.touch k e) := by
    rw [← touched]
    refine map_fitting pair fun n mem => ?_
    rw [Node.weight, stored.bytes n mem]
    rfl
  rw [store_maxBytes] at order evictions
  refine ⟨rfl, ?_, ?_⟩
  · change (LRUCache.evict _ (c.store k e)).order.map pair = _
    rw [order, kept]
    rfl
  · change (LRUCache.evict _ (c.store k e)).evictions = c.evictions + UInt64.ofNat (_ - _)
    rw [evictions, store_evictions, ← kept, ← touched, List.length_map, recency,
      List.length_map]

theorem Coherent.simulates_erase (coherent : c.Coherent) (k : ByteString) :
    c.Simulates (.erase k) := by
  unfold Simulates
  cases found : c.lookup k with
  | none =>
      have absent := coherent.lookup_eq_none_iff.mp found
      simp only [LRUCache.perform, LRUCache.erase, found, RecencyList.perform,
        coherent.without_recency_of_absent found]
      refine ⟨?_, trivial, by simp⟩
      rw [eq_comm, CacheReply.erased.injEq, List.any_eq_false]
      intro p mem
      obtain ⟨n, inside, rfl⟩ := List.mem_map.mp mem
      exact fun here => absent n inside (of_decide_eq_true here)
  | some n =>
      obtain ⟨mem, rfl⟩ := coherent.lookup_eq_some_iff.mp found
      simp only [LRUCache.perform, LRUCache.erase, found, RecencyList.perform,
        coherent.without_recency mem]
      refine ⟨?_, rfl, by simp [LRUCache.remove]⟩
      rw [eq_comm, CacheReply.erased.injEq, List.any_eq_true]
      exact ⟨pair n, List.mem_map_of_mem mem, by simp [pair]⟩

theorem Coherent.simulates_purge (coherent : c.Coherent) (pattern : ByteString) :
    c.Simulates (.purge pattern) := by
  obtain ⟨counted, filtered⟩ := coherent.recency_removeIf
    (fun n => purgeMatches pattern n.key) (fun p => purgeMatches pattern p.1) fun _ => rfl
  refine ⟨congrArg _ counted, filtered, ?_⟩
  change (c.removeIf _).2.evictions = _
  rw [removeIf_evictions]
  simp [RecencyList.perform]

theorem Coherent.simulates_sweepExpired (coherent : c.Coherent) (now : ℤ) :
    c.Simulates (.sweepExpired now) := by
  obtain ⟨counted, filtered⟩ := coherent.recency_removeIf
    (fun n => !n.entry.isServeableStale now) (fun p => !p.2.isServeableStale now) fun _ => rfl
  refine ⟨congrArg _ counted, filtered.trans ?_, ?_⟩
  · simp [RecencyList.perform]
  · change (c.removeIf _).2.evictions = _
    rw [removeIf_evictions]
    simp [RecencyList.perform]

/-- **The step lemma.** -/
theorem Steady.simulates (steady : c.Steady) {op : CacheOp} (accountable : c.Accountable op) :
    c.Simulates op := by
  cases op with
  | get k => exact steady.coherent.simulates_get k
  | put k e => exact steady.coherent.simulates_put accountable
  | erase k => exact steady.coherent.simulates_erase k
  | purge pattern => exact steady.coherent.simulates_purge pattern
  | sweepExpired now => exact steady.coherent.simulates_sweepExpired now

/-- **A run of operations.** -/
theorem Steady.refines_performAll {c : LRUCache} {ops : List CacheOp} (steady : c.Steady)
    (accountable : Transition.Meets next Accountable c ops) :
    (c.performAll ops).1 = (c.recency.performAll c.maxBytes.toNat ops).1 ∧
      (c.performAll ops).2.recency = (c.recency.performAll c.maxBytes.toNat ops).2.1 ∧
      (c.performAll ops).2.evictions = c.evictions +
        UInt64.ofNat (c.recency.performAll c.maxBytes.toNat ops).2.2 := by
  induction ops generalizing c with
  | nil => exact ⟨rfl, rfl, by simp [performAll, RecencyList.performAll]⟩
  | cons op ops ih =>
      obtain ⟨reply, list, evictions⟩ := steady.simulates accountable.1
      obtain ⟨replies, lists, more⟩ := ih (steady.perform accountable.1) (accountable.2 _ rfl)
      rw [perform_maxBytes, list] at replies lists more
      simp only [performAll, RecencyList.performAll]
      refine ⟨by rw [reply, replies], lists, ?_⟩
      rw [more, evictions, UInt64.ofNat_add]
      grind

/-- **A shard refines a recency list.**  It replies as the list does, counts what the list
drops, and looks up what the list holds; a pair of the list stays until there is a reason
for it to go, and comes in by its own `put` only. -/
theorem refines_of_run (maxBytes : UInt64) (ops : List CacheOp)
    (accountable : Transition.Meets next Accountable (empty maxBytes) ops) :
    ((empty maxBytes).performAll ops).1 =
        (RecencyList.performAll maxBytes.toNat [] ops).1 ∧
      ((empty maxBytes).performAll ops).2.evictions =
        UInt64.ofNat (RecencyList.performAll maxBytes.toNat [] ops).2.2 ∧
      (∀ k, (((empty maxBytes).performAll ops).2.get k).1 =
        (RecencyList.performAll maxBytes.toNat [] ops).2.1.lookup k) ∧
      ∀ op p, (p ∈ (RecencyList.performAll maxBytes.toNat [] ops).2.1 →
          p ∈ ((RecencyList.performAll maxBytes.toNat [] ops).2.1.perform
              maxBytes.toNat op).2.1 ∨
            RecencyList.Goes maxBytes.toNat
              (RecencyList.performAll maxBytes.toNat [] ops).2.1 op p) ∧
        (p ∈ ((RecencyList.performAll maxBytes.toNat [] ops).2.1.perform
            maxBytes.toNat op).2.1 →
          p ∈ (RecencyList.performAll maxBytes.toNat [] ops).2.1 ∨ op = .put p.1 p.2) := by
  have steady := steady_of_steps (Transition.Steps.of_run accountable (run_next _ ops))
  obtain ⟨replies, lists, evictions⟩ := (steady_empty maxBytes).refines_performAll accountable
  have start : (empty maxBytes).recency = [] := rfl
  rw [start] at replies lists evictions
  refine ⟨replies, ?_, fun k => ?_, fun op p => ⟨fun mem => ?_, fun mem => ?_⟩⟩
  · rw [evictions]
    exact UInt64.zero_add _
  · change _ =
      RecencyList.lookup (RecencyList.performAll (empty maxBytes).maxBytes.toNat [] ops).2.1 k
    rw [← lists, steady.coherent.lookup_recency]
    unfold get
    cases LRUCache.lookup _ k <;> rfl
  · refine RecencyList.stays_or_goes ?_ mem
    have keys := recency_keys ((empty maxBytes).performAll ops).2
    rw [lists] at keys
    change (RecencyList.performAll maxBytes.toNat [] ops).2.1.map Prod.fst = _ at keys
    rw [keys]
    exact steady.coherent.keys
  · exact RecencyList.came_or_was mem

theorem refines_evictingOps :
    ((empty 140).performAll evictingOps).1 = (RecencyList.performAll 140 [] evictingOps).1 ∧
      ((empty 140).performAll evictingOps).2.evictions =
        UInt64.ofNat (RecencyList.performAll 140 [] evictingOps).2.2 := by
  have run := refines_of_run 140 evictingOps accountable_evictingOps
  exact ⟨run.1, run.2.1⟩

/-- The replies of that run. -/
example : (RecencyList.performAll 140 [] evictingOps).1 =
    [.stored, .stored, .found (some (bodyEntry (bytes "x"))), .stored, .found none, .stored,
      .found none] ∧ (RecencyList.performAll 140 [] evictingOps).2.2 = 2 := by
  decide +kernel

end LRUCache

end EdgeCache

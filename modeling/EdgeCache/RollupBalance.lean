import EdgeCache.Rollup

/-!
# The balance of the rollup

`Measure` says what it takes for rows and buckets to be counted alike: an upsert adds to a row what
the bucket counts, and so does a bucket to another one.  Doubles add up as long as what came in is
in their exact range, and no update of a row is lost because a transaction locks the rows it writes.

**Main result.**  In every run, rows, buckets and flushes together hold what came in
(`conserved_of_run`), up to the buckets of flushes that got no connection, which are **lost**, and
those that were committed and put back all the same, which count **twice**.
-/

namespace EdgeCache.Analytics

open ControlPlane Keyed Transition

/-! ## Buckets add up -/

/-- The columns of a row. -/
def columns (r : StatRecord) : ℤ × ℤ × ℤ := (r.hits.toInt, r.misses.toInt, r.bytesServed.toInt)

/-- The columns of a bucket. -/
def Bucket.columns (b : Bucket) : ℤ × ℤ × ℤ := (b.hits, b.misses, b.bytes)

/-- The size of a bucket. -/
def Bucket.size (b : Bucket) : ℤ := |b.hits| + |b.misses| + |b.bytes|

/-- The size of all buckets together. -/
def weight (buckets : Buckets) : ℤ := (buckets.map fun e => e.2.size).sum

section Sizes

variable {b d : Bucket} {ev : AccessEvent} {buckets snapshot : Buckets} {e : JsString × Bucket}

theorem Bucket.size_nonneg (b : Bucket) : 0 ≤ b.size :=
  add_nonneg (add_nonneg (abs_nonneg _) (abs_nonneg _)) (abs_nonneg _)

theorem weight_nonneg (buckets : Buckets) : 0 ≤ weight buckets := by
  refine List.sum_nonneg fun n mem => ?_
  obtain ⟨e, -, rfl⟩ := List.mem_map.mp mem
  exact e.2.size_nonneg

theorem toDouble_of_abs_le {n : ℤ} (small : |n| ≤ 2 ^ 53) : toDouble n = n := by
  rw [Int.abs_eq_natAbs] at small
  exact toDouble_of_le (by omega)

theorem toDouble_add {m n : ℤ} (small : |m| + |n| ≤ 2 ^ 53) : toDouble (m + n) = m + n :=
  toDouble_of_abs_le ((abs_add_le m n).trans small)

theorem Bucket.plus_columns (small : b.size + d.size ≤ 2 ^ 53) :
    (b.plus d).columns = b.columns + d.columns := by
  unfold Bucket.size at small
  have hits := abs_nonneg b.hits
  have misses := abs_nonneg b.misses
  have bytes := abs_nonneg b.bytes
  have hits' := abs_nonneg d.hits
  have misses' := abs_nonneg d.misses
  have bytes' := abs_nonneg d.bytes
  simp only [Bucket.plus, Bucket.columns, Prod.mk_add_mk]
  rw [toDouble_add (by omega), toDouble_add (by omega), toDouble_add (by omega)]

theorem Bucket.plus_size (small : b.size + d.size ≤ 2 ^ 53) :
    (b.plus d).size ≤ b.size + d.size := by
  have same := plus_columns small
  simp only [Bucket.columns, Prod.mk_add_mk, Prod.mk.injEq] at same
  obtain ⟨hits, misses, bytes⟩ := same
  rw [Bucket.size, hits, misses, bytes]
  have first := abs_add_le b.hits d.hits
  have second := abs_add_le b.misses d.misses
  have third := abs_add_le b.bytes d.bytes
  unfold Bucket.size
  omega

/-- A bucket that counts an event adds the bucket of the event. -/
theorem Bucket.count_eq (small : b.size + ev.bucket.size ≤ 2 ^ 53) :
    b.count ev = b.plus ev.bucket := by
  have one : toDouble 1 = 1 := rfl
  unfold Bucket.size at small
  have hits := abs_nonneg ev.bucket.hits
  have misses := abs_nonneg ev.bucket.misses
  have bytes := abs_nonneg ev.bucket.bytes
  have hits' := abs_nonneg b.hits
  have misses' := abs_nonneg b.misses
  have bytes' := abs_nonneg b.bytes
  have keep : toDouble b.hits = b.hits ∧ toDouble b.misses = b.misses :=
    ⟨toDouble_of_abs_le (by omega), toDouble_of_abs_le (by omega)⟩
  unfold AccessEvent.bucket Bucket.count Bucket.plus
  split <;> simp [ev.double, one, keep]

/-- The entry of a bucket that was found. -/
theorem get_of_find {key : JsString} (found : RollupBuffer.find buckets key = some b) :
    get Prod.fst key buckets = some (key, b) := by
  obtain ⟨entry, there, rfl⟩ := Option.map_eq_some_iff.mp found
  rw [there, ← key_of_get there]

theorem get_eq_none_of_find {key : JsString} (absent : RollupBuffer.find buckets key = none) :
    get Prod.fst key buckets = none := Option.map_eq_none_iff.mp absent

theorem size_le_weight (mem : e ∈ buckets) : e.2.size ≤ weight buckets := by
  refine List.single_le_sum (fun n inside => ?_) _ (List.mem_map.mpr ⟨e, mem, rfl⟩)
  obtain ⟨d, -, rfl⟩ := List.mem_map.mp inside
  exact d.2.size_nonneg

theorem size_le_of_find {key : JsString} (found : RollupBuffer.find buckets key = some b) :
    b.size ≤ weight buckets := size_le_weight (Keyed.mem_of_get (get_of_find found))

/-- Adding an event puts its bucket into the buffer. -/
theorem add_eq {now : ℤ} {key : JsString} (keyed : ev.key now = some key)
    (small : weight buckets + ev.bucket.size ≤ 2 ^ 53) :
    RollupBuffer.add buckets ev now = some (RollupBuffer.mergeOne buckets (key, ev.bucket)) := by
  have adds : RollupBuffer.add buckets ev now = some (put Prod.fst
      (key, ((RollupBuffer.find buckets key).getD ⟨0, 0, 0⟩).count ev) buckets) := by
    rw [RollupBuffer.add, keyed]
    rfl
  rw [adds, RollupBuffer.mergeOne]
  cases found : RollupBuffer.find buckets key with
  | none => rfl
  | some b =>
      have le := size_le_of_find found
      rw [Option.getD_some, Bucket.count_eq (by omega)]

theorem weight_mergeOne_le (small : weight buckets + e.2.size ≤ 2 ^ 53) :
    weight (RollupBuffer.mergeOne buckets e) ≤ weight buckets + e.2.size := by
  unfold RollupBuffer.mergeOne weight
  cases found : RollupBuffer.find buckets e.1 with
  | none =>
      have absent := get_eq_none_of_find found
      simp [sum_put, absent]
  | some b =>
      have le := size_le_of_find found
      have fits : (b.plus e.2).size ≤ b.size + e.2.size := Bucket.plus_size (by omega)
      have there := get_of_find found
      simp only [sum_put, there, worth_some]
      omega

theorem weight_merge_le (small : weight buckets + weight snapshot ≤ 2 ^ 53) :
    weight (RollupBuffer.merge buckets snapshot) ≤ weight buckets + weight snapshot := by
  induction snapshot generalizing buckets with
  | nil => simp [RollupBuffer.merge, weight]
  | cons e snapshot ih =>
      have whole : weight (e :: snapshot) = e.2.size + weight snapshot := by simp [weight]
      have rest := weight_nonneg snapshot
      have first : weight (RollupBuffer.mergeOne buckets e) ≤ weight buckets + e.2.size :=
        weight_mergeOne_le (by omega)
      have later := @ih (RollupBuffer.mergeOne buckets e) (by omega)
      change weight (RollupBuffer.merge (RollupBuffer.mergeOne buckets e) snapshot) ≤ _
      omega

end Sizes

section Conservation

variable {timestampIn : JsString → Option Timestamp} {M : Type} [AddCommGroup M]

variable (timestampIn M) in
/-- **A measure** of rows and of buckets: an upsert adds to a row what the bucket measures, and so
does a bucket to another one of its key. -/
structure Measure where
  row : StatRecord → M
  entry : JsString × Bucket → M
  upsert : ∀ {current place key b v}, target timestampIn key = some place →
    (∀ r ∈ current, rowKey r = place) → Analytics.upsert current place b = some v →
      row v = worth row current + entry (key, b)
  plus : ∀ {key b d}, b.size + d.size ≤ 2 ^ 53 →
    entry (key, b.plus d) = entry (key, b) + entry (key, d)

namespace Measure

variable (m : Measure timestampIn M)

/-- What rows measure. -/
def rows (rows : List StatRecord) : M := (rows.map m.row).sum

/-- What buckets measure. -/
def amount (buckets : Buckets) : M := (buckets.map m.entry).sum

/-- What a flush holds: its snapshot, as long as it is not committed. -/
def held (f : Flush) : M :=
  match f.stage with
  | .committed => 0
  | _ => m.amount f.snapshot

variable {m} {buckets snapshot : Buckets} {e : JsString × Bucket}

@[simp] theorem amount_nil : m.amount [] = 0 := rfl

@[simp] theorem amount_cons : m.amount (e :: buckets) = m.entry e + m.amount buckets := by
  simp [amount]

/-- **A bucket that is put into the buffer** is added to it. -/
theorem amount_mergeOne (small : weight buckets + e.2.size ≤ 2 ^ 53) :
    m.amount (RollupBuffer.mergeOne buckets e) = m.amount buckets + m.entry e := by
  unfold RollupBuffer.mergeOne amount
  cases found : RollupBuffer.find buckets e.1 with
  | none =>
      have absent := get_eq_none_of_find found
      simp [sum_put, absent]
  | some b =>
      have le := size_le_of_find found
      have there := get_of_find found
      have adds : m.entry (e.1, b.plus e.2) = m.entry (e.1, b) + m.entry e :=
        m.plus (by omega)
      simp only [sum_put, there, worth_some, adds]
      abel

/-- **A snapshot that is put back** is added to the buffer. -/
theorem amount_merge (small : weight buckets + weight snapshot ≤ 2 ^ 53) :
    m.amount (RollupBuffer.merge buckets snapshot) = m.amount buckets + m.amount snapshot := by
  induction snapshot generalizing buckets with
  | nil => simp [RollupBuffer.merge]
  | cons e snapshot ih =>
      have whole : weight (e :: snapshot) = e.2.size + weight snapshot := by simp [weight]
      have rest := weight_nonneg snapshot
      have first : weight (RollupBuffer.mergeOne buckets e) ≤ weight buckets + e.2.size :=
        weight_mergeOne_le (by omega)
      have later := @ih (RollupBuffer.mergeOne buckets e) (by omega)
      change m.amount (RollupBuffer.merge (RollupBuffer.mergeOne buckets e) snapshot) = _
      rw [later, amount_mergeOne (by omega), amount_cons]
      abel

end Measure

/-- The transactions that are open. -/
def running (flushes : List Flush) (late : List Tx) : List Tx := flushes.filterMap Flush.tx? ++ late

/-- A transaction has added the first buckets of its snapshot, all of them at the `COMMIT`. -/
def Flush.Orderly (f : Flush) : Prop :=
  match f.stage with
  | .insert tx => tx.added <+: f.snapshot
  | .commit tx => tx.added = f.snapshot
  | _ => True

/-- **A sane consumer**: its transactions are orderly and isolated. -/
structure Sane (m : Measure timestampIn M) (s : Consumer) : Prop where
  orderly : ∀ f ∈ s.flushes, f.Orderly
  isolated : Isolated rowKey m.row m.entry s.table.rows (running s.flushes s.late)

/-- What the running flushes have taken. -/
def taken (flushes : List Flush) : ℤ := (flushes.map fun f => weight f.snapshot).sum

/-- The buckets in memory are no larger than what came in. -/
def Light (s : Consumer) : Prop := weight s.buckets + taken s.flushes ≤ weight s.added

/-- **The balance**: what is in the rows, in the buckets, in the flushes and lost, less what came in
and what counts twice. -/
def Measure.balance (m : Measure timestampIn M) (s : Consumer) : M :=
  m.rows s.table.rows + m.amount s.buckets + (s.flushes.map m.held).sum +
    (s.lost.map m.amount).sum - m.amount s.added - (s.doubled.map m.amount).sum

section Steps

variable {m : Measure timestampIn M} {s s' : Consumer} {a : Action} {front back : List Flush}
  {f : Flush} {late : List Tx}

/-- The transaction of one flush, and the other ones. -/
theorem running_perm : (running (front ++ f :: back) late).Perm
    (f.tx?.toList ++ running (front ++ back) late) := by
  unfold running
  rw [List.filterMap_append, List.filterMap_append, ← List.append_assoc]
  refine List.Perm.append_right late ?_
  cases open_ : f.tx? with
  | none => simp [open_]
  | some tx =>
      simp only [List.filterMap_cons, open_, Option.toList_some, List.singleton_append]
      exact List.perm_middle

theorem Sane.alone (sane : Sane m s) (split : s.flushes = front ++ f :: back) : f.Orderly ∧
    Isolated rowKey m.row m.entry s.table.rows (f.tx?.toList ++ running (front ++ back) s.late) :=
  ⟨sane.orderly f (split ▸ by simp), (split ▸ sane.isolated).perm running_perm⟩

theorem Sane.opened {tx : Tx} (sane : Sane m s) (split : s.flushes = front ++ f :: back)
    (open_ : f.tx? = some tx) :
    Isolated rowKey m.row m.entry s.table.rows (tx :: running (front ++ back) s.late) := by
  have isolated := (sane.alone split).2
  rwa [open_] at isolated

/-- A flush goes on without a transaction. -/
theorem isolated_closed {rows : List StatRecord} {g : Flush} (closed : g.tx? = none)
    (isolated : Isolated rowKey m.row m.entry rows (running (front ++ back) late)) :
    Isolated rowKey m.row m.entry rows (running (front ++ g :: back) late) := by
  refine isolated.perm (List.Perm.trans ?_ running_perm.symm)
  rw [closed]
  exact List.Perm.refl _

/-- A flush goes on with a transaction. -/
theorem isolated_open {rows : List StatRecord} {g : Flush} {tx : Tx} (open_ : g.tx? = some tx)
    (isolated : Isolated rowKey m.row m.entry rows (tx :: running (front ++ back) late)) :
    Isolated rowKey m.row m.entry rows (running (front ++ g :: back) late) := by
  refine isolated.perm (List.Perm.trans ?_ running_perm.symm)
  rw [open_]
  exact List.Perm.refl _

/-- The flushes after one of them has gone on. -/
theorem Sane.orderly_set (sane : Sane m s) (split : s.flushes = front ++ f :: back) {g : Flush}
    (orderly : g.Orderly) : ∀ h ∈ front ++ g :: back, h.Orderly := by
  intro h mem
  rcases List.mem_append.mp mem with before | behind
  · exact sane.orderly h (split ▸ List.mem_append_left _ before)
  · rcases List.mem_cons.mp behind with rfl | behind
    · exact orderly
    · exact sane.orderly h (split ▸ List.mem_append_right _ (List.mem_cons_of_mem _ behind))

theorem Sane.orderly_erase (sane : Sane m s) (split : s.flushes = front ++ f :: back) :
    ∀ h ∈ front ++ back, h.Orderly := by
  intro h mem
  refine sane.orderly h (split ▸ ?_)
  rcases List.mem_append.mp mem with before | behind
  · exact List.mem_append_left _ before
  · exact List.mem_append_right _ (List.mem_cons_of_mem _ behind)

/-- What a transaction sees of a row has the key of the row. -/
theorem rowKey_of_sees {tx : Tx} {rows : List StatRecord} {row : ByteString × Timestamp} :
    ∀ r ∈ tx.sees rowKey rows row, rowKey r = row := by
  intro r seen
  rcases Option.or_eq_some_iff.mp seen with own | ⟨-, there⟩
  · exact key_of_get own
  · exact key_of_get there

theorem rowKey_of_upsert {current : Option StatRecord} {row : ByteString × Timestamp} {b : Bucket}
    {v : StatRecord} (upserts : upsert current row b = some v) : rowKey v = row := by
  unfold upsert at upserts
  cases current <;> simp only [Option.bind_eq_bind, Option.bind_eq_some_iff, Option.pure_def,
    Option.some.injEq] at upserts
  · obtain ⟨hits, -, misses, -, bytes, -, rfl⟩ := upserts
    rfl
  · obtain ⟨hits, -, misses, -, bytes, -, h, -, n, -, z, -, rfl⟩ := upserts
    rfl

/-- An `INSERT` adds the next bucket of the snapshot. -/
theorem orderly_next {tx : Tx} {entry : JsString × Bucket} {v : StatRecord}
    (front : tx.added <+: f.snapshot) (next : f.snapshot[tx.added.length]? = some entry) :
    (⟨f.snapshot, f.next (tx.write rowKey entry v)⟩ : Flush).Orderly := by
  obtain ⟨rest, split⟩ := front
  have longer : tx.added ++ [entry] <+: f.snapshot := by
    rw [← split, List.getElem?_append_right le_rfl, Nat.sub_self] at next
    cases rest with
    | nil => cases next
    | cons e rest =>
        obtain rfl := Option.some.inj next
        exact ⟨rest, by rw [List.append_assoc, List.singleton_append, split]⟩
  unfold Flush.next
  split
  · rename_i whole
    exact longer.eq_of_length whole
  · exact longer

theorem tx?_next {tx : Tx} : (⟨f.snapshot, f.next tx⟩ : Flush).tx? = some tx := by
  unfold Flush.next
  split <;> rfl

/-- **Every step keeps a consumer sane.** -/
theorem sane_step (taken : Moves timestampIn s a s') (sane : Sane m s) : Sane m s' := by
  cases taken with
  | add => exact ⟨sane.orderly, sane.isolated⟩
  | rest => exact sane
  | flush full =>
      refine ⟨fun f mem => ?_, ?_⟩
      · rcases List.mem_append.mp mem with before | new
        · exact sane.orderly f before
        · obtain rfl := List.mem_singleton.mp new
          trivial
      · have same : running (s.flushes ++ [⟨s.buckets, .connect⟩]) s.late =
            running s.flushes s.late := by simp [running, Flush.tx?]
        exact same ▸ sane.isolated
  | refuse found split stage => exact ⟨sane.orderly_erase split, (sane.alone split).2.drop⟩
  | connect split stage =>
      exact ⟨sane.orderly_set split trivial, isolated_closed rfl (sane.alone split).2.drop⟩
  | begin split stage =>
      exact ⟨sane.orderly_set split List.nil_prefix,
        isolated_open rfl (sane.alone split).2.drop.cons_none⟩
  | @insert i front f back tx entry row v split stage next reads free upserts =>
      have orderly := (sane.alone split).1
      rw [Flush.Orderly, stage] at orderly
      have isolated := sane.opened split (by rw [Flush.tx?, stage])
      have here := rowKey_of_upsert upserts
      refine ⟨sane.orderly_set split (orderly_next orderly next), isolated_open tx?_next ?_⟩
      refine isolated.write (fun w mem v' there => here ▸ (free w mem v' there).symm) ?_
      rw [here]
      exact m.upsert reads rowKey_of_sees upserts
  | fail split stage =>
      exact ⟨sane.orderly_set split trivial, isolated_closed rfl (sane.alone split).2.drop⟩
  | @forsake i front f back tx found split stage =>
      have isolated := sane.opened split (by rw [Flush.tx?, stage])
      exact ⟨sane.orderly_set split trivial,
        isolated_closed rfl (isolated.perm List.perm_middle.symm)⟩
  | @execute i front f back tx split stage =>
      have isolated := sane.opened split (by rw [Flush.tx?, stage])
      exact ⟨sane.orderly_set split trivial, isolated_closed rfl isolated.commit⟩
  | finish split stage => exact ⟨sane.orderly_erase split, (sane.alone split).2.drop⟩
  | double found split stage =>
      exact ⟨sane.orderly_set split trivial, isolated_closed rfl (sane.alone split).2.drop⟩
  | rollback split stage => exact ⟨sane.orderly_erase split, (sane.alone split).2.drop⟩
  | @executeLate j front tx back split =>
      have isolated := sane.isolated
      rw [running, split, ← List.append_assoc] at isolated
      have first := isolated.perm List.perm_middle
      refine ⟨sane.orderly, ?_⟩
      have same := first.commit
      rwa [List.append_assoc] at same
  | @abort j front tx back split =>
      have isolated := sane.isolated
      rw [running, split, ← List.append_assoc] at isolated
      have rest := (isolated.perm List.perm_middle).tail
      refine ⟨sane.orderly, ?_⟩
      rwa [List.append_assoc] at rest

theorem taken_nonneg (flushes : List Flush) : 0 ≤ taken flushes := by
  refine List.sum_nonneg fun n mem => ?_
  obtain ⟨f, -, rfl⟩ := List.mem_map.mp mem
  exact weight_nonneg f.snapshot

theorem taken_split : taken (front ++ f :: back) = weight f.snapshot + taken (front ++ back) := by
  simp only [taken, List.map_append, List.map_cons, List.sum_append, List.sum_cons]
  omega

/-- A flush that goes on keeps its snapshot. -/
theorem taken_set {stage : Stage} :
    taken (front ++ ⟨f.snapshot, stage⟩ :: back) = taken (front ++ f :: back) := by
  rw [taken_split, taken_split]

theorem weight_cons (e : JsString × Bucket) (buckets : Buckets) :
    weight (e :: buckets) = e.2.size + weight buckets := by
  simp [weight]

/-- What came in grows. -/
theorem added_le_step (taken : Moves timestampIn s a s') : weight s.added ≤ weight s'.added := by
  cases taken with
  | @add ev now key =>
      have grows := ev.bucket.size_nonneg
      simp only [weight_cons]
      omega
  | _ => exact le_rfl

/-- **Memory stays light**, as long as what came in is in the exact range of a double. -/
theorem light_step (taken : Moves timestampIn s a s') (light : Light s)
    (fits : weight s'.added ≤ 2 ^ 53) : Light s' := by
  unfold Light at light ⊢
  cases taken with
  | @add ev now key buckets keyed added =>
      have more := taken_nonneg s.flushes
      simp only [weight_cons] at fits ⊢
      have small : weight s.buckets + ev.bucket.size ≤ 2 ^ 53 := by omega
      rw [add_eq keyed small, Option.some.injEq] at added
      have le : weight (RollupBuffer.mergeOne s.buckets (key, ev.bucket)) ≤
          weight s.buckets + ev.bucket.size := weight_mergeOne_le small
      rw [← added]
      omega
  | rest => exact light
  | flush full => simpa [Analytics.taken, weight, add_comm] using light
  | abort split => exact light
  | executeLate split => exact light
  | @rollback i ok front f back split stage =>
      rw [split, taken_split] at light
      have rest := taken_nonneg (front ++ back)
      have le : weight (RollupBuffer.merge s.buckets f.snapshot) ≤
          weight s.buckets + weight f.snapshot :=
        weight_merge_le (by simp only at fits; omega)
      simp only
      omega
  | @refuse i front f back found split stage =>
      rw [split, taken_split] at light
      have here := weight_nonneg f.snapshot
      simp only
      omega
  | @finish i front f back split stage =>
      rw [split, taken_split] at light
      have here := weight_nonneg f.snapshot
      simp only
      omega
  | connect split stage => simpa only [taken_set, ← split] using light
  | begin split stage => simpa only [taken_set, ← split] using light
  | insert split stage next reads free upserts =>
      simpa only [taken_set, ← split] using light
  | fail split stage => simpa only [taken_set, ← split] using light
  | forsake found split stage => simpa only [taken_set, ← split] using light
  | execute split stage => simpa only [taken_set, ← split] using light
  | double found split stage => simpa only [taken_set, ← split] using light

/-- What a commit adds to the rows. -/
theorem Sane.rows_commit {running : List Tx} {tx : Tx}
    (isolated : Isolated rowKey m.row m.entry s.table.rows (tx :: running)) :
    m.rows (commit s.table tx).rows = m.rows s.table.rows + m.amount tx.added :=
  (isolated.sound tx List.mem_cons_self).sum_commit

theorem held_split : ((front ++ f :: back).map m.held).sum =
    m.held f + ((front ++ back).map m.held).sum := by
  simp only [List.map_append, List.map_cons, List.sum_append, List.sum_cons]
  abel

theorem held_of_ne (waits : f.stage ≠ .committed) : m.held f = m.amount f.snapshot := by
  unfold Measure.held
  split
  · contradiction
  · rfl

theorem held_committed (done : f.stage = .committed) : m.held f = 0 := by rw [Measure.held, done]

/-- A flush that goes on holds what it held, but for the `COMMIT`. -/
theorem held_set {stage : Stage} (waits : f.stage ≠ .committed) (waits' : stage ≠ .committed) :
    ((front ++ ⟨f.snapshot, stage⟩ :: back).map m.held).sum =
      ((front ++ f :: back).map m.held).sum := by
  have same : m.held ⟨f.snapshot, stage⟩ = m.amount f.snapshot := held_of_ne waits'
  rw [held_split, held_split, same, held_of_ne waits]

/-- **Every step keeps the balance.** -/
theorem balance_step (taken : Moves timestampIn s a s') (sane : Sane m s) (light : Light s)
    (fits : weight s'.added ≤ 2 ^ 53) : m.balance s' = m.balance s := by
  unfold Measure.balance
  cases taken with
  | @add ev now key buckets keyed added =>
      have more := taken_nonneg s.flushes
      simp only [weight_cons] at fits
      unfold Light at light
      have small : weight s.buckets + ev.bucket.size ≤ 2 ^ 53 := by omega
      rw [add_eq keyed small, Option.some.injEq] at added
      have adds : m.amount buckets = m.amount s.buckets + m.entry (key, ev.bucket) :=
        added ▸ Measure.amount_mergeOne small
      simp only [adds, Measure.amount_cons]
      abel
  | rest => rfl
  | flush full =>
      have new : m.held ⟨s.buckets, .connect⟩ = m.amount s.buckets := rfl
      simp only [List.map_append, List.map_singleton, List.sum_append, List.sum_singleton,
        Measure.amount_nil, new]
      abel
  | @refuse i front f back found split stage =>
      have holds := held_of_ne (m := m) (f := f) (stage ▸ by simp)
      simp only [split, held_split, holds, List.map_cons, List.sum_cons]
      abel
  | connect split stage => rw [split, held_set (stage ▸ by simp) (by simp)]
  | begin split stage => rw [split, held_set (stage ▸ by simp) (by simp)]
  | @insert i front f back tx entry row v split stage next reads free upserts =>
      have waits : f.next (tx.write rowKey entry v) ≠ .committed := by
        unfold Flush.next
        split <;> simp
      rw [split, held_set (stage ▸ by simp) waits]
  | @fail i front f back split stage =>
      have waits : f.stage ≠ .committed := by
        rcases stage with stage | ⟨tx, stage⟩ <;> simp [stage]
      rw [split, held_set waits (by simp)]
  | forsake found split stage => rw [split, held_set (stage ▸ by simp) (by simp)]
  | @execute i front f back tx split stage =>
      have orderly := (sane.alone split).1
      rw [Flush.Orderly, stage] at orderly
      have adds := Sane.rows_commit (sane.opened split (by rw [Flush.tx?, stage]))
      rw [orderly] at adds
      have holds := held_of_ne (m := m) (f := f) (stage ▸ by simp)
      have done : m.held ⟨f.snapshot, .committed⟩ = 0 := rfl
      simp only [split, held_split, holds, done, adds]
      abel
  | @finish i front f back split stage =>
      simp only [split, held_split, held_committed stage]
      abel
  | @double i front f back found split stage =>
      have again : m.held ⟨f.snapshot, .rollback⟩ = m.amount f.snapshot := rfl
      simp only [split, held_split, held_committed stage, again, List.map_cons, List.sum_cons]
      abel
  | @rollback i ok front f back split stage =>
      have rest := taken_nonneg (front ++ back)
      rw [Light, split, taken_split] at light
      have adds : m.amount (RollupBuffer.merge s.buckets f.snapshot) =
          m.amount s.buckets + m.amount f.snapshot :=
        Measure.amount_merge (by simp only at fits; omega)
      have holds := held_of_ne (m := m) (f := f) (stage ▸ by simp)
      simp only [split, held_split, holds, adds]
      abel
  | @executeLate j front tx back split =>
      have isolated := sane.isolated
      rw [running, split, ← List.append_assoc] at isolated
      have adds := Sane.rows_commit (isolated.perm List.perm_middle)
      simp only [adds, List.map_cons, List.sum_cons]
      abel
  | abort split => rfl

theorem sane_of_steps {start : StatsTable} (m : Measure timestampIn M)
    (steps : Steps (Consumer.step timestampIn) (fun _ _ => True) (.initial start) s) : Sane m s :=
  steps.invariant (fun _ _ _ _ taken => sane_step (moves_of_step taken))
    ⟨by simp [Consumer.initial], Isolated.nil⟩

/-- As long as what came in is in the exact range of a double, memory is light and the balance is
that of the start. -/
def Kept (m : Measure timestampIn M) (start : StatsTable) (s : Consumer) : Prop :=
  weight s.added ≤ 2 ^ 53 → Light s ∧ m.balance s = m.rows start.rows

theorem kept_initial (m : Measure timestampIn M) (start : StatsTable) :
    Kept m start (.initial start) :=
  fun _ => ⟨le_rfl, by simp [Measure.balance, Consumer.initial]⟩

theorem kept_step {start : StatsTable} (taken : Moves timestampIn s a s') (sane : Sane m s)
    (kept : Kept m start s) : Kept m start s' := by
  intro fits
  obtain ⟨light, same⟩ := kept ((added_le_step taken).trans fits)
  exact ⟨light_step taken light fits, (balance_step taken sane light fits).trans same⟩

/-- **Every run keeps the balance**, as long as what came in is in the exact range of a double. -/
theorem balance_of_run {start : StatsTable} {acts : List Action} (m : Measure timestampIn M)
    (ran : run (Consumer.step timestampIn) (.initial start) acts = some s)
    (fits : weight s.added ≤ 2 ^ 53) : m.balance s = m.rows start.rows := by
  have steps := Steps.of_run (meets_true _ _ _) ran
  have kept : Kept m start s := (steps.knowing fun _ => sane_of_steps m).invariant
    (fun _ _ _ known taken => kept_step (moves_of_step taken) known.2) (kept_initial m start)
  exact (kept fits).2

end Steps

end Conservation

/-! ## Sums over rows -/

section Sums

variable {timestampIn : JsString → Option Timestamp} {s : Consumer} {start : StatsTable}
  {acts : List Action}

theorem toInt_of_bigintIn {n : ℤ} {i : Int64} (taken : bigintIn n = some i) : i.toInt = n := by
  unfold bigintIn at taken
  split at taken
  · rename_i range
    cases taken
    exact Int64.toInt_ofInt_of_le range.1 range.2
  · cases taken

/-- **An upsert adds the columns of the bucket.** -/
theorem columns_of_upsert {current : Option StatRecord} {row : ByteString × Timestamp} {b : Bucket}
    {v : StatRecord} (upserts : upsert current row b = some v) :
    columns v = worth columns current + b.columns := by
  unfold upsert at upserts
  cases current <;> simp only [Option.bind_eq_bind, Option.bind_eq_some_iff, Option.pure_def,
    Option.some.injEq] at upserts
  · obtain ⟨hits, h, misses, n, bytes, z, rfl⟩ := upserts
    simp [columns, Bucket.columns, toInt_of_bigintIn h, toInt_of_bigintIn n, toInt_of_bigintIn z]
  · obtain ⟨hits, h, misses, n, bytes, z, _, h', _, n', _, z', rfl⟩ := upserts
    simp [columns, Bucket.columns, toInt_of_bigintIn h', toInt_of_bigintIn n',
      toInt_of_bigintIn z', toInt_of_bigintIn h, toInt_of_bigintIn n, toInt_of_bigintIn z]

/-- The sums over the rows that are wanted. -/
def total (wanted : ByteString × Timestamp → Bool) (table : StatsTable) : ℤ × ℤ × ℤ :=
  sums (table.rows.filter fun r => wanted (rowKey r))

variable (timestampIn) in
/-- The sums over the buckets whose rows are wanted. -/
def amount (wanted : ByteString × Timestamp → Bool) (buckets : Buckets) : ℤ × ℤ × ℤ :=
  ((buckets.filter fun e => (target timestampIn e.1).any wanted).map fun e => e.2.columns).sum

/-- The columns of the rows that are wanted, as a measure. -/
def columnsOf (timestampIn : JsString → Option Timestamp)
    (wanted : ByteString × Timestamp → Bool) : Measure timestampIn (ℤ × ℤ × ℤ) where
  row r := if wanted (rowKey r) then columns r else 0
  entry e := if (target timestampIn e.1).any wanted then e.2.columns else 0
  upsert {current place key b v} reads keyed upserts := by
    have old : worth (fun r => if wanted (rowKey r) then columns r else 0) current =
        if wanted place then worth columns current else 0 := by
      cases current with
      | none => simp
      | some r => rw [worth_some, worth_some, keyed r rfl]
    rw [old, rowKey_of_upsert upserts, columns_of_upsert upserts, reads, Option.any_some]
    split <;> simp
  plus {key b d} small := by
    rw [Bucket.plus_columns small]
    split <;> simp

theorem sum_ite_eq_sum_filter {α : Type} (test : α → Bool) (value : α → ℤ × ℤ × ℤ) (l : List α) :
    (l.map fun a => if test a then value a else 0).sum = ((l.filter test).map value).sum := by
  induction l with
  | nil => rfl
  | cons a l ih => by_cases passes : test a <;> simp [passes, ih]

theorem sums_eq_sum (rows : List StatRecord) : sums rows = (rows.map columns).sum := by
  induction rows with
  | nil => rfl
  | cons r rows ih =>
      rw [List.map_cons, List.sum_cons, ← ih]
      rfl

theorem rows_columnsOf (wanted : ByteString × Timestamp → Bool) (table : StatsTable) :
    (columnsOf timestampIn wanted).rows table.rows = total wanted table := by
  rw [total, sums_eq_sum]
  exact sum_ite_eq_sum_filter (fun r => wanted (rowKey r)) columns table.rows

theorem amount_columnsOf (wanted : ByteString × Timestamp → Bool) :
    (columnsOf timestampIn wanted).amount = amount timestampIn wanted := by
  funext buckets
  exact sum_ite_eq_sum_filter (fun e : JsString × Bucket => (target timestampIn e.1).any wanted)
    (fun e => e.2.columns) buckets

/-- The snapshot of a flush, as long as it is not committed. -/
def Flush.uncommitted (f : Flush) : Buckets :=
  match f.stage with
  | .committed => []
  | _ => f.snapshot

/-- The event of an action, as a bucket with its key. -/
def Action.bucket? : Action → Option (JsString × Bucket)
  | .message ev now => (ev.key now).map fun key => (key, ev.bucket)
  | _ => none

/-- The events of a schedule. -/
def entries (acts : List Action) : Buckets := acts.filterMap Action.bucket?

theorem added_step {a : Action} {s' : Consumer} (taken : s.step timestampIn a = some s') :
    s'.added = a.bucket?.toList ++ s.added := by
  cases moves_of_step taken with
  | add keyed added => simp [Action.bucket?, keyed]
  | rest same =>
      cases a with
      | message ev now =>
          cases keyed : ev.key now with
          | none => simp [Action.bucket?, keyed]
          | some key =>
              -- An event with a key is added.
              have more := congrArg (fun s => s.added.length) (Option.some.inj taken)
              simp [Consumer.add, keyed, RollupBuffer.add] at more
      | _ => rfl
  | _ => rfl

/-- What came in are the events of the schedule. -/
theorem added_of_run {s₀ : Consumer} (ran : run (Consumer.step timestampIn) s₀ acts = some s) :
    s.added = (entries acts).reverse ++ s₀.added := by
  induction acts generalizing s₀ with
  | nil =>
      cases ran
      rfl
  | cons a acts ih =>
      obtain ⟨s₁, taken, ran⟩ := Option.bind_eq_some_iff.mp ran
      have first : entries (a :: acts) = a.bucket?.toList ++ entries acts := by
        unfold entries
        cases here : a.bucket? <;> simp [here]
      rw [ih ran, added_step taken, first]
      cases a.bucket? <;> simp

theorem weight_perm {b d : Buckets} (same : b.Perm d) : weight b = weight d := (same.map _).sum_eq

/-- **What a measure counts is conserved**: rows, buckets and flushes together hold what was there
and what came in, up to what is lost and what counts twice. -/
theorem Measure.conserved {M : Type} [AddCommGroup M] (m : Measure timestampIn M)
    (ran : run (Consumer.step timestampIn) (.initial start) acts = some s)
    (fits : weight (entries acts) ≤ 2 ^ 53) :
    m.rows s.table.rows + m.amount s.buckets +
        (s.flushes.map fun f => m.amount f.uncommitted).sum + (s.lost.map m.amount).sum =
      m.rows start.rows + m.amount (entries acts) + (s.doubled.map m.amount).sum := by
  have came : s.added.Perm (entries acts) := by
    rw [added_of_run ran, Consumer.initial, List.append_nil]
    exact List.reverse_perm _
  have balance := balance_of_run m ran (weight_perm came ▸ fits)
  have held : ∀ f, m.held f = m.amount f.uncommitted := by
    intro f
    unfold Measure.held Flush.uncommitted
    split
    · simp [Measure.amount]
    · rfl
  have same : m.amount s.added = m.amount (entries acts) := (came.map _).sum_eq
  unfold Measure.balance at balance
  rw [List.map_congr_left fun f _ => held f, same] at balance
  rw [← balance]
  abel

/-- **Nothing goes astray**: whatever fails and however flushes overlap, rows, buckets and flushes
together hold what was there and what came in, up to the buckets of flushes that got no connection,
which are lost, and those that were committed and put back, which count twice. -/
theorem conserved_of_run (ran : run (Consumer.step timestampIn) (.initial start) acts = some s)
    (fits : weight (entries acts) ≤ 2 ^ 53) (wanted : ByteString × Timestamp → Bool) :
    total wanted s.table + amount timestampIn wanted s.buckets +
        (s.flushes.map fun f => amount timestampIn wanted f.uncommitted).sum +
        (s.lost.map (amount timestampIn wanted)).sum =
      total wanted start + amount timestampIn wanted (entries acts) +
        (s.doubled.map (amount timestampIn wanted)).sum := by
  have conserved := (columnsOf timestampIn wanted).conserved ran fits
  rw [rows_columnsOf, rows_columnsOf, amount_columnsOf] at conserved
  exact conserved

end Sums

/-- A hit on `/a`, in the first hour of 1970. -/
def hitEvent : AccessEvent := ⟨1000, literal "/a", literal "hit", 5, rfl⟩

/-- Postgres reads this hour. -/
def firstHour (text : JsString) : Option Timestamp :=
  if text = literal "1970-01-01T00:00:00.000Z" then some 0 else none

theorem distinct_nil : ([] : List StatRecord).Pairwise fun a b =>
    ¬ (a.path = b.path ∧ a.dateHour = b.dateHour) :=
  List.Pairwise.nil

/-- A table without rows. -/
def noStats : StatsTable := ⟨[], distinct_nil⟩

/-- A hit is committed, but the flush is told that it is not, and puts it back; the next flush gets
no connection. -/
def unluckyRun : List Action :=
  [.message hitEvent 0, .flush, .answer 0 true, .answer 0 true, .message hitEvent 0, .answer 0 true,
    .execute 0, .answer 0 false, .answer 0 true, .flush, .answer 0 false]

/-- A hit that counts once more, and two that are lost. -/
theorem conserved_unluckyRun :
    ∃ s, run (Consumer.step firstHour) (.initial noStats) unluckyRun = some s ∧
      s.table.rows = [⟨bytes "/a", 0, 1, 0, 5⟩] ∧
      ∀ wanted, total wanted s.table + amount firstHour wanted s.buckets +
          (s.flushes.map fun f => amount firstHour wanted f.uncommitted).sum +
          (s.lost.map (amount firstHour wanted)).sum =
        total wanted noStats + amount firstHour wanted (entries unluckyRun) +
          (s.doubled.map (amount firstHour wanted)).sum := by
  have runs : (run (Consumer.step firstHour) (.initial noStats) unluckyRun).map
      (fun s => s.table.rows) = some [⟨bytes "/a", 0, 1, 0, 5⟩] := by decide +kernel
  obtain ⟨s, ran, rows⟩ := Option.map_eq_some_iff.mp runs
  exact ⟨s, ran, rows, conserved_of_run ran (by decide +kernel)⟩

end EdgeCache.Analytics

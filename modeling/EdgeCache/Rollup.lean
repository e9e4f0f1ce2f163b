import EdgeCache.Lib.Keyed
import EdgeCache.AccessLog
import EdgeCache.StatsTotals

/-!
# The rollup of the access log

The consumer adds every event to the bucket of its path and its hour, and from time to time a flush
takes all buckets and adds them to the rows of Postgres, in one transaction.  Flushes overlap, each
call of a flush may fail, and a `COMMIT` may be executed and reported as failed, or be executed
later.

* `Consumer.step` — one step of the consumer and Postgres.
* `moves_of_step` — **what a step can do**, guards included.
-/

namespace EdgeCache.Analytics

open ControlPlane Keyed Transition

/-! ## Events -/

/-- `AccessEvent`, as far as `add` reads it; numbers that are not integers are left out. -/
structure AccessEvent where
  timestamp : ℤ
  path : JsString
  result : JsString
  bytesServed : ℤ
  double : toDouble bytesServed = bytesServed

/-- The year, the month and the day of a day since 1970-01-01. -/
def civil (days : ℤ) : ℤ × ℤ × ℤ :=
  -- Years that begin in March, in eras of 400 of them.
  let era := (days + 719468) / 146097
  let doe := (days + 719468) % 146097
  let yoe := (doe - doe / 1460 + doe / 36524 - doe / 146096) / 365
  let doy := doe - (365 * yoe + yoe / 4 - yoe / 100)
  let mp := (5 * doy + 2) / 153
  let month := if mp < 10 then mp + 3 else mp - 9
  (yoe + era * 400 + (if month ≤ 2 then 1 else 0), month, doy - (153 * mp + 2) / 5 + 1)

/-- A number with zeros in front. -/
def padded (width : ℕ) (n : ℤ) : JsString :=
  List.replicate (width - (Json.natText n.natAbs).length) 48 ++ Json.natText n.natAbs

/-- A year; one that has not four digits has six of them, and a sign. -/
def yearText (year : ℤ) : JsString :=
  if 0 ≤ year ∧ year ≤ 9999 then padded 4 year
  else (if year < 0 then 45 else 43) :: padded 6 year

/-- `Date.prototype.toISOString`, of milliseconds. -/
def toISOString (t : ℤ) : JsString :=
  let date := civil (t / 86400000)
  yearText date.1 ++ 45 :: padded 2 date.2.1 ++ 45 :: padded 2 date.2.2 ++
    84 :: padded 2 (t / 3600000 % 24) ++ 58 :: padded 2 (t / 60000 % 60) ++
    58 :: padded 2 (t / 1000 % 60) ++ 46 :: padded 3 (t % 1000) ++ [90]

/-- `hourKey`; `toISOString` throws where a `Date` is invalid. -/
def hourKey (tsMs : ℤ) : Option JsString :=
  if tsMs.natAbs ≤ 8640000000000000 then some (toISOString (tsMs / 3600000 * 3600000)) else none

/-! ## The buffer -/

/-- `Bucket`: three doubles. -/
structure Bucket where
  hits : ℤ
  misses : ℤ
  bytes : ℤ
  deriving DecidableEq

/-- `Map<string, Bucket>`, in the order of insertion. -/
abbrev Buckets := List (JsString × Bucket)

/-- The key of the bucket of an event; `0` stands between the path and the hour. -/
def AccessEvent.key (ev : AccessEvent) (now : ℤ) : Option JsString :=
  (hourKey (if ev.timestamp = 0 then now else ev.timestamp)).map fun hour => ev.path ++ 0 :: hour

/-- A bucket counts an event. -/
def Bucket.count (b : Bucket) (ev : AccessEvent) : Bucket :=
  let b := if ev.result = literal "hit" ∨ ev.result = literal "stale"
    then { b with hits := toDouble (b.hits + 1) } else { b with misses := toDouble (b.misses + 1) }
  { b with bytes := toDouble (b.bytes + ev.bytesServed) }

/-- The bucket of an event that is alone. -/
def AccessEvent.bucket (ev : AccessEvent) : Bucket := Bucket.count ⟨0, 0, 0⟩ ev

/-- `existing.hits += b.hits`, and so on. -/
def Bucket.plus (b d : Bucket) : Bucket :=
  ⟨toDouble (b.hits + d.hits), toDouble (b.misses + d.misses), toDouble (b.bytes + d.bytes)⟩

namespace RollupBuffer

/-- The bucket of a key. -/
def find (buckets : Buckets) (key : JsString) : Option Bucket :=
  (get Prod.fst key buckets).map Prod.snd

/-- `RollupBuffer.add`; `none` where it throws, and the event is dropped. -/
def add (buckets : Buckets) (ev : AccessEvent) (now : ℤ) : Option Buckets := do
  let key ← ev.key now
  return put Prod.fst (key, ((find buckets key).getD ⟨0, 0, 0⟩).count ev) buckets

/-- One round of the loop that puts a snapshot back. -/
def mergeOne (buckets : Buckets) (entry : JsString × Bucket) : Buckets :=
  match find buckets entry.1 with
  | some existing => put Prod.fst (entry.1, existing.plus entry.2) buckets
  | none => put Prod.fst entry buckets

/-- Put a snapshot back. -/
def merge (buckets snapshot : Buckets) : Buckets := snapshot.foldl mergeOne buckets

end RollupBuffer

/-! ## Postgres -/

/-- A `BIGINT`. -/
def bigintIn (n : ℤ) : Option Int64 :=
  if -2 ^ 63 ≤ n ∧ n < 2 ^ 63 then some (Int64.ofInt n) else none

/-- The primary key of a row. -/
def rowKey (r : StatRecord) : ByteString × Timestamp := (r.path, r.dateHour)

/-- `INSERT … ON CONFLICT (path, date_hour) DO UPDATE`: the new version of the row. -/
def upsert (current : Option StatRecord) (row : ByteString × Timestamp) (b : Bucket) :
    Option StatRecord := do
  let hits ← bigintIn b.hits
  let misses ← bigintIn b.misses
  let bytes ← bigintIn b.bytes
  match current with
  | none => return ⟨row.1, row.2, hits, misses, bytes⟩
  | some r =>
      return ⟨row.1, row.2, ← bigintIn (r.hits.toInt + hits.toInt),
        ← bigintIn (r.misses.toInt + misses.toInt), ← bigintIn (r.bytesServed.toInt + bytes.toInt)⟩

/-- A transaction: the buckets that it has added, and its versions of the rows. -/
abbrev Tx := Writes StatRecord (JsString × Bucket)

theorem nodup_rows (table : StatsTable) : (table.rows.map rowKey).Nodup := by
  rw [List.Nodup, List.pairwise_map]
  exact table.distinct.imp fun apart same => apart (Prod.mk.inj same)

/-- A table after a transaction has committed. -/
def commit (table : StatsTable) (tx : Tx) : StatsTable where
  rows := putAll rowKey tx.versions table.rows
  distinct := (List.pairwise_map.mp (nodup_putAll (nodup_rows table))).imp fun apart same =>
    apart (Prod.ext same.1 same.2)

/-! ## Flushes -/

/-- What a flush waits for. -/
inductive Stage
  /-- `pool.connect()`. -/
  | connect
  /-- `BEGIN`. -/
  | begin
  /-- The `INSERT` of the first bucket that the transaction has not added. -/
  | insert (tx : Tx)
  /-- `COMMIT`, which has not been executed. -/
  | commit (tx : Tx)
  /-- `COMMIT`, which has been executed. -/
  | committed
  /-- `ROLLBACK`. -/
  | rollback

/-- A flush, with the buckets that it has taken. -/
structure Flush where
  snapshot : Buckets
  stage : Stage

/-- The transaction of a flush that is open. -/
def Flush.tx? (f : Flush) : Option Tx :=
  match f.stage with
  | .insert tx => some tx
  | .commit tx => some tx
  | _ => none

/-- **The consumer and its table**: the buckets, the flushes that are running, and the transactions
that were sent a `COMMIT` which nobody waits for.  `added`, `lost` and `doubled` are there for the
statements only: the events, each as a bucket, the snapshots of flushes that got no connection, and
the buckets that were committed and put back all the same. -/
structure Consumer where
  buckets : Buckets
  flushes : List Flush
  late : List Tx
  table : StatsTable
  added : Buckets
  lost : List Buckets
  doubled : List Buckets

namespace Consumer

/-- A consumer that has just started. -/
def initial (table : StatsTable) : Consumer := ⟨[], [], [], table, [], [], []⟩

/-- A flush goes on. -/
def goOn (s : Consumer) (i : ℕ) (f : Flush) (stage : Stage) : Consumer :=
  { s with flushes := s.flushes.set i ⟨f.snapshot, stage⟩ }

/-- A flush returns, or is rejected. -/
def leave (s : Consumer) (i : ℕ) : Consumer := { s with flushes := s.flushes.eraseIdx i }

/-- The transactions that are open beside the one of a flush. -/
def others (s : Consumer) (i : ℕ) : List Tx := (s.flushes.eraseIdx i).filterMap Flush.tx? ++ s.late

/-- Another transaction has locked a row. -/
def Locked (s : Consumer) (i : ℕ) (row : ByteString × Timestamp) : Prop :=
  ∃ tx ∈ s.others i, ∃ v ∈ tx.versions, rowKey v = row

instance (s : Consumer) (i : ℕ) (row : ByteString × Timestamp) : Decidable (s.Locked i row) :=
  inferInstanceAs (Decidable (∃ tx ∈ s.others i, ∃ v ∈ tx.versions, rowKey v = row))

/-- `eachMessage`: an event is added, or dropped where `add` throws. -/
def add (s : Consumer) (ev : AccessEvent) (now : ℤ) : Consumer :=
  match ev.key now, RollupBuffer.add s.buckets ev now with
  | some key, some buckets =>
      { s with buckets := buckets, added := (key, ev.bucket) :: s.added }
  | _, _ => s

/-- `flush`, up to its first call. -/
def flush (s : Consumer) : Consumer :=
  if s.buckets = [] then s
  else { s with buckets := [], flushes := s.flushes ++ [⟨s.buckets, .connect⟩] }

end Consumer

/-- What happens to a consumer. -/
inductive Action
  /-- An event comes. -/
  | message (ev : AccessEvent) (now : ℤ)
  /-- A flush starts. -/
  | flush
  /-- The call that a flush waits for is answered, or rejected. -/
  | answer (i : ℕ) (ok : Bool)
  /-- Postgres executes the `COMMIT` that a flush waits for. -/
  | execute (i : ℕ)
  /-- Postgres executes a `COMMIT` that nobody waits for. -/
  | executeLate (j : ℕ)
  /-- Postgres gives up a transaction that nobody waits for. -/
  | abort (j : ℕ)

section Postgres

-- What Postgres makes of the text of a `TIMESTAMPTZ`.
variable (timestampIn : JsString → Option Timestamp)

/-- The row of a bucket: the first two pieces of its key, as Postgres reads them. -/
def target (key : JsString) : Option (ByteString × Timestamp) :=
  match key.splitOn 0 with
  | path :: hour :: _ => do return (← textIn path, ← timestampIn hour)
  | _ => none

namespace Consumer

/-- The `INSERT` of a flush is executed; not as long as another transaction has locked the row. -/
def insert (s : Consumer) (i : ℕ) (f : Flush) (tx : Tx) : Option Consumer := do
  let entry ← f.snapshot[tx.added.length]?
  let row ← target timestampIn entry.1
  if s.Locked i row then none else
  let v ← upsert (tx.sees rowKey s.table.rows row) row entry.2
  let tx := tx.write rowKey entry v
  return s.goOn i f (if tx.added.length = f.snapshot.length then .commit tx else .insert tx)

/-- The call that a flush waits for is answered, or rejected.  No connection leaves the flush before
its `try`. -/
def answer (s : Consumer) (i : ℕ) (f : Flush) (ok : Bool) : Option Consumer :=
  match f.stage, ok with
  | .connect, true => some (s.goOn i f .begin)
  | .connect, false => some { s.leave i with lost := f.snapshot :: s.lost }
  | .begin, true => some (s.goOn i f (.insert Writes.none))
  | .insert tx, true => s.insert timestampIn i f tx
  | .commit _, true => none
  | .committed, true => some (s.leave i)
  | .begin, false => some (s.goOn i f .rollback)
  | .insert _, false => some (s.goOn i f .rollback)
  | .commit tx, false => some { s.goOn i f .rollback with late := tx :: s.late }
  | .committed, false => some { s.goOn i f .rollback with doubled := f.snapshot :: s.doubled }
  | .rollback, _ => some { s.leave i with buckets := RollupBuffer.merge s.buckets f.snapshot }

/-- **One step of a consumer and Postgres.** -/
def step (s : Consumer) : Action → Option Consumer
  | .message ev now => some (s.add ev now)
  | .flush => some s.flush
  | .answer i ok => s.flushes[i]?.bind fun f => s.answer timestampIn i f ok
  | .execute i => s.flushes[i]?.bind fun f =>
      match f.stage with
      | .commit tx => some { s.goOn i f .committed with table := Analytics.commit s.table tx }
      | _ => none
  | .executeLate j => s.late[j]?.map fun tx =>
      { s with
        late := s.late.eraseIdx j
        table := Analytics.commit s.table tx
        doubled := tx.added :: s.doubled }
  | .abort j => s.late[j]?.map fun _ => { s with late := s.late.eraseIdx j }

end Consumer

/-! ## What a step does -/

/-- Where a list has an element, it is in front of it, the element, and behind it. -/
theorem exists_split {α : Type} {l : List α} {i : ℕ} {f : α} (found : l[i]? = some f) :
    ∃ front back, l = front ++ f :: back ∧ l.eraseIdx i = front ++ back ∧
      ∀ f', l.set i f' = front ++ f' :: back := by
  obtain ⟨small, rfl⟩ := List.getElem?_eq_some_iff.mp found
  refine ⟨l.take i, l.drop (i + 1), ?_, List.eraseIdx_eq_take_drop_succ _ _, fun f' => ?_⟩
  · rw [List.cons_getElem_drop_succ, List.take_append_drop]
  · rw [List.set_eq_take_append_cons_drop, if_pos small]

/-- A flush after its `INSERT` was executed. -/
def Flush.next (f : Flush) (tx : Tx) : Stage :=
  if tx.added.length = f.snapshot.length then .commit tx else .insert tx

/-- **The steps of a consumer**, one by one. -/
inductive Moves (s : Consumer) : Action → Consumer → Prop
  | add {ev now key buckets} (keyed : ev.key now = some key)
      (added : RollupBuffer.add s.buckets ev now = some buckets) :
      Moves s (.message ev now)
        { s with buckets := buckets, added := (key, ev.bucket) :: s.added }
  /-- An event is dropped, or there is nothing to flush. -/
  | rest {a} (same : a = .flush → s.buckets = []) : Moves s a s
  | flush (full : s.buckets ≠ []) :
      Moves s .flush { s with buckets := [], flushes := s.flushes ++ [⟨s.buckets, .connect⟩] }
  /-- There was no connection. -/
  | refuse {i front f back} (found : s.flushes[i]? = some f)
      (split : s.flushes = front ++ f :: back) (stage : f.stage = .connect) :
      Moves s (.answer i false)
        { s with flushes := front ++ back, lost := f.snapshot :: s.lost }
  | connect {i front f back} (split : s.flushes = front ++ f :: back) (stage : f.stage = .connect) :
      Moves s (.answer i true) { s with flushes := front ++ ⟨f.snapshot, .begin⟩ :: back }
  | begin {i front f back} (split : s.flushes = front ++ f :: back) (stage : f.stage = .begin) :
      Moves s (.answer i true)
        { s with flushes := front ++ ⟨f.snapshot, .insert Writes.none⟩ :: back }
  | insert {i front f back tx entry row v} (split : s.flushes = front ++ f :: back)
      (stage : f.stage = .insert tx) (next : f.snapshot[tx.added.length]? = some entry)
      (reads : target timestampIn entry.1 = some row)
      (free : ∀ w ∈ (front ++ back).filterMap Flush.tx? ++ s.late, ∀ v ∈ w.versions, rowKey v ≠ row)
      (upserts : upsert (tx.sees rowKey s.table.rows row) row entry.2 = some v) :
      Moves s (.answer i true)
        { s with flushes := front ++ ⟨f.snapshot, f.next (tx.write rowKey entry v)⟩ :: back }
  /-- `BEGIN` or an `INSERT` fails. -/
  | fail {i front f back} (split : s.flushes = front ++ f :: back)
      (stage : f.stage = .begin ∨ ∃ tx, f.stage = .insert tx) :
      Moves s (.answer i false) { s with flushes := front ++ ⟨f.snapshot, .rollback⟩ :: back }
  /-- `COMMIT` fails, and may be executed later. -/
  | forsake {i front f back tx} (found : s.flushes[i]? = some f)
      (split : s.flushes = front ++ f :: back) (stage : f.stage = .commit tx) :
      Moves s (.answer i false)
        { s with flushes := front ++ ⟨f.snapshot, .rollback⟩ :: back, late := tx :: s.late }
  | execute {i front f back tx} (split : s.flushes = front ++ f :: back)
      (stage : f.stage = .commit tx) :
      Moves s (.execute i)
        { s with
          flushes := front ++ ⟨f.snapshot, .committed⟩ :: back
          table := Analytics.commit s.table tx }
  | finish {i front f back} (split : s.flushes = front ++ f :: back)
      (stage : f.stage = .committed) :
      Moves s (.answer i true) { s with flushes := front ++ back }
  /-- `COMMIT` was executed, and fails. -/
  | double {i front f back} (found : s.flushes[i]? = some f)
      (split : s.flushes = front ++ f :: back) (stage : f.stage = .committed) :
      Moves s (.answer i false)
        { s with
          flushes := front ++ ⟨f.snapshot, .rollback⟩ :: back
          doubled := f.snapshot :: s.doubled }
  | rollback {i ok front f back} (split : s.flushes = front ++ f :: back)
      (stage : f.stage = .rollback) :
      Moves s (.answer i ok)
        { s with
          flushes := front ++ back
          buckets := RollupBuffer.merge s.buckets f.snapshot }
  | executeLate {j front tx back} (split : s.late = front ++ tx :: back) :
      Moves s (.executeLate j)
        { s with
          late := front ++ back
          table := Analytics.commit s.table tx
          doubled := tx.added :: s.doubled }
  | abort {j front tx back} (split : s.late = front ++ tx :: back) :
      Moves s (.abort j) { s with late := front ++ back }

variable {timestampIn} {s s' : Consumer} {a : Action}

theorem moves_of_insert {i : ℕ} {front back : List Flush} {f : Flush} {tx : Tx}
    (split : s.flushes = front ++ f :: back) (erase : s.flushes.eraseIdx i = front ++ back)
    (set : ∀ f', s.flushes.set i f' = front ++ f' :: back) (stage : f.stage = .insert tx)
    (taken : s.insert timestampIn i f tx = some s') :
    Moves timestampIn s (.answer i true) s' := by
  obtain ⟨entry, next, taken⟩ := Option.bind_eq_some_iff.mp taken
  obtain ⟨row, reads, taken⟩ := Option.bind_eq_some_iff.mp taken
  split at taken
  · cases taken
  · rename_i unlocked
    obtain ⟨v, upserts, taken⟩ := Option.bind_eq_some_iff.mp taken
    cases taken
    rw [Consumer.goOn, set]
    refine .insert split stage next reads (fun w mem v' there same => unlocked ?_) upserts
    rw [Consumer.Locked, Consumer.others, erase]
    exact ⟨w, mem, v', there, same⟩

theorem moves_of_answer {i : ℕ} {ok : Bool} {front back : List Flush} {f : Flush}
    (found : s.flushes[i]? = some f) (split : s.flushes = front ++ f :: back)
    (erase : s.flushes.eraseIdx i = front ++ back)
    (set : ∀ f', s.flushes.set i f' = front ++ f' :: back)
    (taken : s.answer timestampIn i f ok = some s') : Moves timestampIn s (.answer i ok) s' := by
  have left : s.leave i = { s with flushes := front ++ back } := by rw [Consumer.leave, erase]
  have gone : ∀ stage, s.goOn i f stage =
      { s with flushes := front ++ ⟨f.snapshot, stage⟩ :: back } := by
    intro stage
    rw [Consumer.goOn, set]
  unfold Consumer.answer at taken
  cases stage : f.stage with
  | connect =>
      rw [stage] at taken
      cases ok <;> obtain rfl := Option.some.inj taken
      · rw [left]
        exact .refuse found split stage
      · rw [gone]
        exact .connect split stage
  | begin =>
      rw [stage] at taken
      cases ok <;> obtain rfl := Option.some.inj taken <;> rw [gone]
      · exact .fail split (Or.inl stage)
      · exact .begin split stage
  | insert tx =>
      rw [stage] at taken
      cases ok
      · obtain rfl := Option.some.inj taken
        rw [gone]
        exact .fail split (Or.inr ⟨tx, stage⟩)
      · exact moves_of_insert split erase set stage taken
  | commit tx =>
      rw [stage] at taken
      cases ok
      · obtain rfl := Option.some.inj taken
        rw [gone]
        exact .forsake found split stage
      · cases taken
  | committed =>
      rw [stage] at taken
      cases ok <;> obtain rfl := Option.some.inj taken
      · rw [gone]
        exact .double found split stage
      · rw [left]
        exact .finish split stage
  | rollback =>
      rw [stage] at taken
      obtain rfl := Option.some.inj taken
      rw [left]
      exact .rollback split stage

/-- **Every step is one of these.** -/
theorem moves_of_step (taken : s.step timestampIn a = some s') : Moves timestampIn s a s' := by
  cases a with
  | message ev now =>
      obtain rfl := Option.some.inj taken
      unfold Consumer.add
      cases keyed : ev.key now with
      | none => exact .rest (by simp)
      | some key =>
          have added : RollupBuffer.add s.buckets ev now = some (put Prod.fst
              (key, ((RollupBuffer.find s.buckets key).getD ⟨0, 0, 0⟩).count ev) s.buckets) := by
            rw [RollupBuffer.add, keyed]
            rfl
          rw [added]
          exact .add keyed added
  | flush =>
      obtain rfl := Option.some.inj taken
      unfold Consumer.flush
      split
      · rename_i empty
        exact .rest fun _ => empty
      · rename_i full
        exact .flush full
  | answer i ok =>
      obtain ⟨f, found, taken⟩ := Option.bind_eq_some_iff.mp taken
      obtain ⟨front, back, split, erase, set⟩ := exists_split found
      exact moves_of_answer found split erase set taken
  | execute i =>
      obtain ⟨f, found, taken⟩ := Option.bind_eq_some_iff.mp taken
      obtain ⟨front, back, split, erase, set⟩ := exists_split found
      cases stage : f.stage with
      | commit tx =>
          rw [stage, Option.some.injEq] at taken
          subst taken
          rw [Consumer.goOn, set]
          exact .execute split stage
      | _ => simp [stage] at taken
  | executeLate j =>
      obtain ⟨tx, found, rfl⟩ := Option.map_eq_some_iff.mp taken
      obtain ⟨front, back, split, erase, -⟩ := exists_split found
      rw [erase]
      exact .executeLate split
  | abort j =>
      obtain ⟨tx, found, rfl⟩ := Option.map_eq_some_iff.mp taken
      obtain ⟨front, back, split, erase, -⟩ := exists_split found
      rw [erase]
      exact .abort split

end Postgres

end EdgeCache.Analytics

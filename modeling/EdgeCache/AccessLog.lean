import EdgeCache.Lib.Json
import EdgeCache.Lib.Utf8
import EdgeCache.Flow

/-!
# The access log

`RequestHandler::handle` logs an event for every answer, `KafkaAccessLogSink::log` writes it as a
JSON object, and the consumer reads it with `JSON.parse`.  The writer puts the strings of the event
between quotation marks as they are.  Four of its members are the proxy's own and harmless; the path
and the cache key are the client's.

**Main result.**  The consumer reads an event as it was logged, **exactly if** the path and the
cache key are valid UTF-8 without quotation marks, backslashes and control characters (`logged_iff`).
-/

namespace EdgeCache

open Utf8 Transition

/-! ## Events -/

/-- What `operator<<` prints for a latency: a number. -/
structure Latency where
  text : ByteString
  number : ∃ n, Json.readNumber (decode text) = some (n, [])

/-- `AccessLogEvent`. -/
structure AccessLogEvent where
  timestampMs : Int64
  replicaId : ByteString
  path : ByteString
  cacheKey : ByteString
  result : ByteString
  status : Int32
  latencyMs : Latency
  bytesServed : UInt64

/-- What `KafkaAccessLogSink::log` produces. -/
def AccessLogEvent.payload (ev : AccessLogEvent) : ByteString :=
  bytes "\x7b\"timestamp\":" ++ intToString ev.timestampMs.toInt ++
    bytes ",\"replicaId\":\"" ++ ev.replicaId ++ bytes "\",\"path\":\"" ++ ev.path ++
    bytes "\",\"cacheKey\":\"" ++ ev.cacheKey ++ bytes "\",\"result\":\"" ++ ev.result ++
    bytes "\",\"status\":" ++ intToString ev.status.toInt ++ bytes ",\"latencyMs\":" ++
    ev.latencyMs.text ++ bytes ",\"bytesServed\":" ++ toString ev.bytesServed.toNat ++
    bytes "\x7d"

/-- The event of `handle`, at the time the system clock shows. -/
def accessLogEvent {ι : Type} (D : Deployment ι) (i : ι) (req : HttpRequest) (resp : HttpResponse)
    (timestampMs : Int64) (latencyMs : Latency) : AccessLogEvent where
  timestampMs := timestampMs
  replicaId := D.replicaId i
  path := req.path
  cacheKey := D.key req
  result := lower ((resp.headers.find? (bytes "X-Cache")).getD (bytes "unknown"))
  status := resp.status
  latencyMs := latencyMs
  bytesServed := UInt64.ofNat resp.body.length

/-! ## What the consumer reads -/

/-- A byte string as a JavaScript string. -/
def jsText (s : String) : Json.Text := (bytes s).map UInt8.toUInt16

/-- The name occurs once, with this value. -/
def Json.Once (members : List (Json.Text × Json.Value)) (name : Json.Text) (v : Json.Value) : Prop :=
  members.filter (fun m => m.1 = name) = [(name, v)]

/-- The name occurs once, with the string as its value, and nothing is lost in it. -/
def OnceText (members : List (Json.Text × Json.Value)) (name : Json.Text) (s : ByteString) : Prop :=
  Valid s ∧ Json.Once members name (.string (decode s))

/-- **The members of an event.** -/
structure AccessLogEvent.Decodes (ev : AccessLogEvent)
    (members : List (Json.Text × Json.Value)) : Prop where
  timestamp : Json.Once members (jsText "timestamp") (.number ev.timestampMs.toInt 0)
  replicaId : OnceText members (jsText "replicaId") ev.replicaId
  path : OnceText members (jsText "path") ev.path
  cacheKey : OnceText members (jsText "cacheKey") ev.cacheKey
  result : OnceText members (jsText "result") ev.result
  status : Json.Once members (jsText "status") (.number ev.status.toInt 0)
  bytesServed : Json.Once members (jsText "bytesServed") (.number ev.bytesServed.toNat 0)

/-- **The payload is read as the event**: it is a JSON object with its members. -/
def AccessLogEvent.Logged (ev : AccessLogEvent) : Prop :=
  ∃ members, Json.parse (decode ev.payload) = some (.object members) ∧ ev.Decodes members

/-- Valid UTF-8 without quotation marks, backslashes and control characters. -/
def Plain (s : ByteString) : Prop := Valid s ∧ ∀ b ∈ s, b ≠ 34 ∧ b ≠ 92 ∧ 32 ≤ b

instance (s : ByteString) : Decidable (Plain s) :=
  inferInstanceAs (Decidable (Valid s ∧ ∀ b ∈ s, b ≠ 34 ∧ b ≠ 92 ∧ 32 ≤ b))

theorem mem_decode_of_ascii {s : ByteString} {b : UInt8} (ascii : b < 0x80) (mem : b ∈ s) :
    b.toUInt16 ∈ decode s := by
  obtain ⟨front, back, rfl⟩ := List.append_of_mem mem
  rw [decode_append front ascii]
  simp

/-- **A string is clean exactly if its bytes are.** -/
theorem clean_decode_iff {s : ByteString} :
    Json.Clean (decode s) ↔ ∀ b ∈ s, b ≠ 34 ∧ b ≠ 92 ∧ 32 ≤ b := by
  constructor
  · intro clean b mem
    by_cases ascii : b < 0x80
    · obtain ⟨quote, backslash, control⟩ := clean _ (mem_decode_of_ascii ascii mem)
      refine ⟨fun same => quote (by rw [same]; rfl), fun same => backslash (by rw [same]; rfl), ?_⟩
      rw [UInt8.le_iff_toNat_le]
      rw [UInt16.lt_iff_toNat_lt, UInt8.toNat_toUInt16] at control
      simpa using control
    · rw [UInt8.lt_iff_toNat_lt] at ascii
      simp only [UInt8.reduceToNat] at ascii
      refine ⟨?_, ?_, ?_⟩
      · rintro rfl
        exact absurd ascii (by decide)
      · rintro rfl
        exact absurd ascii (by decide)
      · rw [UInt8.le_iff_toNat_le]
        simp only [UInt8.reduceToNat]
        omega
  · intro plain u mem
    have back {b : UInt8} (ascii : b < 0x80) (same : u = b.toUInt16) : b ∈ s :=
      mem_of_mem_decode ascii (same ▸ mem)
    refine ⟨fun quote => ?_, fun backslash => ?_, fun control => ?_⟩
    · exact (plain 34 (back (by decide) quote)).1 rfl
    · exact (plain 92 (back (by decide) backslash)).2.1 rfl
    · rw [UInt16.lt_iff_toNat_lt] at control
      simp only [UInt16.reduceToNat] at control
      have same : u = u.toNat.toUInt8.toUInt16 := by
        rw [← UInt16.toNat_inj, UInt8.toNat_toUInt16, toNat_toUInt8 (by omega)]
      have ascii : u.toNat.toUInt8 < 0x80 := by
        rw [UInt8.lt_iff_toNat_lt, toNat_toUInt8 (by omega)]
        simp only [UInt8.reduceToNat]
        omega
      have large := UInt8.le_iff_toNat_le.mp (plain _ (back ascii same)).2.2
      rw [toNat_toUInt8 (by omega)] at large
      simp only [UInt8.reduceToNat] at large
      omega

/-! ## The payload as a text -/

namespace Json

/-- A name, its colon, and what follows. -/
def field (name rest : Text) : Text := QUOTE :: (name ++ QUOTE :: COLON :: rest)

/-- A string between quotation marks, and what follows. -/
def quoted (s rest : Text) : Text := QUOTE :: (s ++ QUOTE :: rest)

variable {name s rest r tail : Text} {fuel rounds : ℕ}

/-- What stands between quotation marks spells a string. -/
def Spells (s v : Text) : Prop := ∀ rest, readString (s ++ QUOTE :: rest) = some (v, rest)

theorem Clean.spells (clean : Clean s) : Spells s s := readString_of_clean clean

/-- A member whose value is a string. -/
theorem readMember_spelled {v : Text} (named : Clean name) (spells : Spells s v) :
    readMember (readValue (fuel + 1)) (field name (quoted s rest)) =
      some ((name, .string v), rest) := by
  rw [field, readMember_of_clean named, quoted, readValue_quote, spells rest]
  rfl

/-- A member whose value is a clean string. -/
theorem readMember_quoted (named : Clean name) (clean : Clean s) :
    readMember (readValue (fuel + 1)) (field name (quoted s rest)) =
      some ((name, .string s), rest) := readMember_spelled named clean.spells

/-- A member whose value is a number. -/
theorem readMember_number {m e : ℤ} {c : UInt16} (named : Clean name) (ends : Ends c)
    (number : readNumber s = some ((m, e), [])) :
    readMember (readValue (fuel + 1)) (field name (s ++ c :: rest)) =
      some ((name, .number m e), c :: rest) := by
  rw [field, readMember_of_clean named, readValue_of_number (readNumber_append ends number)]
  rfl

/-- The members behind the first one. -/
theorem of_readItems_comma {α : Type} {item : Text → Option (α × Text)} {close : UInt16} {a : α}
    {as : List α} (read : readItems item close (rounds + 1) s = some (as, r))
    (first : item s = some (a, COMMA :: rest)) :
    ∃ as', as = a :: as' ∧ readItems item close rounds rest = some (as', r) := by
  rw [readItems_comma first] at read
  obtain ⟨⟨as', r'⟩, others, same⟩ := Option.map_eq_some_iff.mp read
  cases same
  exact ⟨as', rfl, others⟩

/-- **An object is read member by member**, whatever bound is large enough. -/
theorem parse_object (enough : (LBRACE :: field name rest).length ≤ fuel) :
    parse (LBRACE :: field name rest) =
      (readItems (readMember (readValue fuel)) RBRACE fuel (field name rest)).bind
        fun (ms, r) => if skip r = [] then some (.object ms) else none := by
  have first : (skip (field name rest)).head? ≠ some RBRACE := by
    rw [field, skip_cons (by decide)]
    show some QUOTE ≠ some RBRACE
    decide
  rw [parse_eq (Nat.lt_succ_of_le enough), readValue_lbrace, readList, if_neg first,
    Option.bind_map]
  rfl

/-- A name that starts like no end of a member. -/
def Starts (name : Text) : Prop :=
  name.head?.any (fun c => !(isSpace c || c = COMMA || c = RBRACE)) = true

instance (name : Text) : Decidable (Starts name) := inferInstanceAs (Decidable (_ = true))

/-- **A string that is read as it stands is clean**, if it is the only value of its name among the
members, and the next name does not start like the end of a member. -/
theorem clean_of_once {next : Text} {front ms : List (Text × Value)} (named : Clean name)
    (starts : Starts next) (apart : ∀ m ∈ front, m.1 ≠ name)
    (read : readItems (readMember (readValue (fuel + 1))) RBRACE rounds
      (field name (quoted s (COMMA :: field next rest))) = some (ms, r))
    (once : Once (front ++ ms) name (.string s)) : Clean s := by
  obtain ⟨⟨name', v⟩, ms', rest', first, rfl, goesOn⟩ := exists_of_readItems read
  rw [field, readMember_of_clean named, quoted, readValue_quote, Option.map_map] at first
  obtain ⟨⟨w, rest'⟩, string, same⟩ := Option.map_eq_some_iff.mp first
  cases same
  have none_ : front.filter (fun m => m.1 = name) = [] :=
    List.filter_eq_nil_iff.mpr fun m mem => by simpa using apart m mem
  rw [Once, List.filter_append, none_, List.nil_append,
    List.filter_cons_of_pos (by simp)] at once
  obtain ⟨same, -⟩ := List.cons.inj once
  rw [Prod.mk.injEq, Value.string.injEq] at same
  rcases readString_append string with ⟨clean, -, -⟩ | shorter | missed
  · exact clean
  · exact absurd shorter (by rw [same.2]; exact lt_irrefl _)
  · rw [missed] at goesOn
    cases next with
    | nil => cases starts
    | cons c t =>
        simp only [Starts, List.head?_cons, Option.any_some, Bool.not_eq_true',
          Bool.or_eq_false_iff, decide_eq_false_iff_not] at starts
        obtain ⟨⟨solid, comma⟩, brace⟩ := starts
        rw [List.cons_append, skip_cons solid] at goesOn
        simp [comma, brace] at goesOn

/-- **Two strings of an object are clean** that are read as they stand: behind a number and a clean
string, and before another member. -/
theorem clean_of_parse {name₁ name₂ name₃ name₄ next num host p k : Text} {m e : ℤ}
    {members : List (Text × Value)}
    (named : Clean name₁ ∧ Clean name₂ ∧ Clean name₃ ∧ Clean name₄)
    (apart : [name₁, name₂, name₃, name₄].Nodup) (starts : Starts name₄ ∧ Starts next)
    (number : readNumber num = some ((m, e), [])) (clean : Clean host)
    (parsed : parse (LBRACE :: field name₁ (num ++ COMMA :: field name₂ (quoted host
      (COMMA :: field name₃ (quoted p (COMMA :: field name₄ (quoted k
        (COMMA :: field next rest)))))))) = some (.object members))
    (once : Once members name₃ (.string p) ∧ Once members name₄ (.string k)) :
    Clean p ∧ Clean k := by
  obtain ⟨named₁, named₂, named₃, named₄⟩ := named
  have distinct : (name₁ ≠ name₃ ∧ name₂ ≠ name₃) ∧ name₁ ≠ name₄ ∧ name₂ ≠ name₄ ∧
      name₃ ≠ name₄ := by
    simp at apart
    tauto
  obtain ⟨n, enough⟩ : ∃ n, (LBRACE :: field name₁ (num ++ COMMA :: field name₂ (quoted host
    (COMMA :: field name₃ (quoted p (COMMA :: field name₄ (quoted k
      (COMMA :: field next rest)))))))).length ≤ n := ⟨_, le_rfl⟩
  rw [parse_object (enough.trans (Nat.le_add_right n 4))] at parsed
  obtain ⟨⟨ms, r⟩, read, same⟩ := Option.bind_eq_some_iff.mp parsed
  simp only at same
  split at same
  · cases same
    obtain ⟨ms₁, rfl, read₁⟩ :=
      of_readItems_comma read (readMember_number named₁ ends_comma number)
    obtain ⟨ms₂, rfl, read₂⟩ := of_readItems_comma read₁ (readMember_quoted named₂ clean)
    have cleanP : Clean p :=
      @clean_of_once _ _ _ _ _ _ _ [_, _] _ named₃ starts.1 (by simp [distinct]) read₂ once.1
    obtain ⟨ms₃, rfl, read₃⟩ := of_readItems_comma read₂ (readMember_quoted named₃ cleanP)
    exact ⟨cleanP, @clean_of_once _ _ _ _ _ _ _ [_, _, _] _ named₄ starts.2 (by simp [distinct])
      read₃ once.2⟩
  · cases same

end Json

theorem isdigit_ascii {c : UInt8} (digit : isdigit c = true) : c < 0x80 := by
  have all : ∀ c : UInt8, isdigit c = true → c < 0x80 := by decide +kernel
  exact all c digit

theorem ascii_toString (n : ℕ) : Ascii (toString n) :=
  fun c mem => isdigit_ascii ((isDecimal_toString n).2 c mem)

/-- A printed number, decoded. -/
theorem decode_toString (n : ℕ) : decode (toString n) = Json.natText n := by
  have unit : ∀ d < 10, (digitByte d).toUInt16 = (48 + d).toUInt16 := by decide
  rw [decode_of_ascii (ascii_toString n), toString, Json.natText]
  split
  · rfl
  · rw [List.map_map]
    refine List.map_congr_left fun d digit => unit d ?_
    exact Nat.digits_lt_base (by decide) (List.mem_reverse.mp digit)

theorem decode_cons {b : UInt8} (ascii : b < 0x80) (s : ByteString) :
    decode (b :: s) = b.toUInt16 :: decode s := decode_append [] ascii s

theorem decode_intToString (n : ℤ) : decode (intToString n) = Json.intText n := by
  unfold intToString Json.intText
  split
  · rw [decode_cons (by decide), decode_toString]
    rfl
  · exact decode_toString _

/-- The payload as the consumer gets it. -/
def AccessLogEvent.text (ev : AccessLogEvent) : Json.Text :=
  Json.LBRACE :: Json.field (jsText "timestamp") (Json.intText ev.timestampMs.toInt ++
    Json.COMMA :: Json.field (jsText "replicaId") (Json.quoted (decode ev.replicaId) (
    Json.COMMA :: Json.field (jsText "path") (Json.quoted (decode ev.path) (
    Json.COMMA :: Json.field (jsText "cacheKey") (Json.quoted (decode ev.cacheKey) (
    Json.COMMA :: Json.field (jsText "result") (Json.quoted (decode ev.result) (
    Json.COMMA :: Json.field (jsText "status") (Json.intText ev.status.toInt ++
    Json.COMMA :: Json.field (jsText "latencyMs") (decode ev.latencyMs.text ++
    Json.COMMA :: Json.field (jsText "bytesServed") (Json.intText ev.bytesServed.toNat ++
    [Json.RBRACE]))))))))))))

/-- **What `log` writes, decoded.** -/
theorem AccessLogEvent.decode_payload (ev : AccessLogEvent) : decode ev.payload = ev.text := by
  have pieces : [bytes "\x7b\"timestamp\":", bytes ",\"replicaId\":\"", bytes "\",\"path\":\"",
        bytes "\",\"cacheKey\":\"", bytes "\",\"result\":\"", bytes "\",\"status\":",
        bytes ",\"latencyMs\":", bytes ",\"bytesServed\":", bytes "\x7d"] =
      [123 :: 34 :: (bytes "timestamp" ++ [34, 58]),
        44 :: 34 :: (bytes "replicaId" ++ [34, 58, 34]),
        34 :: 44 :: 34 :: (bytes "path" ++ [34, 58, 34]),
        34 :: 44 :: 34 :: (bytes "cacheKey" ++ [34, 58, 34]),
        34 :: 44 :: 34 :: (bytes "result" ++ [34, 58, 34]),
        34 :: 44 :: 34 :: (bytes "status" ++ [34, 58]),
        44 :: 34 :: (bytes "latencyMs" ++ [34, 58]),
        44 :: 34 :: (bytes "bytesServed" ++ [34, 58]), [125]] := by decide +kernel
  have word : ∀ s ∈ ["timestamp", "replicaId", "path", "cacheKey", "result", "status", "latencyMs",
      "bytesServed"], decode (bytes s) = jsText s := by decide +kernel
  simp only [List.cons.injEq, and_true] at pieces
  obtain ⟨timestamp, replicaId, path, cacheKey, result, status, latency, served, ends⟩ := pieces
  simp only [payload, timestamp, replicaId, path, cacheKey, result, status, latency, served, ends,
    List.append_assoc, List.cons_append, List.nil_append]
  simp (disch := decide) only [decode_append, decode_cons, decode_intToString,
    ← intToString_natCast, word, text, Json.field, Json.quoted]
  rfl

/-! ## Plain events -/

theorem Plain.clean {s : ByteString} (plain : Plain s) : Json.Clean (decode s) :=
  clean_decode_iff.mpr plain.2

namespace AccessLogEvent

/-- The names of the members are clean. -/
theorem clean_names : ∀ name ∈ ["timestamp", "replicaId", "path", "cacheKey", "result", "status",
    "latencyMs", "bytesServed"], Json.Clean (jsText name) := by
  have plain : (["timestamp", "replicaId", "path", "cacheKey", "result", "status", "latencyMs",
      "bytesServed"].all fun name => (bytes name).all fun b =>
        b < 0x80 && (b ≠ 34 && (b ≠ 92 && 32 ≤ b))) = true := by decide +kernel
  intro name mem
  have each := List.all_eq_true.mp (List.all_eq_true.mp plain name mem)
  simp only [Bool.and_eq_true, decide_eq_true_eq] at each
  rw [jsText, ← decode_of_ascii fun b mem => (each b mem).1]
  exact clean_decode_iff.mpr fun b mem => (each b mem).2

variable (ev : AccessLogEvent)

/-- The members of a plain event. -/
def members (m e : ℤ) : List (Json.Text × Json.Value) :=
  [(jsText "timestamp", .number ev.timestampMs.toInt 0),
    (jsText "replicaId", .string (decode ev.replicaId)),
    (jsText "path", .string (decode ev.path)),
    (jsText "cacheKey", .string (decode ev.cacheKey)),
    (jsText "result", .string (decode ev.result)),
    (jsText "status", .number ev.status.toInt 0),
    (jsText "latencyMs", .number m e),
    (jsText "bytesServed", .number ev.bytesServed.toNat 0)]

/-- The members of an event whose path and cache key spell `p` and `k`. -/
def spelled (p k : Json.Text) (m e : ℤ) : List (Json.Text × Json.Value) :=
  [(jsText "timestamp", .number ev.timestampMs.toInt 0),
    (jsText "replicaId", .string (decode ev.replicaId)), (jsText "path", .string p),
    (jsText "cacheKey", .string k), (jsText "result", .string (decode ev.result)),
    (jsText "status", .number ev.status.toInt 0), (jsText "latencyMs", .number m e),
    (jsText "bytesServed", .number ev.bytesServed.toNat 0)]

variable {ev}

/-- **An event is read member by member**, with the strings that its own ones spell. -/
theorem parse_spelled {p k : Json.Text} (host : Json.Clean (decode ev.replicaId))
    (path : Json.Spells (decode ev.path) p) (cacheKey : Json.Spells (decode ev.cacheKey) k)
    (result : Json.Clean (decode ev.result)) :
    ∃ m e, Json.parse ev.text = some (.object (ev.spelled p k m e)) := by
  obtain ⟨⟨m, e⟩, latency⟩ := ev.latencyMs.number
  obtain ⟨n, enough⟩ : ∃ n, ev.text.length ≤ n := ⟨_, le_rfl⟩
  refine ⟨m, e, ?_⟩
  have names := clean_names
  simp only [List.forall_mem_cons, List.not_mem_nil, IsEmpty.forall_iff, implies_true,
    and_true] at names
  obtain ⟨name₁, name₂, name₃, name₄, name₅, name₆, name₇, name₈⟩ := names
  rw [text, Json.parse_object (enough.trans (Nat.le_add_right n 8)),
    Json.readItems_comma (Json.readMember_number name₁ Json.ends_comma (Json.readNumber_intText _)),
    Json.readItems_comma (Json.readMember_quoted name₂ host),
    Json.readItems_comma (Json.readMember_spelled name₃ path),
    Json.readItems_comma (Json.readMember_spelled name₄ cacheKey),
    Json.readItems_comma (Json.readMember_quoted name₅ result),
    Json.readItems_comma (Json.readMember_number name₆ Json.ends_comma (Json.readNumber_intText _)),
    Json.readItems_comma (Json.readMember_number name₇ Json.ends_comma latency),
    Json.readItems_close (by decide) (by decide)
      (Json.readMember_number name₈ Json.ends_rbrace (Json.readNumber_intText _))]
  rfl

/-- **A plain event is read as it was logged.** -/
theorem parse_text (host : Json.Clean (decode ev.replicaId)) (path : Json.Clean (decode ev.path))
    (cacheKey : Json.Clean (decode ev.cacheKey)) (result : Json.Clean (decode ev.result)) :
    ∃ m e, Json.parse ev.text = some (.object (ev.members m e)) :=
  parse_spelled host path.spells cacheKey.spells result

/-- The names of the members are different. -/
theorem nodup_members (m e : ℤ) : ((ev.members m e).map Prod.fst).Nodup := by
  have names : (["timestamp", "replicaId", "path", "cacheKey", "result", "status", "latencyMs",
      "bytesServed"].map bytes).Nodup := by decide +kernel
  have injective : Function.Injective fun s : ByteString => s.map UInt8.toUInt16 :=
    List.map_injective_iff.mpr fun a b same => UInt8.toUInt16_inj.mp same
  have whole := List.Nodup.map injective names
  exact whole

/-- A member with a name of its own. -/
theorem once_of_mem {members : List (Json.Text × Json.Value)} {name : Json.Text} {v : Json.Value}
    (nodup : (members.map Prod.fst).Nodup) (mem : (name, v) ∈ members) : Json.Once members name v := by
  induction members with
  | nil => cases mem
  | cons m members ih =>
      rw [List.map_cons, List.nodup_cons] at nodup
      rcases List.mem_cons.mp mem with rfl | later
      · have others : members.filter (fun m => m.1 = name) = [] :=
          List.filter_eq_nil_iff.mpr fun m mem same => nodup.1
            (List.mem_map.mpr ⟨m, mem, of_decide_eq_true same⟩)
        rw [Json.Once, List.filter_cons_of_pos (by simp), others]
      · have other : m.1 ≠ name := fun same => nodup.1 (List.mem_map.mpr ⟨_, later, same.symm⟩)
        rw [Json.Once, List.filter_cons_of_neg (by simpa using other)]
        exact ih nodup.2 later

/-- **An event of a replica with a plain name is read as it was logged exactly if its path and its
cache key are plain.** -/
theorem logged_iff_plain (host : Plain ev.replicaId) (result : Plain ev.result) :
    ev.Logged ↔ Plain ev.path ∧ Plain ev.cacheKey := by
  rw [Logged, decode_payload]
  constructor
  · rintro ⟨members, parsed, decodes⟩
    have starts : Json.Starts (jsText "cacheKey") ∧ Json.Starts (jsText "result") := by
      decide +kernel
    have apart : [jsText "timestamp", jsText "replicaId", jsText "path", jsText "cacheKey"].Nodup :=
      (ev.nodup_members 0 0).sublist (List.sublist_append_left _ _)
    have clean := Json.clean_of_parse
      ⟨clean_names _ (by decide), clean_names _ (by decide), clean_names _ (by decide),
        clean_names _ (by decide)⟩
      apart starts (Json.readNumber_intText _) host.clean parsed
      ⟨decodes.path.2, decodes.cacheKey.2⟩
    exact ⟨⟨decodes.path.1, clean_decode_iff.mp clean.1⟩,
      decodes.cacheKey.1, clean_decode_iff.mp clean.2⟩
  · rintro ⟨path, cacheKey⟩
    obtain ⟨m, e, parsed⟩ := parse_text host.clean path.clean cacheKey.clean result.clean
    have nodup := ev.nodup_members m e
    exact
      ⟨_, parsed,
        { timestamp := once_of_mem nodup (List.mem_of_getElem? (i := 0) rfl)
          replicaId := ⟨host.1, once_of_mem nodup (List.mem_of_getElem? (i := 1) rfl)⟩
          path := ⟨path.1, once_of_mem nodup (List.mem_of_getElem? (i := 2) rfl)⟩
          cacheKey := ⟨cacheKey.1, once_of_mem nodup (List.mem_of_getElem? (i := 3) rfl)⟩
          result := ⟨result.1, once_of_mem nodup (List.mem_of_getElem? (i := 4) rfl)⟩
          status := once_of_mem nodup (List.mem_of_getElem? (i := 5) rfl)
          bytesServed := once_of_mem nodup (List.mem_of_getElem? (i := 7) rfl) }⟩

end AccessLogEvent

/-! ## The mark of every answer -/

section Marks

variable {ι : Type} {D : Deployment ι}

/-- What `decorate` is called with. -/
def marks : List ByteString := [bytes "HIT", bytes "STALE", bytes "MISS", bytes "PASS"]

/-- The response carries one of the marks. -/
def Marked (resp : HttpResponse) : Prop :=
  ∃ mark ∈ marks, resp.headers.find? (bytes "X-Cache") = some mark

theorem marked_decorate {id xcache reason : ByteString} {resp : HttpResponse}
    (mem : xcache ∈ marks) : Marked (decorate id resp xcache reason) := by
  refine ⟨xcache, mem, ?_⟩
  rw [find?_decorate, if_neg (fun same => absurd same.2 (by decide)), if_neg (by decide),
    if_pos rfl]

theorem marked_l2Response (id : ByteString) (e : CacheEntry) : Marked (l2Response id e) := by
  obtain ⟨mark, mem, found⟩ := @marked_decorate id (bytes "HIT") (bytes "l2")
    (e.toResponse.setHeader (bytes "Age") (bytes "0")) (by decide)
  refine ⟨mark, mem, ?_⟩
  rw [l2Response, HttpResponse.setHeader, Headers.find?_insert_of_ne _ _ (by decide), found]

theorem marked_failureResponse {th : Thread ι} {lead : Lead} {rejected : Bool}
    (role : ∀ m, lead ≠ .revalidate m) : Marked (D.failureResponse th lead rejected) := by
  match lead with
  | .pass => exact marked_decorate (by decide)
  | .miss _ now (some cached) =>
      rw [Deployment.failureResponse]
      split
      · exact marked_decorate (by decide)
      · exact marked_decorate (by decide)
  | .miss _ _ none => exact marked_decorate (by decide)
  | .revalidate m => exact absurd rfl (role m)

theorem marked_fetchedResponse {th : Thread ι} {lead : Lead} {resp : HttpResponse}
    (role : ∀ m, lead ≠ .revalidate m) : Marked (D.fetchedResponse th lead resp) := by
  cases lead with
  | pass => exact marked_decorate (by decide)
  | miss m now cached => exact marked_decorate (by decide)
  | revalidate m => exact absurd rfl (role m)

/-- The statement about the answers alone. -/
def decorated (ι : Type) : Labels ι where
  Entry _ _ _ := True
  Blob _ _ := True
  Own _ _ _ _ := True
  Slot _ _ _ _ _ := True
  Answer _ _ _ resp _ := Marked resp

/-- **Every answer is decorated.** -/
theorem decorated_closed [DecidableEq ι] {guard : State ι → Action ι → Prop} {start final : State ι} :
    (decorated ι).Closed D guard start final where
  hit _ _ _ _ := marked_decorate (by decide)
  stale _ _ := marked_decorate (by decide)
  decoded _ _ _ _ _ _ :=
    ⟨trivial, fun _ _ => Labels.published_of_slot trivial fun _ => marked_l2Response _ _⟩
  fetched _ _ _ _ := trivial
  pass _ _ := marked_fetchedResponse (by simp)
  passFailure _ _ := marked_failureResponse (by simp)
  failure _ _ _ _ := Labels.published_of_slot trivial marked_failureResponse
  success _ _ _ _ _ _ := Labels.published_of_slot trivial marked_fetchedResponse
  entry _ _ _ _ _ := trivial
  encoded _ _ _ _ := trivial
  placeholder _ _ _ _ := trivial
  coalesced _ _ _ _ := marked_decorate (by decide)
  waiterEntry _ _ _ _ _ _ := trivial

/-- The letters, digits, dots and dashes of a host name. -/
def IsHostName (s : ByteString) : Prop :=
  ∀ b ∈ s, isdigit b = true ∨ (65 ≤ b ∧ b ≤ 90) ∨ (97 ≤ b ∧ b ≤ 122) ∨ b = 45 ∨ b = 46

instance (s : ByteString) : Decidable (IsHostName s) :=
  inferInstanceAs (Decidable (∀ b ∈ s,
    isdigit b = true ∨ (65 ≤ b ∧ b ≤ 90) ∨ (97 ≤ b ∧ b ≤ 122) ∨ b = 45 ∨ b = 46))

theorem IsHostName.plain {s : ByteString} (name : IsHostName s) : Plain s := by
  have each : ∀ b : UInt8, isdigit b = true ∨ (65 ≤ b ∧ b ≤ 90) ∨ (97 ≤ b ∧ b ≤ 122) ∨ b = 45 ∨
      b = 46 → b < 0x80 ∧ b ≠ 34 ∧ b ≠ 92 ∧ 32 ≤ b := by decide +kernel
  exact ⟨encode_decode_of_ascii fun b mem => (each b (name b mem)).1,
    fun b mem => (each b (name b mem)).2⟩

variable [DecidableEq ι] {clock : ℕ} {acts : List (Action ι)} {s : State ι} {t : ℕ} {i : ι}
  {req : HttpRequest} {resp : HttpResponse} {hit : Option ℤ}

/-- The result of an answer is plain. -/
theorem plain_result (ran : run D.step (D.initial clock) acts = some s)
    (answered : .answered t i req resp hit ∈ s.trace) (timestampMs : Int64) (latencyMs : Latency) :
    Plain (accessLogEvent D i req resp timestampMs latencyMs).result := by
  have steps := Steps.of_run (meets_true D.step (D.initial clock) acts) ran
  have flow := flow_of_run decorated_closed steps
  obtain ⟨mark, mem, found⟩ : Marked resp := flow.answers t i req resp hit answered
  have lowered : ∀ mark ∈ marks, Plain (lower mark) := by decide +kernel
  show Plain (lower ((resp.headers.find? (bytes "X-Cache")).getD (bytes "unknown")))
  rw [found]
  exact lowered mark mem

/-- **The consumer reads the event of an answer as it was logged exactly if the path and the cache
key of the request are valid UTF-8 without quotation marks, backslashes and control characters.** -/
theorem logged_iff (ran : run D.step (D.initial clock) acts = some s)
    (answered : .answered t i req resp hit ∈ s.trace) (host : IsHostName (D.replicaId i))
    (timestampMs : Int64) (latencyMs : Latency) :
    (accessLogEvent D i req resp timestampMs latencyMs).Logged ↔
      Plain req.path ∧ Plain (D.key req) :=
  AccessLogEvent.logged_iff_plain host.plain (plain_result ran answered timestampMs latencyMs)

end Marks

/-- A `GET` that is answered. -/
def answeredGet (path query : ByteString) : List (Action Unit) :=
  .start 0 () (plainGet path query) :: steps 11 0 (okInput (bytes "ETag") (bytes "1") (bytes "x"))

/-- Whether it is. -/
def isAnswered (path query : ByteString) (s : State Unit) : Bool :=
  s.trace.any fun
    | .answered _ _ req _ _ => req = plainGet path query
    | _ => false

theorem exists_answered {path query : ByteString} {s : State Unit}
    (passed : isAnswered path query s = true) :
    ∃ t i resp hit, .answered t i (plainGet path query) resp hit ∈ s.trace := by
  obtain ⟨e, mem, matched⟩ := List.any_eq_true.mp passed
  cases e with
  | answered t i req resp hit =>
      have same : req = plainGet path query := of_decide_eq_true matched
      exact ⟨t, i, resp, hit, same ▸ mem⟩
  | _ => cases matched

/-- A millisecond and a half. -/
def shortLatency : Latency where
  text := bytes "1.5"
  number := ⟨(15, -1), by decide +kernel⟩

/-- The path and the query are not ASCII, and the event is read as it was logged. -/
theorem logged_accented :
    ∃ path query s, ¬ Ascii path ∧ ¬ Ascii query ∧
      run soloDeployment.step (soloDeployment.initial 0) (answeredGet path query) = some s ∧
      ∃ t i resp hit, .answered t i (plainGet path query) resp hit ∈ s.trace ∧
        (accessLogEvent soloDeployment i (plainGet path query) resp 0 shortLatency).Logged := by
  obtain ⟨s, ran, passed⟩ := exists_of_run
    (show (run soloDeployment.step (soloDeployment.initial 0)
      (answeredGet [47, 0xC3, 0xA9] [0xE2, 0x82, 0xAC])).any
      (isAnswered [47, 0xC3, 0xA9] [0xE2, 0x82, 0xAC]) = true by decide +kernel)
  obtain ⟨t, i, resp, hit, answered⟩ := exists_answered passed
  have host : IsHostName (bytes "r1") := by decide +kernel
  exact ⟨_, _, s, by decide +kernel, by decide +kernel, ran, t, i, resp, hit, answered,
    (logged_iff ran answered host 0 shortLatency).mpr ⟨by decide +kernel, by decide +kernel⟩⟩

/-- **A quotation mark in the path breaks the event**: the request is accepted and answered, and the
consumer does not read what was logged. -/
theorem not_logged_quoted :
    parse (bytes "GET /a\"b HTTP/1.1\r\n\r\n") = .complete (plainGet (bytes "/a\"b") []) [] ∧
      Valid (bytes "/a\"b") ∧ IsHostName (soloDeployment.replicaId ()) ∧
      ∃ s, run soloDeployment.step (soloDeployment.initial 0) (answeredGet (bytes "/a\"b") []) =
          some s ∧
        ∃ t i resp hit, .answered t i (plainGet (bytes "/a\"b") []) resp hit ∈ s.trace ∧
          ∀ timestampMs latencyMs, ¬ (accessLogEvent soloDeployment i
            (plainGet (bytes "/a\"b") []) resp timestampMs latencyMs).Logged := by
  obtain ⟨s, ran, passed⟩ := exists_of_run
    (show (run soloDeployment.step (soloDeployment.initial 0) (answeredGet (bytes "/a\"b") [])).any
      (isAnswered (bytes "/a\"b") []) = true by decide +kernel)
  obtain ⟨t, i, resp, hit, answered⟩ := exists_answered passed
  have host : IsHostName (bytes "r1") := by decide +kernel
  refine ⟨by decide +kernel, by decide +kernel, host, s, ran, t, i, resp, hit, answered,
    fun timestampMs latencyMs logged => ?_⟩
  have quoted : Plain (bytes "/a\"b") := ((AccessLogEvent.logged_iff_plain host.plain
    (plain_result ran answered timestampMs latencyMs)).mp logged).1
  exact absurd quoted (by decide +kernel)

end EdgeCache

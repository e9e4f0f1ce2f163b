import EdgeCache.PatternMatchers

/-!
# The bodies of the control plane's requests

`express.json` hands the routes a JavaScript value, and each route checks it with a schema of its
own.  A schema takes what is under a key of the body, which may be nothing, and answers the field it
makes of it.

Three things stay apart that `??` and SQL merge later (`UpdateRuleBody.presence`): a key that is
absent, a key that is `null`, and a key with a value.
-/

namespace EdgeCache

/-- A string literal of the control plane. -/
def literal (s : String) : JsString := (bytes s).map unit

/-- A value as `JSON.parse` makes it.  Numbers are doubles; one that overflows is infinite. -/
inductive JsValue
  | null
  | bool (b : Bool)
  | number (q : ℚ)
  | infinite
  | string (s : JsString)
  | array (elements : List JsValue)
  | object (members : List (JsString × JsValue))

/-- The value of a member; the last one counts where a name repeats. -/
def JsValue.member (name : String) : JsValue → Option JsValue
  | .object members => (members.reverse.find? fun m => m.1 = literal name).map Prod.snd
  | _ => none

/-! ## Schemas -/

/-- What a schema makes of a value, or of `undefined`; `none` where it finds an issue. -/
abbrev Schema (α : Type) := Option JsValue → Option α

namespace Schema

variable {α : Type}

/-- `z.string().min(least)`. -/
def string (least : ℕ) : Schema JsString
  | some (.string s) => if least ≤ s.length then some s else none
  | _ => none

/-- `z.number().int().min(0)`. -/
def count : Schema ℕ
  | some (.number q) => if q.den = 1 ∧ 0 ≤ q.num then some q.num.toNat else none
  | _ => none

/-- A hexadecimal digit, in either case. -/
def isHex (u : UInt16) : Bool :=
  (48 ≤ u && u ≤ 57) || (97 ≤ u && u ≤ 102) || (65 ≤ u && u ≤ 70)

/-- Groups of hexadecimal digits of the given lengths, with hyphens between them. -/
def isHexGroups : List ℕ → JsString → Bool
  | [], s => s.isEmpty
  | [n], s => s.length == n && s.all isHex
  | n :: more, s =>
      (s.take n).length == n && (s.take n).all isHex && (s.drop n).head? == some (unit 45) &&
        isHexGroups more (s.drop (n + 1))

/-- `z.string().uuid()`. -/
def uuid : Schema JsString
  | some (.string s) => if isHexGroups [8, 4, 4, 4, 12] s then some s else none
  | _ => none

/-- `z.string().url()`, for what the constructor of `URL` takes. -/
def url (isUrl : JsString → Bool) : Schema JsString
  | some (.string s) => if isUrl s then some s else none
  | _ => none

/-- `.nullable()`. -/
def nullable (schema : Schema α) : Schema (Option α)
  | some .null => some none
  | v => (schema v).map some

/-- `.optional()`. -/
def optional (schema : Schema α) : Schema (Option α)
  | none => some none
  | v => (schema v).map some

/-- `.default(a)`. -/
def withDefault (schema : Schema α) (a : α) : Schema α
  | none => some a
  | v => schema v

/-- A field is left out exactly where its key is absent. -/
theorem optional_eq_none_iff {schema : Schema α} {v : Option JsValue} {field : Option α}
    (read : optional schema v = some field) : field = none ↔ v = none := by
  cases v with
  | none =>
      cases read
      exact iff_of_true rfl rfl
  | some value =>
      simp only [optional, Option.map_eq_some_iff] at read
      obtain ⟨a, -, rfl⟩ := read
      simp

/-- A field is `null` exactly where its key is. -/
theorem optional_nullable_eq_null_iff {schema : Schema α} {v : Option JsValue}
    {field : Option (Option α)} (read : optional (nullable schema) v = some field) :
    field = some none ↔ v = some .null := by
  cases v with
  | none =>
      cases read
      simp
  | some value =>
      simp only [optional, Option.map_eq_some_iff] at read
      obtain ⟨a, read, rfl⟩ := read
      unfold nullable at read
      split at read
      · rename_i here
        cases read
        simp [here]
      · rename_i other
        rw [Option.map_eq_some_iff] at read
        obtain ⟨b, -, rfl⟩ := read
        simpa using other

/-- `z.object`: the value is an object, and its fields come out of `fields`. -/
def object (body : JsValue) (fields : Option α) : Option α :=
  match body with
  | .object _ => fields
  | _ => none

end Schema

/-! ## The bodies -/

/-- `CreateOrigin`. -/
structure CreateOriginBody where
  host : JsString
  baseUrl : JsString
  healthCheckPath : JsString

/-- `CreateRule`. -/
structure CreateRuleBody where
  pathPattern : JsString
  ttlSeconds : ℕ
  originId : Option (Option JsString)
  staleWhileRevalidateSeconds : ℕ

/-- `UpdateRule`: a field is `none` where its key is absent, and the origin is `some none` where it
is `null`. -/
structure UpdateRuleBody where
  pathPattern : Option JsString
  ttlSeconds : Option ℕ
  originId : Option (Option JsString)
  staleWhileRevalidateSeconds : Option ℕ
  deriving DecidableEq

/-- `PurgeBody`. -/
structure PurgeBody where
  pattern : JsString

open Schema

/-- `CreateOrigin.safeParse`. -/
def CreateOriginBody.safeParse (isUrl : JsString → Bool) (body : JsValue) :
    Option CreateOriginBody :=
  object body <| do
    let host ← string 1 (body.member "host")
    let baseUrl ← url isUrl (body.member "baseUrl")
    let healthCheckPath ← withDefault (string 0) (literal "/") (body.member "healthCheckPath")
    return ⟨host, baseUrl, healthCheckPath⟩

/-- `CreateRule.safeParse`. -/
def CreateRuleBody.safeParse (body : JsValue) : Option CreateRuleBody :=
  object body <| do
    let pathPattern ← string 1 (body.member "pathPattern")
    let ttlSeconds ← count (body.member "ttlSeconds")
    let originId ← optional (nullable uuid) (body.member "originId")
    let staleWhileRevalidateSeconds ←
      withDefault count 0 (body.member "staleWhileRevalidateSeconds")
    return ⟨pathPattern, ttlSeconds, originId, staleWhileRevalidateSeconds⟩

/-- `UpdateRule.safeParse`. -/
def UpdateRuleBody.safeParse (body : JsValue) : Option UpdateRuleBody :=
  object body <| do
    let pathPattern ← optional (string 1) (body.member "pathPattern")
    let ttlSeconds ← optional count (body.member "ttlSeconds")
    let originId ← optional (nullable uuid) (body.member "originId")
    let staleWhileRevalidateSeconds ←
      optional count (body.member "staleWhileRevalidateSeconds")
    return ⟨pathPattern, ttlSeconds, originId, staleWhileRevalidateSeconds⟩

/-- `PurgeBody.safeParse`. -/
def PurgeBody.safeParse (body : JsValue) : Option PurgeBody :=
  object body <| do
    let pattern ← string 1 (body.member "pattern")
    return ⟨pattern⟩

/-- What `UpdateRule` accepts, field by field. -/
theorem UpdateRuleBody.safeParse_eq_some {body : JsValue} {patch : UpdateRuleBody}
    (accepted : UpdateRuleBody.safeParse body = some patch) :
    optional (string 1) (body.member "pathPattern") = some patch.pathPattern ∧
      optional count (body.member "ttlSeconds") = some patch.ttlSeconds ∧
      optional (nullable uuid) (body.member "originId") = some patch.originId ∧
      optional count (body.member "staleWhileRevalidateSeconds") =
        some patch.staleWhileRevalidateSeconds := by
  unfold UpdateRuleBody.safeParse object at accepted
  split at accepted
  · simp only [bind, Option.bind_eq_some_iff] at accepted
    obtain ⟨pathPattern, first, ttlSeconds, second, originId, third, stale, fourth, same⟩ :=
      accepted
    cases same
    exact ⟨first, second, third, fourth⟩
  · cases accepted

/-- A string that has to have a unit has one. -/
theorem Schema.ne_nil_of_string {v : Option JsValue} {s : JsString} (read : string 1 v = some s) :
    s ≠ [] := by
  unfold string at read
  split at read
  · split at read
    · rename_i long
      cases read
      exact List.ne_nil_of_length_pos long
    · cases read
  · cases read

/-- What `CreateOrigin` accepts has a host. -/
theorem CreateOriginBody.host_ne_nil {isUrl : JsString → Bool} {body : JsValue}
    {data : CreateOriginBody} (accepted : CreateOriginBody.safeParse isUrl body = some data) :
    data.host ≠ [] := by
  unfold CreateOriginBody.safeParse object at accepted
  split at accepted
  · simp only [bind, Option.bind_eq_some_iff] at accepted
    obtain ⟨host, read, baseUrl, -, healthCheckPath, -, same⟩ := accepted
    cases same
    exact ne_nil_of_string read
  · cases accepted

/-- What `CreateRule` accepts has a pattern. -/
theorem CreateRuleBody.pathPattern_ne_nil {body : JsValue} {data : CreateRuleBody}
    (accepted : CreateRuleBody.safeParse body = some data) : data.pathPattern ≠ [] := by
  unfold CreateRuleBody.safeParse object at accepted
  split at accepted
  · simp only [bind, Option.bind_eq_some_iff] at accepted
    obtain ⟨pathPattern, read, ttlSeconds, -, originId, -, stale, -, same⟩ := accepted
    cases same
    exact ne_nil_of_string read
  · cases accepted

/-- What `PurgeBody` accepts has a pattern. -/
theorem PurgeBody.pattern_ne_nil {body : JsValue} {data : PurgeBody}
    (accepted : PurgeBody.safeParse body = some data) : data.pattern ≠ [] := by
  unfold PurgeBody.safeParse object at accepted
  split at accepted
  · simp only [bind, Option.bind_eq_some_iff] at accepted
    obtain ⟨pattern, read, same⟩ := accepted
    cases same
    exact ne_nil_of_string read
  · cases accepted

/-- What `UpdateRule` accepts takes no pattern away. -/
theorem UpdateRuleBody.pathPattern_ne_nil {body : JsValue} {patch : UpdateRuleBody}
    (accepted : UpdateRuleBody.safeParse body = some patch) : patch.pathPattern ≠ some [] := by
  obtain ⟨read, -⟩ := UpdateRuleBody.safeParse_eq_some accepted
  intro empty
  rw [empty] at read
  cases here : body.member "pathPattern" with
  | none =>
      rw [here] at read
      cases read
  | some v =>
      rw [here] at read
      obtain ⟨s, read, same⟩ := Option.map_eq_some_iff.mp read
      cases same
      exact ne_nil_of_string read rfl

/-- **Absent, `null` and present stay apart**: a field of the body is left out exactly where its key
is absent, and the origin is `null` exactly where its key is. -/
theorem UpdateRuleBody.presence {body : JsValue} {patch : UpdateRuleBody}
    (accepted : UpdateRuleBody.safeParse body = some patch) :
    (patch.pathPattern = none ↔ body.member "pathPattern" = none) ∧
      (patch.ttlSeconds = none ↔ body.member "ttlSeconds" = none) ∧
      (patch.originId = none ↔ body.member "originId" = none) ∧
      (patch.originId = some none ↔ body.member "originId" = some .null) ∧
      (patch.staleWhileRevalidateSeconds = none ↔
        body.member "staleWhileRevalidateSeconds" = none) := by
  obtain ⟨first, second, third, fourth⟩ := UpdateRuleBody.safeParse_eq_some accepted
  exact ⟨optional_eq_none_iff first, optional_eq_none_iff second, optional_eq_none_iff third,
    optional_nullable_eq_null_iff third, optional_eq_none_iff fourth⟩

/-- `null` and nothing are different bodies. -/
example :
    UpdateRuleBody.safeParse (.object [(literal "originId", .null)]) =
        some ⟨none, none, some none, none⟩ ∧
      UpdateRuleBody.safeParse (.object []) = some ⟨none, none, none, none⟩ := by
  decide +kernel

end EdgeCache

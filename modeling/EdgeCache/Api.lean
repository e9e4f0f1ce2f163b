import EdgeCache.Lib.Async
import EdgeCache.RequestBodies
import EdgeCache.RuleMirror

/-!
# The API of the control plane

`buildApp` puts the routers behind `express.json` and the check of the admin key.  A handler is an
async function over the calls that the repositories make to Postgres and `RedisCoordinator` to
Redis.  It ends with a response, which it writes itself; the promise it returned is nobody's.

`Serves` is what Express does with a request: an error that is thrown while the handler is called,
or passed to `next`, goes to the error handler, and a promise that is rejected later goes nowhere.
-/

namespace EdgeCache.ControlPlane

open Utf8

/-! ## What the database returns -/

/-- An error, by its message. -/
abbrev JsError := JsString

/-- `Origin`. -/
structure Origin where
  id : Uuid
  host : JsString
  baseUrl : JsString
  healthCheckPath : JsString

/-- `Rule`. -/
structure Rule where
  id : Uuid
  pathPattern : JsString
  ttlSeconds : Int32
  staleWhileRevalidateSeconds : Int32
  originId : Option Uuid
  deriving DecidableEq

/-- `mapRow` of a row of `cache_rules`, whose text the driver decodes. -/
def mapRow (row : RuleRow) : Rule where
  id := row.id
  pathPattern := decode row.pathPattern
  ttlSeconds := row.ttlSeconds
  staleWhileRevalidateSeconds := row.staleWhileRevalidateSeconds
  originId := row.originId

/-- `PurgeLogEntry`. -/
structure PurgeLogEntry where
  id : Uuid
  pattern : JsString
  requestedBy : JsString

/-- A `TIMESTAMPTZ`, in microseconds; the infinities are the ends of the 64-bit range, as Postgres
keeps them. -/
abbrev Timestamp := ℤ

/-- A row of `access_stats_rollup`; the driver returns a `BIGINT` as its text. -/
structure StatRecord where
  path : ByteString
  dateHour : Timestamp
  hits : Int64
  misses : Int64
  bytesServed : Int64
  deriving DecidableEq

/-- `StatRow`. -/
structure StatRow where
  path : JsString
  dateHour : Timestamp
  hits : ℤ
  misses : ℤ
  bytesServed : ℤ

/-- The result of `summary`; the quotient is not yet rounded. -/
structure Summary where
  hits : ℤ
  misses : ℤ
  bytesServed : ℤ
  hitRate : ℚ

/-! ## What the database takes -/

/-- An `INT` parameter. -/
def intIn (n : ℕ) : Option Int32 := if n < 2 ^ 31 then some (Int32.ofNat n) else none

/-- A `TEXT` parameter, as the driver encodes it; Postgres takes no zero bytes. -/
def textIn (s : JsString) : Option ByteString := if 0 ∈ s then none else some (encode s)

theorem eq_encode_of_textIn {s : JsString} {b : ByteString} (taken : textIn s = some b) :
    b = encode s := by
  unfold textIn at taken
  split at taken
  · cases taken
  · cases taken
    rfl

/-- A parameter that may be `null`. -/
def nullable {α β : Type} (input : α → Option β) : Option α → Option (Option β)
  | none => some none
  | some a => (input a).map some

/-! ## Calls -/

/-- What a clause of the statistics query compares. -/
inductive StatsTest
  /-- `path = $n`. -/
  | path
  /-- `date_hour >= $n`. -/
  | fromTime
  /-- `date_hour <= $n`. -/
  | toTime
  deriving DecidableEq

/-- The calls that a handler waits for. -/
inductive Call
  | insertOrigin (host baseUrl healthCheckPath : JsString)
  | listOrigins
  | insertRule (pathPattern : JsString) (ttlSeconds staleWhileRevalidateSeconds : ℕ)
      (originId : Option JsString)
  | listRules
  /-- Parameters that are `null` keep the column. -/
  | updateRule (id : JsString) (pathPattern : Option JsString)
      (ttlSeconds staleWhileRevalidateSeconds : Option ℕ) (originId : Option JsString)
  | deleteRule (id : JsString)
  | insertPurge (pattern requestedBy : JsString)
  | listPurges (limit : ℕ)
  /-- The clauses, each with the number of its parameter, and the parameters. -/
  | selectStats (clauses : List (StatsTest × ℕ)) (params : List JsString) (limit : ℕ)
  | hset (field value : JsString)
  | hdel (field : JsString)
  /-- `PUBLISH` of a change of the rules. -/
  | publishUpdate (message : JsString)
  /-- `PUBLISH` of a purge. -/
  | publishPurge (message : JsString)
  | scan (cursor : JsString)
  | del (keys : List JsString)

/-- What a call is answered with. -/
def Call.Reply : Call → Type
  | .insertOrigin _ _ _ => Origin
  | .listOrigins => List Origin
  | .insertRule _ _ _ _ => Rule
  | .listRules | .updateRule _ _ _ _ _ | .deleteRule _ => List Rule
  | .insertPurge _ _ => PurgeLogEntry
  | .listPurges _ => List PurgeLogEntry
  | .selectStats _ _ _ => List StatRecord
  | .hset _ _ | .hdel _ | .publishUpdate _ => Unit
  | .publishPurge _ | .del _ => ℕ
  | .scan _ => JsString × List JsString

/-! ## Responses -/

/-- The JSON body of a response. -/
inductive ApiBody
  | error (error : ByteString)
  | internalError (message : JsString)
  | origin (origin : Origin)
  | origins (origins : List Origin)
  | rule (rule : Rule)
  | rules (rules : List Rule)
  | purged (pattern : JsString) (auditId : Uuid) (subscribersNotified l2KeysEvicted : ℕ)
  | purges (entries : List PurgeLogEntry)
  | stats (summary : Summary) (rows : List StatRow)

/-- A response. -/
structure ApiResponse where
  status : ℕ
  body : ApiBody

/-- An async function of the control plane. -/
abbrev Op := Async JsError Call.Reply ApiResponse

/-- Wait for a call. -/
def await (c : Call) : Op c.Reply := Async.call c

/-- `res.status(status).json(body)`. -/
def json (status : ℕ) (body : ApiBody) : Op Unit := Async.write ⟨status, body⟩

/-! ## Repositories -/

/-- `OriginsRepo.create`. -/
def OriginsRepo.create (input : CreateOriginBody) : Op Origin :=
  await (.insertOrigin input.host input.baseUrl input.healthCheckPath)

/-- `OriginsRepo.list`. -/
def OriginsRepo.list : Op (List Origin) := await .listOrigins

/-- `RulesRepo.create`, of the body with `originId ?? null`. -/
def RulesRepo.create (input : CreateRuleBody) : Op Rule :=
  await (.insertRule input.pathPattern input.ttlSeconds input.staleWhileRevalidateSeconds
    input.originId.join)

/-- `RulesRepo.list`. -/
def RulesRepo.list : Op (List Rule) := await .listRules

/-- `RulesRepo.update`: every parameter is `?? null`. -/
def RulesRepo.update (id : JsString) (patch : UpdateRuleBody) : Op (Option Rule) := do
  let rows : List Rule ← await (.updateRule id patch.pathPattern patch.ttlSeconds
    patch.staleWhileRevalidateSeconds patch.originId.join)
  return rows.head?

/-- `RulesRepo.remove`. -/
def RulesRepo.remove (id : JsString) : Op (Option Rule) := do
  let rows : List Rule ← await (.deleteRule id)
  return rows.head?

/-- `PurgeRepo.log`. -/
def PurgeRepo.log (pattern requestedBy : JsString) : Op PurgeLogEntry :=
  await (.insertPurge pattern requestedBy)

/-- `PurgeRepo.recent`. -/
def PurgeRepo.recent : Op (List PurgeLogEntry) := await (.listPurges 50)

/-! ### Statistics -/

/-- `StatsQuery`. -/
structure StatsQuery where
  path : Option JsString
  fromTime : Option JsString
  toTime : Option JsString

/-- The double nearest to an integer. -/
def toDouble (n : ℤ) : ℤ :=
  if n.natAbs ≤ 2 ^ 53 then n
  else
    let ulp := 2 ^ (n.natAbs.log2 - 52)
    let down := n.natAbs / ulp
    let rest := n.natAbs % ulp
    let up := ulp < 2 * rest ∨ (ulp = 2 * rest ∧ down % 2 = 1)
    n.sign * ((if up then down + 1 else down) * ulp : ℕ)

namespace StatsRepo

/-- Push a parameter that is there and not empty, and a clause with its number. -/
def push (test : StatsTest) (value : Option JsString)
    (sql : List (StatsTest × ℕ) × List JsString) : List (StatsTest × ℕ) × List JsString :=
  match value with
  | none => sql
  | some v => if v = [] then sql else (sql.1 ++ [(test, sql.2.length + 1)], sql.2 ++ [v])

/-- The clauses of `query`, and their parameters. -/
def clauses (q : StatsQuery) : List (StatsTest × ℕ) × List JsString :=
  push .toTime q.toTime (push .fromTime q.fromTime (push .path q.path ([], [])))

/-- The query of `query`. -/
def select (q : StatsQuery) : Call := .selectStats (clauses q).1 (clauses q).2 1000

/-- `query` makes numbers of the `BIGINT`s. -/
def statRow (r : StatRecord) : StatRow where
  path := decode r.path
  dateHour := r.dateHour
  hits := toDouble r.hits.toInt
  misses := toDouble r.misses.toInt
  bytesServed := toDouble r.bytesServed.toInt

/-- `rows.reduce((a, r) => a + …, 0)`. -/
def total (column : StatRow → ℤ) (rows : List StatRow) : ℤ :=
  rows.foldl (fun a r => toDouble (a + column r)) 0

/-- The totals of `summary`. -/
def summarise (rows : List StatRow) : Summary :=
  let hits := total StatRow.hits rows
  let misses := total StatRow.misses rows
  { hits := hits
    misses := misses
    bytesServed := total StatRow.bytesServed rows
    hitRate := if toDouble (hits + misses) = 0 then 0 else hits / toDouble (hits + misses) }

/-- `StatsRepo.query`. -/
def query (q : StatsQuery) : Op (List StatRow) := do
  let rows : List StatRecord ← await (select q)
  return rows.map statRow

/-- `StatsRepo.summary`. -/
def summary (q : StatsQuery) : Op Summary := do
  let rows ← query q
  return summarise rows

end StatsRepo

/-! ## Redis -/

/-- The configuration, as far as the routes use it. -/
structure Config where
  adminApiKey : JsString
  l2KeyPrefix : JsString

namespace RedisCoordinator

/-- `ruleValue`. -/
def ruleValue (rule : Rule) : JsString :=
  (bytes "\x7b\"ttl\":" ++ intToString rule.ttlSeconds.toInt ++
    bytes ",\"swr\":" ++ intToString rule.staleWhileRevalidateSeconds.toInt ++
    bytes ",\"originId\":\"" ++ (rule.originId.map Uuid.text).getD [] ++ bytes "\"\x7d").map unit

/-- `upsertRule`. -/
def upsertRule (rule : Rule) : Op Unit := do
  let _ ← await (.hset rule.pathPattern (ruleValue rule))
  let _ ← await (.publishUpdate rule.pathPattern)
  return ()

/-- `removeRule`. -/
def removeRule (pathPattern : JsString) : Op Unit := do
  let _ ← await (.hdel pathPattern)
  let _ ← await (.publishUpdate pathPattern)
  return ()

/-- `publishPurge`. -/
def publishPurge (pattern : JsString) : Op ℕ := await (.publishPurge pattern)

/-- The loop of `purgeL2` over the pages of `SCAN`.  It is cut off after `pages` of them; as long as
no run has got so far, that makes no difference. -/
def scanPages (cfg : Config) (pattern : JsString) : ℕ → JsString → ℕ → Op ℕ
  | 0, _, _ => .never
  | pages + 1, cursor, deleted => do
      let page : JsString × List JsString ← await (.scan cursor)
      let toDelete := page.2.filter fun k => l2PathMatches cfg.l2KeyPrefix k pattern
      let more : ℕ ← if toDelete = [] then pure 0 else await (.del toDelete)
      if page.1 = literal "0" then return deleted + more
      else scanPages cfg pattern pages page.1 (deleted + more)

/-- `purgeL2`. -/
def purgeL2 (cfg : Config) (pages : ℕ) (pattern : JsString) : Op ℕ :=
  scanPages cfg pattern pages (literal "0") 0

end RedisCoordinator

/-! ## Routes -/

/-- The answer to a body that does not fit its schema. -/
def invalidBody : Op Unit := json 400 (.error (bytes "invalid_body"))

/-- The answer where there is no row. -/
def notFound : Op Unit := json 404 (.error (bytes "not_found"))

namespace OriginsRouter

/-- `POST /origins`. -/
def post (isUrl : JsString → Bool) (body : JsValue) : Op Unit :=
  match CreateOriginBody.safeParse isUrl body with
  | none => invalidBody
  | some data => do
      let origin ← OriginsRepo.create data
      json 201 (.origin origin)

/-- `GET /origins`. -/
def get : Op Unit := do
  let origins ← OriginsRepo.list
  json 200 (.origins origins)

end OriginsRouter

namespace RulesRouter

/-- `POST /rules`. -/
def post (body : JsValue) : Op Unit :=
  match CreateRuleBody.safeParse body with
  | none => invalidBody
  | some data => do
      let rule ← RulesRepo.create data
      (RedisCoordinator.upsertRule rule).tryCatch fun _ => pure ()
      json 201 (.rule rule)

/-- `GET /rules`. -/
def get : Op Unit := do
  let rules ← RulesRepo.list
  json 200 (.rules rules)

/-- `PUT /rules/:id`. -/
def put (id : JsString) (body : JsValue) : Op Unit :=
  match UpdateRuleBody.safeParse body with
  | none => invalidBody
  | some data => do
      let updated ← RulesRepo.update id data
      match updated with
      | none => notFound
      | some rule =>
          (RedisCoordinator.upsertRule rule).tryCatch fun _ => pure ()
          json 200 (.rule rule)

/-- `DELETE /rules/:id`. -/
def delete (id : JsString) : Op Unit := do
  let removed ← RulesRepo.remove id
  match removed with
  | none => notFound
  | some rule =>
      (RedisCoordinator.removeRule rule.pathPattern).tryCatch fun _ => pure ()
      json 200 (.rule rule)

end RulesRouter

namespace PurgeRouter

/-- `POST /purge`. -/
def post (cfg : Config) (pages : ℕ) (actor ip : Option JsString) (body : JsValue) : Op Unit :=
  match PurgeBody.safeParse body with
  | none => invalidBody
  | some data => do
      let requestedBy := (actor.or ip).getD (literal "unknown")
      let entry ← PurgeRepo.log data.pattern requestedBy
      let l2Evicted ← (RedisCoordinator.purgeL2 cfg pages data.pattern).tryCatch fun _ => pure 0
      let subscribers ← RedisCoordinator.publishPurge data.pattern
      json 202 (.purged data.pattern entry.id subscribers l2Evicted)

/-- `GET /purge/log`. -/
def log : Op Unit := do
  let entries ← PurgeRepo.recent
  json 200 (.purges entries)

end PurgeRouter

/-- `GET /stats`: both queries are sent at once, for `query` and for `summary`. -/
def StatsRouter.get (path fromTime toTime : Option JsString) : Op Unit :=
  let q : StatsQuery :=
    { path := path.filter (· ≠ [])
      fromTime := fromTime.filter (· ≠ [])
      toTime := toTime.filter (· ≠ []) }
  .all (StatsRepo.select q) (StatsRepo.select q) fun reply => do
    let results ← Async.settle reply
    let rows : List StatRecord := results.1
    let all : List StatRecord := results.2
    json 200 (.stats (StatsRepo.summarise (all.map StatsRepo.statRow)) (rows.map StatsRepo.statRow))

/-! ## The application -/

/-- The routes behind the admin key. -/
inductive Endpoint
  | createOrigin
  | listOrigins
  | createRule
  | listRules
  | updateRule (id : JsString)
  | deleteRule (id : JsString)
  | purge
  | purgeLog
  | stats (path fromTime toTime : Option JsString)

/-- A request: what `express.json` makes of its body, the token of its `Authorization` header, its
`X-Actor` header, its address, and its route. -/
structure ApiRequest where
  body : Except JsError JsValue
  token : Option JsString
  actor : Option JsString
  ip : Option JsString
  endpoint : Endpoint

/-- The handler of a route. -/
def handler (cfg : Config) (isUrl : JsString → Bool) (pages : ℕ) (req : ApiRequest)
    (body : JsValue) : Op Unit :=
  match req.endpoint with
  | .createOrigin => OriginsRouter.post isUrl body
  | .listOrigins => OriginsRouter.get
  | .createRule => RulesRouter.post body
  | .listRules => RulesRouter.get
  | .updateRule id => RulesRouter.put id body
  | .deleteRule id => RulesRouter.delete id
  | .purge => PurgeRouter.post cfg pages req.actor req.ip body
  | .purgeLog => PurgeRouter.log
  | .stats path fromTime toTime => StatsRouter.get path fromTime toTime

/-- `buildApp`: the error a middleware passes on, or what the middleware and the handler do. -/
def buildApp (cfg : Config) (isUrl : JsString → Bool) (pages : ℕ) (req : ApiRequest) :
    Except JsError (Op Unit) := do
  let body ← req.body
  match req.token with
  | none => return json 401 (.error (bytes "unauthorized"))
  | some token =>
      if token = [] ∨ token ≠ cfg.adminApiKey then
        return json 401 (.error (bytes "unauthorized"))
      else return handler cfg isUrl pages req body

/-- The error handler. -/
def errorHandler (e : JsError) : ApiResponse := ⟨500, .internalError e⟩

/-- What becomes of a request: the responses that the client gets, and a rejection that nobody
handles. -/
structure Exchange where
  responses : List ApiResponse
  unhandled : Option JsError

/-- The reason of a promise that nobody looks at. -/
def unhandledOf : Async.Promise JsError Unit → Option JsError
  | .rejected e => some e
  | _ => none

/-- **Express 4.** -/
inductive Serves :
    Except JsError (Op Unit) → List (Async.Reply JsError Call.Reply) → Exchange → Prop
  | failed (e : JsError) : Serves (.error e) [] ⟨[errorHandler e], none⟩
  | called {x : Op Unit} {replies : List (Async.Reply JsError Call.Reply)} {out : List ApiResponse}
      {p : Async.Promise JsError Unit} (run : x.Run replies out p) :
      Serves (.ok x) replies ⟨out, unhandledOf p⟩

end EdgeCache.ControlPlane

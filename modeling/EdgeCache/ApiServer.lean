import EdgeCache.Lib.Services
import EdgeCache.RuleReloads
import EdgeCache.RuleUpdates
import EdgeCache.StatsTotals

/-!
# The control plane at work

The process serves any number of requests at a time.  Their handlers share Postgres and Redis, each
call of either may fail, executed or not, and in the meantime the proxies change what Redis holds
and a second control plane that starts copies the rules once more.

The comments of the source promise an order: Postgres first, so that the proxies never see a rule
that was not durable, and the audit entry first, so that every purge leaves a trace.

* `serve_safe` — **every request keeps the order**, whatever the others do: what it sends has been
  written down before, and what it answers has come true.
* `durable_of_reaches` — whatever a proxy reads from Redis at any time is the rule of a row that was
  in Postgres.
* `audited_of_reaches` — every purge that was published, and every key that was deleted for one, has
  its entry in the log.
* `truthful_of_reaches` — every success that was answered is one.
* `locked_of_reaches` — without the key nothing is called, and nobody succeeds.
-/

namespace EdgeCache.ControlPlane

open Utf8 Async

/-! ## Postgres and Redis -/

/-- A row of `origins`. -/
structure OriginRow where
  id : Uuid
  host : ByteString
  baseUrl : ByteString
  healthCheckPath : ByteString

/-- `mapRow` of a row of `origins`. -/
def OriginRow.origin (row : OriginRow) : Origin where
  id := row.id
  host := decode row.host
  baseUrl := decode row.baseUrl
  healthCheckPath := decode row.healthCheckPath

/-- A row of `purge_log`. -/
structure PurgeRow where
  id : Uuid
  pattern : ByteString
  requestedBy : ByteString

/-- The entry of a row of `purge_log`. -/
def PurgeRow.entry (row : PurgeRow) : PurgeLogEntry where
  id := row.id
  pattern := decode row.pattern
  requestedBy := decode row.requestedBy

/-- **The stores**: the tables of Postgres, the rules and the keys of Redis, and the messages on the
channel of purges.  `evicted` is there for the statements only: the keys named to `DEL`. -/
structure Backend where
  origins : List OriginRow
  rules : RuleTable
  purges : List PurgeRow
  stats : StatsTable
  redis : RulesRedis
  keys : ByteString → Option ByteString
  purged : List ByteString
  evicted : List JsString

section Postgres

-- What Postgres makes of the text of a `UUID` and of a `TIMESTAMPTZ`.
variable (uuidIn : JsString → Option Uuid) (timestampIn : JsString → Option Timestamp)

/-- The parameters of the `INSERT` of a rule, as Postgres reads them. -/
def inputIn (pathPattern : JsString) (ttlSeconds stale : ℕ) (originId : Option JsString) :
    Option CreateRule := do
  let pathPattern ← textIn pathPattern
  let ttlSeconds ← intIn ttlSeconds
  let stale ← intIn stale
  let originId ← nullable uuidIn originId
  return ⟨pathPattern, ttlSeconds, originId, stale⟩

/-- The foreign key `origin_id`. -/
def Backend.References (b : Backend) (originId : Option Uuid) : Prop :=
  ∀ id ∈ originId, ∃ row ∈ b.origins, row.id = id

/-- **What a call does that is executed**, and what it returns. -/
def Performs (b : Backend) : (c : Call) → Backend → c.Reply → Prop
  | .insertOrigin host baseUrl healthCheckPath, b', (origin : Origin) =>
      ∃ row : OriginRow, textIn host = some row.host ∧ textIn baseUrl = some row.baseUrl ∧
        textIn healthCheckPath = some row.healthCheckPath ∧
        (∀ other ∈ b.origins, other.id ≠ row.id) ∧ origin = row.origin ∧
        b' = { b with origins := b.origins ++ [row] }
  | .listOrigins, b', (origins : List Origin) =>
      origins.Perm (b.origins.map OriginRow.origin) ∧ b' = b
  | .insertRule pathPattern ttlSeconds stale originId, b', (rule : Rule) =>
      ∃ input id row table, inputIn uuidIn pathPattern ttlSeconds stale originId = some input ∧
        b.References input.originId ∧
        EdgeCache.RulesRepo.create b.rules id input = some (row, table) ∧ rule = mapRow row ∧
        b' = { b with rules := table }
  | .listRules, b', (rules : List Rule) => rules.Perm (b.rules.rows.map mapRow) ∧ b' = b
  | .updateRule id pathPattern ttlSeconds stale originId, b', (rules : List Rule) =>
      ∃ key params, uuidIn id = some key ∧
        paramsIn uuidIn pathPattern ttlSeconds stale originId = some params ∧
        b.References params.originId ∧
        rules = (updateRows b.rules key params).1.map mapRow ∧
        b' = { b with rules := (updateRows b.rules key params).2 }
  | .deleteRule id, b', (rules : List Rule) =>
      ∃ key, uuidIn id = some key ∧
        ((EdgeCache.RulesRepo.remove b.rules key = none ∧ rules = [] ∧ b' = b) ∨
          ∃ row table, EdgeCache.RulesRepo.remove b.rules key = some (row, table) ∧
            rules = [mapRow row] ∧ b' = { b with rules := table })
  | .insertPurge pattern requestedBy, b', (entry : PurgeLogEntry) =>
      ∃ row : PurgeRow, textIn pattern = some row.pattern ∧
        textIn requestedBy = some row.requestedBy ∧
        (∀ other ∈ b.purges, other.id ≠ row.id) ∧ entry = row.entry ∧
        b' = { b with purges := b.purges ++ [row] }
  | .listPurges limit, b', (entries : List PurgeLogEntry) =>
      (∃ order : List PurgeRow, order.Perm b.purges ∧
        entries = (order.take limit).map PurgeRow.entry) ∧ b' = b
  | .selectStats clauses params limit, b', (rows : List StatRecord) =>
      (∃ order, Selects timestampIn b.stats order ⟨.selectStats clauses params limit, .ok rows⟩) ∧
        b' = b
  | .hset field value, b', _ =>
      b' = { b with redis := b.redis.exec (.hset (encode field) (encode value)) }
  | .hdel field, b', _ => b' = { b with redis := b.redis.exec (.hdel (encode field)) }
  | .publishUpdate message, b', _ =>
      b' = { b with redis := b.redis.exec (.publish (encode message)) }
  | .publishPurge message, b', _ => b' = { b with purged := b.purged ++ [encode message] }
  | .scan _, b', (page : JsString × List JsString) =>
      (∀ k ∈ page.2, ∃ key, b.keys key ≠ none ∧ k = decode key) ∧ b' = b
  | .del keys, b', _ =>
      b' = { b with
        keys := fun key => if key ∈ keys.map encode then none else b.keys key
        evicted := b.evicted ++ keys }

/-- **How a call is answered**: with what it returns, or with a rejection, executed or not. -/
def Responds (b : Backend) (c : Call) (b' : Backend) : Except JsError c.Reply → Prop
  | .ok v => Performs uuidIn timestampIn b c b' v
  | .error _ => b' = b ∨ ∃ v, Performs uuidIn timestampIn b c b' v

/-- **What others change**: the proxies store keys and Redis drops them, the statistics grow, Redis
loses the rules, and a control plane that starts sends the commands that copy a table it has read. -/
inductive Changes (h : History Backend) : Backend → Prop
  | keys (keys : ByteString → Option ByteString) : Changes h { h.now with keys := keys }
  | stats (stats : StatsTable) : Changes h { h.now with stats := stats }
  | reconcile {b : Backend} {command : Command} (listed : b ∈ h)
      (mem : command ∈ EdgeCache.RedisCoordinator.reconcileAll b.rules.rows) :
      Changes h { h.now with redis := h.now.redis.exec command }

/-- Postgres and Redis, as the control plane shares them. -/
def stores : Services Backend JsError Call.Reply where
  answers := Responds uuidIn timestampIn
  changes := Changes

end Postgres

/-! ## The process -/

/-- What is done with a request; a purge is cut off after the given number of pages. -/
def serve (cfg : Config) (isUrl : JsString → Bool) (q : ApiRequest × ℕ) : Op Unit :=
  match buildApp cfg isUrl q.2 q.1 with
  | .error e => Async.write (errorHandler e)
  | .ok x => x

/-! ## What has been -/

/-- The rule was durable at some time. -/
def Durable (h : History Backend) (rule : Rule) : Prop :=
  ∃ b ∈ h, ∃ row ∈ b.rules.rows, rule = mapRow row

/-- The purge of a pattern was written down at some time. -/
def Audited (h : History Backend) (pattern : JsString) : Prop :=
  ∃ b ∈ h, ∃ row ∈ b.purges, row.pattern = encode pattern

/-- The key is there. -/
def ApiRequest.Authorized (cfg : Config) (req : ApiRequest) : Prop :=
  req.token = some cfg.adminApiKey ∧ cfg.adminApiKey ≠ []

/-- **The calls that are in order.** -/
def InOrder (cfg : Config) (h : History Backend) : Call → Prop
  | .insertOrigin host _ _ => host ≠ []
  | .insertRule pathPattern _ _ _ => pathPattern ≠ []
  | .updateRule _ pathPattern _ _ _ => pathPattern ≠ some []
  | .insertPurge pattern _ => pattern ≠ []
  | .hset field value => ∃ rule, Durable h rule ∧ field = rule.pathPattern ∧
      value = RedisCoordinator.ruleValue rule
  | .hdel field | .publishUpdate field => ∃ rule, Durable h rule ∧ field = rule.pathPattern
  | .publishPurge pattern => Audited h pattern
  | .del keys => ∃ pattern, Audited h pattern ∧
      ∀ key ∈ keys, l2PathMatches cfg.l2KeyPrefix key pattern = true
  | _ => True

/-- A request makes calls in order, and with the key only. -/
def May (cfg : Config) (q : ApiRequest × ℕ) (h : History Backend) (c : Call) : Prop :=
  q.1.Authorized cfg ∧ InOrder cfg h c

/-- What the body of a success says has come true. -/
def Backed (uuidIn : JsString → Option Uuid) (h : History Backend) :
    Endpoint → ApiBody → Prop
  | .updateRule id, .rule rule => Durable h rule ∧ uuidIn id = some rule.id
  | .deleteRule id, .rule rule => Durable h rule ∧ uuidIn id = some rule.id ∧
      ∃ b ∈ h, ∀ row ∈ b.rules.rows, row.id ≠ rule.id
  | _, .rule rule => Durable h rule
  | _, .rules rules => ∃ b ∈ h, rules.Perm (b.rules.rows.map mapRow)
  | _, .origin origin => ∃ b ∈ h, ∃ row ∈ b.origins, origin = row.origin
  | _, .origins origins => ∃ b ∈ h, origins.Perm (b.origins.map OriginRow.origin)
  | _, .purged pattern auditId _ _ =>
      (∃ b ∈ h, ∃ row ∈ b.purges, row.id = auditId ∧ row.pattern = encode pattern) ∧
        ∃ b ∈ h, encode pattern ∈ b.purged
  | _, .purges entries => ∃ b ∈ h, ∀ e ∈ entries, ∃ row ∈ b.purges, e = row.entry
  | _, .stats summary rows => (∃ b ∈ h, ∀ r ∈ rows, ∃ record ∈ b.stats.rows,
      r = StatsRepo.statRow record) ∧ ∃ b ∈ h, ∃ records : List StatRecord,
        (∀ r ∈ records, r ∈ b.stats.rows) ∧
          summary = StatsRepo.summarise (records.map StatsRepo.statRow)
  | _, _ => False

/-- **A success is one**: it goes to a request with the key, and has come true. -/
def Truthful (uuidIn : JsString → Option Uuid) (cfg : Config) (q : ApiRequest × ℕ)
    (h : History Backend) (w : ApiResponse) : Prop :=
  w.status < 400 → q.1.Authorized cfg ∧ Backed uuidIn h q.1.endpoint w.body

section Handlers

variable {uuidIn : JsString → Option Uuid} {timestampIn : JsString → Option Timestamp}
  {cfg : Config} {isUrl : JsString → Bool} {q : ApiRequest × ℕ} {h h' : History Backend}
  {b b' : Backend} {rule : Rule} {pattern : JsString}

/-! ## What stays, and what calls bring about -/

theorem Durable.mono (durable : Durable h rule) (le : h ≤ h') : Durable h' rule := by
  obtain ⟨b, mem, row, there, same⟩ := durable
  exact ⟨b, History.mem_mono le mem, row, there, same⟩

theorem Audited.mono (audited : Audited h pattern) (le : h ≤ h') : Audited h' pattern := by
  obtain ⟨b, mem, row, there, same⟩ := audited
  exact ⟨b, History.mem_mono le mem, row, there, same⟩

/-- What holds of the state that a call leads to has been. -/
theorem mem_of_after_le {s : Backend} (le : h.after s ≤ h') : s ∈ h' :=
  History.mem_mono le (History.mem_after.mpr (Or.inl rfl))

/-- What holds of the state before a call has been. -/
theorem now_mem_of_after_le {s : Backend} (le : h.after s ≤ h') : h.now ∈ h' :=
  History.mem_mono ((h.le_after s).trans le) h.now_mem

/-- A rule that was inserted is durable. -/
theorem durable_of_insert {pathPattern : JsString} {ttlSeconds stale : ℕ}
    {originId : Option JsString}
    (performed : Performs uuidIn timestampIn b (.insertRule pathPattern ttlSeconds stale originId)
      b' rule) : ∃ row ∈ b'.rules.rows, rule = mapRow row := by
  obtain ⟨input, id, row, table, -, -, created, rfl, rfl⟩ := performed
  unfold EdgeCache.RulesRepo.create at created
  split at created
  · cases created
    exact ⟨_, List.mem_append_right _ List.mem_cons_self, rfl⟩
  · cases created

/-- A rule that was updated is durable, and is the one that was asked for. -/
theorem durable_of_update {id : JsString} {pathPattern : Option JsString}
    {ttlSeconds stale : Option ℕ} {originId : Option JsString} {rules : List Rule}
    (performed : Performs uuidIn timestampIn b
      (.updateRule id pathPattern ttlSeconds stale originId) b' rules) (mem : rule ∈ rules) :
    (∃ row ∈ b'.rules.rows, rule = mapRow row) ∧ uuidIn id = some rule.id := by
  obtain ⟨key, params, named, -, -, rfl, rfl⟩ := performed
  cases found : EdgeCache.RulesRepo.get b.rules key with
  | none =>
      rw [updateRows_of_get_eq_none found] at mem
      cases mem
  | some row =>
      obtain ⟨there, same⟩ := mem_of_get found
      rw [updateRows_of_get_eq_some found] at mem ⊢
      obtain rfl := List.mem_singleton.mp mem
      exact ⟨⟨_, (mem_updated there same params).mpr (Or.inl rfl), rfl⟩,
        named.trans (congrArg some same.symm)⟩

/-- A rule that was deleted was durable, and is no more. -/
theorem durable_of_delete {id : JsString} {rules : List Rule}
    (performed : Performs uuidIn timestampIn b (.deleteRule id) b' rules) (mem : rule ∈ rules) :
    (∃ row ∈ b.rules.rows, rule = mapRow row) ∧ uuidIn id = some rule.id ∧
      ∀ row ∈ b'.rules.rows, row.id ≠ rule.id := by
  obtain ⟨key, named, ⟨-, rfl, -⟩ | ⟨row, table, removed, rfl, rfl⟩⟩ := performed
  · cases mem
  · obtain rfl := List.mem_singleton.mp mem
    obtain ⟨found, here, same⟩ := Option.map_eq_some_iff.mp removed
    cases same
    obtain ⟨there, same⟩ := mem_of_get here
    refine ⟨⟨_, there, rfl⟩, named.trans (congrArg some same.symm), fun other mem' => ?_⟩
    have apart : other.id ≠ key := by simpa using (List.mem_filter.mp mem').2
    exact fun equal => apart (equal.trans same)

/-! ## Safe handlers -/

-- What is asked of a handler, once the key was checked.
variable (uuidIn timestampIn cfg q) in
/-- The function is in order, and its response true. -/
abbrev Orderly (x : Op Unit) (h : History Backend) : Prop :=
  (stores uuidIn timestampIn).Safe (May cfg q) (Truthful uuidIn cfg q) x (fun _ _ => True)
    (fun _ _ => True) h

/-- An error is no success. -/
theorem orderly_error {status : ℕ} {body : ApiBody} (refused : 400 ≤ status) :
    Orderly uuidIn timestampIn cfg q (json status body) h :=
  Services.safe_write (fun _ _ success => absurd success (not_lt.mpr refused)) fun _ _ => trivial

/-- A success that has come true. -/
theorem orderly_json {status : ℕ} {body : ApiBody} (key : q.1.Authorized cfg)
    (backed : ∀ h', h ≤ h' → Backed uuidIn h' q.1.endpoint body) :
    Orderly uuidIn timestampIn cfg q (json status body) h :=
  Services.safe_write (fun h' le _ => ⟨key, backed h' le⟩) fun _ _ => trivial

/-- A call in order, and what comes after it. -/
theorem orderly_await {c : Call} {f : c.Reply → Op Unit} (key : q.1.Authorized cfg)
    (order : ∀ h', h ≤ h' → InOrder cfg h' c)
    (rest : ∀ h' b v, h ≤ h' → Performs uuidIn timestampIn h'.now c b v →
      ∀ h'', h'.after b ≤ h'' → Orderly uuidIn timestampIn cfg q (f v) h'') :
    Orderly uuidIn timestampIn cfg q ((await c).bind f) h :=
  Services.Safe.bind (Services.safe_call (fun h' le => ⟨key, order h' le⟩) rest
    fun _ _ _ => trivial)

/-- A command whose rejection is handled. -/
theorem safe_command {c : Call} {post : History Backend → c.Reply → Prop}
    {fails : History Backend → JsError → Prop} (key : q.1.Authorized cfg)
    (order : ∀ h', h ≤ h' → InOrder cfg h' c) (value : ∀ h' v, h ≤ h' → post h' v)
    (failed : ∀ h' e, h ≤ h' → fails h' e) :
    (stores uuidIn timestampIn).Safe (May cfg q) (Truthful uuidIn cfg q) (await c) post fails h :=
  Services.safe_call (fun h' le => ⟨key, order h' le⟩)
    (fun h' b v le _ h'' later => value h'' v (le.trans ((h'.le_after b).trans later))) failed

/-- Two commands, one after the other, whatever becomes of them. -/
theorem orderly_commands {c c' : Call} {rest : Op Unit} (key : q.1.Authorized cfg)
    (order : ∀ h', h ≤ h' → InOrder cfg h' c) (order' : ∀ h', h ≤ h' → InOrder cfg h' c')
    (goes : ∀ h', h ≤ h' → Orderly uuidIn timestampIn cfg q rest h') :
    Orderly uuidIn timestampIn cfg q
      ((((await c).bind fun _ => (await c').bind fun _ => .pure ()).tryCatch
        fun _ => .pure ()).bind fun _ => rest) h := by
  have handled : ∀ h', h ≤ h' → (stores uuidIn timestampIn).Safe (May cfg q)
      (Truthful uuidIn cfg q) (.pure () : Op Unit)
      (fun h _ => Orderly uuidIn timestampIn cfg q rest h) (fun _ _ => True) h' :=
    fun h' le => Services.safe_pure fun h'' later => goes h'' (le.trans later)
  refine Services.Safe.bind (Services.Safe.tryCatch (Services.Safe.bind ?_))
  refine safe_command key order (fun h' _ le => Services.Safe.bind ?_) fun h' _ le => handled h' le
  exact safe_command key (fun h'' later => order' h'' (le.trans later))
    (fun h'' _ later => Services.safe_pure fun h₃ last => goes h₃ (le.trans (later.trans last)))
    fun h'' _ later => handled h'' (le.trans later)

/-- A rule is mirrored that is durable. -/
theorem orderly_upsertRule {rest : Op Unit} (key : q.1.Authorized cfg) (durable : Durable h rule)
    (goes : ∀ h', h ≤ h' → Orderly uuidIn timestampIn cfg q rest h') :
    Orderly uuidIn timestampIn cfg q
      (((RedisCoordinator.upsertRule rule).tryCatch fun _ => .pure ()).bind fun _ => rest) h :=
  @orderly_commands uuidIn timestampIn cfg q h (.hset _ _) (.publishUpdate _) rest key
    (fun _ le => ⟨rule, durable.mono le, rfl, rfl⟩) (fun _ le => ⟨rule, durable.mono le, rfl⟩) goes

/-- A rule is taken away that was durable. -/
theorem orderly_removeRule {rest : Op Unit} (key : q.1.Authorized cfg) (durable : Durable h rule)
    (goes : ∀ h', h ≤ h' → Orderly uuidIn timestampIn cfg q rest h') :
    Orderly uuidIn timestampIn cfg q (((RedisCoordinator.removeRule rule.pathPattern).tryCatch
      fun _ => .pure ()).bind fun _ => rest) h :=
  @orderly_commands uuidIn timestampIn cfg q h (.hdel _) (.publishUpdate _) rest key
    (fun _ le => ⟨rule, durable.mono le, rfl⟩) (fun _ le => ⟨rule, durable.mono le, rfl⟩) goes

theorem orderly_originsPost (key : q.1.Authorized cfg) (here : q.1.endpoint = .createOrigin)
    (body : JsValue) :
    Orderly uuidIn timestampIn cfg q (OriginsRouter.post isUrl body) h := by
  unfold OriginsRouter.post
  split
  · exact orderly_error (by decide)
  · rename_i data parsed
    refine @orderly_await uuidIn timestampIn cfg q h (.insertOrigin _ _ _) _ key
      (fun _ _ => ?_) fun h' b origin _ performed h'' le => ?_
    · exact CreateOriginBody.host_ne_nil parsed
    · obtain ⟨row, -, -, -, -, rfl, rfl⟩ := performed
      refine orderly_json key fun h₃ later => ?_
      rw [here]
      exact ⟨_, mem_of_after_le (le.trans later), row, by simp, rfl⟩

theorem orderly_originsGet (key : q.1.Authorized cfg) (here : q.1.endpoint = .listOrigins) :
    Orderly uuidIn timestampIn cfg q OriginsRouter.get h := by
  refine @orderly_await uuidIn timestampIn cfg q h .listOrigins _ key (fun _ _ => trivial)
    fun h' b origins _ performed h'' le => ?_
  obtain ⟨perm, rfl⟩ := performed
  refine orderly_json key fun h₃ later => ?_
  rw [here]
  exact ⟨_, mem_of_after_le (le.trans later), perm⟩

theorem orderly_rulesPost (key : q.1.Authorized cfg) (here : q.1.endpoint = .createRule)
    (body : JsValue) : Orderly uuidIn timestampIn cfg q (RulesRouter.post body) h := by
  unfold RulesRouter.post
  split
  · exact orderly_error (by decide)
  · rename_i data parsed
    refine @orderly_await uuidIn timestampIn cfg q h (.insertRule _ _ _ _) _ key
      (fun _ _ => ?_) fun h' b rule _ performed h'' le => ?_
    · exact CreateRuleBody.pathPattern_ne_nil parsed
    · have durable : Durable h'' rule := ⟨b, mem_of_after_le le, durable_of_insert performed⟩
      refine orderly_upsertRule key durable fun h₃ later => orderly_json key fun h₄ last => ?_
      rw [here]
      exact durable.mono (later.trans last)

theorem orderly_rulesGet (key : q.1.Authorized cfg) (here : q.1.endpoint = .listRules) :
    Orderly uuidIn timestampIn cfg q RulesRouter.get h := by
  refine @orderly_await uuidIn timestampIn cfg q h .listRules _ key (fun _ _ => trivial)
    fun h' b rules _ performed h'' le => ?_
  obtain ⟨perm, rfl⟩ := performed
  refine orderly_json key fun h₃ later => ?_
  rw [here]
  exact ⟨_, mem_of_after_le (le.trans later), perm⟩

theorem orderly_rulesPut {id : JsString} (key : q.1.Authorized cfg)
    (here : q.1.endpoint = .updateRule id) (body : JsValue) :
    Orderly uuidIn timestampIn cfg q (RulesRouter.put id body) h := by
  cases parsed : UpdateRuleBody.safeParse body with
  | none =>
      unfold RulesRouter.put
      rw [parsed]
      exact orderly_error (by decide)
  | some patch =>
      rw [put_eq parsed]
      refine @orderly_await uuidIn timestampIn cfg q h (.updateRule _ _ _ _ _) _ key
        (fun _ _ => ?_) fun h' b (rules : List Rule) _ performed h'' le => ?_
      · exact UpdateRuleBody.pathPattern_ne_nil parsed
      · cases rules with
        | nil => exact orderly_error (by decide)
        | cons rule rest =>
            obtain ⟨there, named⟩ := durable_of_update performed List.mem_cons_self
            have durable : Durable h'' rule := ⟨b, mem_of_after_le le, there⟩
            refine orderly_upsertRule key durable fun h₃ later => orderly_json key fun h₄ last => ?_
            rw [here]
            exact ⟨durable.mono (later.trans last), named⟩

/-- The route waits for `DELETE`, and then takes its row from Redis. -/
theorem delete_eq (id : JsString) : RulesRouter.delete id =
    (await (.deleteRule id)).bind fun rows : List Rule =>
      match rows.head? with
      | none => notFound
      | some rule => ((RedisCoordinator.removeRule rule.pathPattern).tryCatch
          fun _ => .pure ()).bind fun _ => json 200 (.rule rule) :=
  bind_assoc ..

theorem orderly_rulesDelete {id : JsString} (key : q.1.Authorized cfg)
    (here : q.1.endpoint = .deleteRule id) :
    Orderly uuidIn timestampIn cfg q (RulesRouter.delete id) h := by
  rw [delete_eq]
  refine @orderly_await uuidIn timestampIn cfg q h (.deleteRule _) _ key (fun _ _ => trivial)
    fun h' b (rules : List Rule) _ performed h'' le => ?_
  cases rules with
  | nil => exact orderly_error (by decide)
  | cons rule rest =>
      obtain ⟨there, named, gone⟩ := durable_of_delete performed List.mem_cons_self
      have durable : Durable h'' rule := ⟨_, now_mem_of_after_le le, there⟩
      refine orderly_removeRule key durable fun h₃ later => orderly_json key fun h₄ last => ?_
      rw [here]
      exact ⟨durable.mono (later.trans last), named, b,
        mem_of_after_le (le.trans (later.trans last)), gone⟩

/-- The pages of a purge that was written down: what is deleted matches it. -/
theorem safe_scanPages {post : History Backend → ℕ → Prop}
    {fails : History Backend → JsError → Prop} (key : q.1.Authorized cfg) (pages : ℕ)
    (cursor : JsString) (deleted : ℕ) (audited : Audited h pattern)
    (value : ∀ h' n, h ≤ h' → post h' n) (failed : ∀ h' e, h ≤ h' → fails h' e) :
    (stores uuidIn timestampIn).Safe (May cfg q) (Truthful uuidIn cfg q)
      (RedisCoordinator.scanPages cfg pattern pages cursor deleted) post fails h := by
  induction pages generalizing cursor deleted h with
  | zero => trivial
  | succ pages ih =>
      refine Services.Safe.bind (safe_command key (fun _ _ => trivial)
        (fun h₁ (page : JsString × List JsString) le₁ => ?_) failed)
      -- What comes after the deletion does not depend on whether there was one.
      have next : ∀ h₂ (more : ℕ), h₁ ≤ h₂ → (stores uuidIn timestampIn).Safe (May cfg q)
          (Truthful uuidIn cfg q) (if page.1 = literal "0" then Async.pure (deleted + more)
            else RedisCoordinator.scanPages cfg pattern pages page.1 (deleted + more) : Op ℕ)
          post fails h₂ := by
        intro h₂ more le₂
        split
        · exact Services.safe_pure fun h₃ later => value h₃ _ (le₁.trans (le₂.trans later))
        · exact ih _ _ (audited.mono (le₁.trans le₂))
            (fun h₃ n later => value h₃ n (le₁.trans (le₂.trans later)))
            fun h₃ e later => failed h₃ e (le₁.trans (le₂.trans later))
      simp only
      split
      · exact next h₁ 0 le_rfl
      · refine Services.Safe.bind (safe_command key (fun h₂ le₂ => ?_) next
          fun h₂ e le₂ => failed h₂ e (le₁.trans le₂))
        exact ⟨pattern, audited.mono (le₁.trans le₂), fun k mem => (List.mem_filter.mp mem).2⟩

theorem orderly_purgePost (key : q.1.Authorized cfg) (here : q.1.endpoint = .purge) (pages : ℕ)
    (actor ip : Option JsString) (body : JsValue) :
    Orderly uuidIn timestampIn cfg q (PurgeRouter.post cfg pages actor ip body) h := by
  unfold PurgeRouter.post
  split
  · exact orderly_error (by decide)
  · rename_i data parsed
    refine @orderly_await uuidIn timestampIn cfg q h (.insertPurge _ _) _ key
      (fun _ _ => PurgeBody.pattern_ne_nil parsed) fun h₁ b entry _ performed h₂ le => ?_
    obtain ⟨row, text, -, -, rfl, rfl⟩ := performed
    have same : row.pattern = encode data.pattern := eq_encode_of_textIn text
    have logged : ∀ h', h₂ ≤ h' → ∃ b ∈ h', ∃ r ∈ b.purges, r.id = row.id ∧
        r.pattern = encode data.pattern := fun h' later =>
      ⟨_, mem_of_after_le (le.trans later), row, by simp, rfl, same⟩
    have audited : ∀ h', h₂ ≤ h' → Audited h' data.pattern := fun h' later => by
      obtain ⟨b, mem, r, there, -, named⟩ := logged h' later
      exact ⟨b, mem, r, there, named⟩
    have publish : ∀ h' (l2Evicted : ℕ), h₂ ≤ h' → Orderly uuidIn timestampIn cfg q
        ((RedisCoordinator.publishPurge data.pattern).bind fun subscribers =>
          json 202 (.purged data.pattern row.id subscribers l2Evicted)) h' := by
      intro h' l2Evicted later
      refine @orderly_await uuidIn timestampIn cfg q h' (.publishPurge _) _ key
        (fun h₃ le₃ => audited h₃ (later.trans le₃)) fun h₃ b n le₃ performed h₄ le₄ => ?_
      obtain rfl : b = _ := performed
      refine orderly_json key fun h₅ le₅ => ?_
      have before := (later.trans le₃).trans ((h₃.le_after _).trans (le₄.trans le₅))
      rw [here]
      exact ⟨logged h₅ before, _, mem_of_after_le (le₄.trans le₅), by simp⟩
    refine Services.Safe.bind (Services.Safe.tryCatch ?_)
    exact safe_scanPages key pages _ 0 (audited h₂ le_rfl) publish
      fun h' _ later => Services.safe_pure fun h'' last => publish h'' 0 (later.trans last)

theorem orderly_purgeLog (key : q.1.Authorized cfg) (here : q.1.endpoint = .purgeLog) :
    Orderly uuidIn timestampIn cfg q PurgeRouter.log h := by
  refine @orderly_await uuidIn timestampIn cfg q h (.listPurges _) _ key (fun _ _ => trivial)
    fun h' b entries _ performed h'' le => ?_
  obtain ⟨⟨order, perm, rfl⟩, rfl⟩ := performed
  refine orderly_json key fun h₃ later => ?_
  rw [here]
  refine ⟨_, mem_of_after_le (le.trans later), fun e mem => ?_⟩
  obtain ⟨row, taken, rfl⟩ := List.mem_map.mp mem
  exact ⟨row, perm.subset (List.mem_of_mem_take taken), rfl⟩

/-- What the query of the statistics returns are rows of the table. -/
theorem mem_of_selected {clauses : List (StatsTest × ℕ)} {params : List JsString} {limit : ℕ}
    {rows : List StatRecord} (performed : Performs uuidIn timestampIn b
      (.selectStats clauses params limit) b' rows) : b' = b ∧ ∀ r ∈ rows, r ∈ b.stats.rows := by
  obtain ⟨⟨order, wanted, -, ⟨perm, -⟩, rfl⟩, rfl⟩ := performed
  exact ⟨rfl, fun r mem => (List.mem_filter.mp (perm.subset (List.mem_of_mem_take mem))).1⟩

theorem orderly_stats {path fromTime toTime : Option JsString} (key : q.1.Authorized cfg)
    (here : q.1.endpoint = .stats path fromTime toTime) :
    Orderly uuidIn timestampIn cfg q (StatsRouter.get path fromTime toTime) h := by
  refine Services.safe_all (fun _ _ => ⟨⟨key, trivial⟩, key, trivial⟩)
    (fun h₁ h₂ b₁ b₂ (rows all : List StatRecord) h' _ _ first second le₁ le₂ => ?_)
    fun e h' _ => fun _ _ => trivial
  obtain ⟨rfl, inside⟩ := @mem_of_selected uuidIn timestampIn _ _ _ _ _ _ first
  obtain ⟨rfl, inside'⟩ := @mem_of_selected uuidIn timestampIn _ _ _ _ _ _ second
  refine orderly_json key fun h'' later => ?_
  rw [here]
  refine ⟨⟨_, mem_of_after_le (le₁.trans later), fun r mem => ?_⟩, _,
    mem_of_after_le (le₂.trans later), all, inside', rfl⟩
  obtain ⟨record, there, rfl⟩ := List.mem_map.mp mem
  exact ⟨record, inside record there, rfl⟩

/-- **Every handler is in order**, for a request with the key. -/
theorem orderly_handler (key : q.1.Authorized cfg) (pages : ℕ) (body : JsValue) :
    Orderly uuidIn timestampIn cfg q (handler cfg isUrl pages q.1 body) h := by
  unfold handler
  split
  · exact orderly_originsPost key ‹_› body
  · exact orderly_originsGet key ‹_›
  · exact orderly_rulesPost key ‹_› body
  · exact orderly_rulesGet key ‹_›
  · exact orderly_rulesPut key ‹_› body
  · exact orderly_rulesDelete key ‹_›
  · exact orderly_purgePost key ‹_› pages _ _ body
  · exact orderly_purgeLog key ‹_›
  · exact orderly_stats key ‹_›

/-- **Every request is served in order**, with the key or without. -/
theorem serve_safe : (stores uuidIn timestampIn).ServesSafely (serve cfg isUrl) (May cfg)
    (Truthful uuidIn cfg) := by
  intro q h
  unfold serve buildApp
  cases q.1.body with
  | error e => exact orderly_error (show 400 ≤ 500 by decide)
  | ok body =>
      simp only [Bind.bind, Except.bind]
      cases sent : q.1.token with
      | none => exact orderly_error (show 400 ≤ 401 by decide)
      | some token =>
          by_cases wrong : token = [] ∨ token ≠ cfg.adminApiKey
          · simp only [wrong, if_true]
            exact orderly_error (show 400 ≤ 401 by decide)
          · simp only [wrong, if_false]
            rw [not_or, not_not] at wrong
            refine orderly_handler ⟨?_, wrong.2 ▸ wrong.1⟩ q.2 body
            rw [sent, wrong.2]

end Handlers

/-! ## What every run keeps -/

section Runs

variable {uuidIn : JsString → Option Uuid} {timestampIn : JsString → Option Timestamp}
  {cfg : Config} {isUrl : JsString → Bool} {h : History Backend}
  {p : Services.Process Backend JsError Call.Reply ApiResponse Unit (ApiRequest × ℕ)}

/-- The stores before the first request. -/
def Backend.empty : Backend where
  origins := []
  rules := ⟨[], List.Pairwise.nil⟩
  purges := []
  stats := ⟨[], List.Pairwise.nil⟩
  redis := ⟨fun _ => none, []⟩
  keys := fun _ => none
  purged := []
  evicted := []

/-! ### The tables -/

/-- **A row that the API can have written**: its pattern is text and not empty, and its seconds are
not negative. -/
structure Sound (row : RuleRow) : Prop where
  valid : Valid row.pathPattern
  nonempty : row.pathPattern ≠ []
  ttl : 0 ≤ row.ttlSeconds
  swr : 0 ≤ row.staleWhileRevalidateSeconds

theorem nonneg_of_intIn {n : ℕ} {i : Int32} (taken : intIn n = some i) : 0 ≤ i := by
  unfold intIn at taken
  split at taken
  · rename_i small
    cases taken
    rw [Int32.le_iff_toInt_le, Int32.toInt_ofNat_of_lt small]
    exact Int.natCast_nonneg n
  · cases taken

theorem encode_ne_nil {s : JsString} (nonempty : s ≠ []) : encode s ≠ [] := by
  have units : ∀ u, unitBytes u ≠ [] := fun u => by
    unfold unitBytes pointBytes
    repeat' split
    all_goals simp
  unfold encode
  split
  · exact absurd rfl nonempty
  · exact units _
  · split
    · unfold pointBytes
      repeat' split
      all_goals simp
    · exact List.append_ne_nil_of_left_ne_nil (units _) _

/-- A pattern that Postgres takes. -/
theorem sound_of_textIn {s : JsString} {text : ByteString} (taken : textIn s = some text)
    (nonempty : s ≠ []) : Valid text ∧ text ≠ [] := by
  rw [eq_encode_of_textIn taken]
  exact ⟨valid_encode s, encode_ne_nil nonempty⟩

/-- The row of an `INSERT`. -/
theorem sound_of_insert {pathPattern : JsString} {ttlSeconds stale : ℕ}
    {originId : Option JsString} {input : CreateRule} {id : Uuid} {row : RuleRow}
    {table table' : RuleTable} (nonempty : pathPattern ≠ [])
    (read : inputIn uuidIn pathPattern ttlSeconds stale originId = some input)
    (created : EdgeCache.RulesRepo.create table id input = some (row, table')) :
    Sound row ∧ table'.rows = table.rows ++ [row] := by
  unfold inputIn at read
  simp only [Bind.bind, Option.bind_eq_some_iff] at read
  obtain ⟨text, taken, ttl, ttlIn, swr, swrIn, originId, -, same⟩ := read
  cases same
  unfold EdgeCache.RulesRepo.create at created
  split at created
  · cases created
    have pattern := sound_of_textIn taken nonempty
    exact ⟨⟨pattern.1, pattern.2, nonneg_of_intIn ttlIn, nonneg_of_intIn swrIn⟩, rfl⟩
  · cases created

/-- A row after an `UPDATE`. -/
theorem Sound.patch {pathPattern : Option JsString} {ttlSeconds stale : Option ℕ}
    {originId : Option JsString} {params : UpdateRule} {row : RuleRow} (sound : Sound row)
    (nonempty : pathPattern ≠ some [])
    (read : paramsIn uuidIn pathPattern ttlSeconds stale originId = some params) :
    Sound (row.patch params) := by
  unfold paramsIn at read
  simp only [Bind.bind, Option.bind_eq_some_iff] at read
  obtain ⟨text, taken, ttl, ttlIn, swr, swrIn, originId, -, same⟩ := read
  cases same
  have pattern : Valid (text.getD row.pathPattern) ∧ text.getD row.pathPattern ≠ [] := by
    cases pathPattern with
    | none =>
        cases taken
        exact ⟨sound.valid, sound.nonempty⟩
    | some s =>
        obtain ⟨text, took, rfl⟩ := Option.map_eq_some_iff.mp taken
        exact sound_of_textIn took fun empty => nonempty (congrArg some empty)
  have seconds : ∀ {n : Option ℕ} {i : Option Int32} {old : Int32}, nullable intIn n = some i →
      0 ≤ old → 0 ≤ i.getD old := by
    intro n i old taken before
    cases n with
    | none =>
        cases taken
        exact before
    | some n =>
        obtain ⟨i, took, rfl⟩ := Option.map_eq_some_iff.mp taken
        exact nonneg_of_intIn took
  exact ⟨pattern.1, pattern.2, seconds ttlIn sound.ttl, seconds swrIn sound.swr⟩

/-- **Every call in order keeps the rows sound.** -/
theorem sound_of_performs {b b' : Backend} {c : Call} {v : c.Reply} (order : InOrder cfg h c)
    (performed : Performs uuidIn timestampIn b c b' v) (sound : ∀ row ∈ b.rules.rows, Sound row) :
    ∀ row ∈ b'.rules.rows, Sound row := by
  cases c with
  | insertRule pathPattern ttlSeconds stale originId =>
      obtain ⟨input, id, row, table, read, -, created, -, rfl⟩ := performed
      obtain ⟨new, rows⟩ := sound_of_insert order read created
      intro r mem
      rw [rows, List.mem_append, List.mem_singleton] at mem
      rcases mem with old | rfl
      · exact sound r old
      · exact new
  | updateRule id pathPattern ttlSeconds stale originId =>
      obtain ⟨key, params, -, read, -, -, rfl⟩ := performed
      intro r mem
      cases found : EdgeCache.RulesRepo.get b.rules key with
      | none =>
          rw [updateRows_of_get_eq_none found] at mem
          exact sound r mem
      | some row =>
          rw [updateRows_of_get_eq_some found] at mem
          obtain ⟨there, same⟩ := mem_of_get found
          rcases (mem_updated there same params).mp mem with rfl | ⟨old, -⟩
          · exact (sound row there).patch order read
          · exact sound r old
  | deleteRule id =>
      obtain ⟨key, -, ⟨-, -, rfl⟩ | ⟨row, table, removed, -, rfl⟩⟩ := performed
      · exact sound
      · obtain ⟨found, -, same⟩ := Option.map_eq_some_iff.mp removed
        cases same
        exact fun r mem => sound r (List.mem_filter.mp mem).1
  | insertOrigin host baseUrl healthCheckPath =>
      obtain ⟨row, -, -, -, -, -, rfl⟩ := performed
      exact sound
  | insertPurge pattern requestedBy =>
      obtain ⟨row, -, -, -, -, rfl⟩ := performed
      exact sound
  | listOrigins => exact performed.2 ▸ sound
  | listRules => exact performed.2 ▸ sound
  | listPurges limit => exact performed.2 ▸ sound
  | selectStats clauses params limit => exact performed.2 ▸ sound
  | scan cursor => exact performed.2 ▸ sound
  | hset field value => obtain rfl : b' = _ := performed; exact sound
  | hdel field => obtain rfl : b' = _ := performed; exact sound
  | publishUpdate message => obtain rfl : b' = _ := performed; exact sound
  | publishPurge message => obtain rfl : b' = _ := performed; exact sound
  | del keys => obtain rfl : b' = _ := performed; exact sound

/-! ### The order of things -/

/-- The value of a rule is text in ASCII. -/
theorem encode_ruleValue (row : RuleRow) :
    encode (RedisCoordinator.ruleValue (mapRow row)) =
      EdgeCache.RedisCoordinator.ruleValue row := by
  have solid : ∀ c : UInt8, isUuidByte c = true → c < 0x80 := by decide +kernel
  have number : ∀ n : ℤ, Ascii (intToString n) := fun n c mem =>
    solid c (solid_intToString n c mem).1
  have origin : Ascii ((row.originId.map Uuid.text).getD []) := by
    cases row.originId with
    | none => exact fun c mem => absurd mem List.not_mem_nil
    | some id => exact fun c mem => solid c (id.plain c mem)
  have ascii : Ascii (EdgeCache.RedisCoordinator.ruleValue row) := by
    have texts : Ascii (bytes "\x7b\"ttl\":") ∧ Ascii (bytes ",\"swr\":") ∧
        Ascii (bytes ",\"originId\":\"") ∧ Ascii (bytes "\"\x7d") := by decide +kernel
    obtain ⟨first, second, third, last⟩ := texts
    intro c mem
    simp only [EdgeCache.RedisCoordinator.ruleValue, List.mem_append] at mem
    rcases mem with (((((mem | mem) | mem) | mem) | mem) | mem) | mem
    · exact first c mem
    · exact number _ c mem
    · exact second c mem
    · exact number _ c mem
    · exact third c mem
    · exact origin c mem
    · exact last c mem
  have same : RedisCoordinator.ruleValue (mapRow row) =
      decode (EdgeCache.RedisCoordinator.ruleValue row) := (decode_of_ascii ascii).symm
  rw [same, encode_decode_of_ascii ascii]

/-- **What the control plane keeps**: the rows that it has ever written are sound, the hash holds
rows that were durable, the log of purges only grows, and what was published or deleted is in it. -/
structure Kept (cfg : Config) (h : History Backend) : Prop where
  rows : ∀ b ∈ h, ∀ row ∈ b.rules.rows, Sound row
  hash : ∀ field value, h.now.redis.hash field = some value →
    ∃ b ∈ h, ∃ row ∈ b.rules.rows, row.pathPattern = field ∧
      EdgeCache.RedisCoordinator.ruleValue row = value
  log : ∀ b ∈ h, ∀ row ∈ b.purges, row ∈ h.now.purges
  purged : ∀ message ∈ h.now.purged, ∃ row ∈ h.now.purges, row.pattern = message
  evicted : ∀ key ∈ h.now.evicted, ∃ row ∈ h.now.purges, ∃ pattern, row.pattern = encode pattern ∧
    l2PathMatches cfg.l2KeyPrefix key pattern = true

variable {b b' : Backend}

/-- **The frame of a change**: it keeps the order, where every new row is sound, every new field of
the hash is of a row that was durable, and the log covers every new purge. -/
theorem Kept.after (kept : Kept cfg h) (rows : ∀ row ∈ b'.rules.rows, Sound row)
    (hash : ∀ field value, b'.redis.hash field = some value →
      h.now.redis.hash field = some value ∨ ∃ b ∈ h, ∃ row ∈ b.rules.rows,
        row.pathPattern = field ∧ EdgeCache.RedisCoordinator.ruleValue row = value)
    (log : ∀ row ∈ h.now.purges, row ∈ b'.purges)
    (purged : ∀ message ∈ b'.purged, message ∈ h.now.purged ∨
      ∃ row ∈ h.now.purges, row.pattern = message)
    (evicted : ∀ key ∈ b'.evicted, key ∈ h.now.evicted ∨
      ∃ row ∈ h.now.purges, ∃ pattern, row.pattern = encode pattern ∧
        l2PathMatches cfg.l2KeyPrefix key pattern = true) : Kept cfg (h.after b') where
  rows b mem := by
    rcases History.mem_after.mp mem with rfl | before
    · exact rows
    · exact kept.rows b before
  hash field value held := by
    have durable : ∃ b ∈ h, ∃ row ∈ b.rules.rows, row.pathPattern = field ∧
        EdgeCache.RedisCoordinator.ruleValue row = value := by
      rcases hash field value held with before | new
      · exact kept.hash field value before
      · exact new
    obtain ⟨b, mem, row, there⟩ := durable
    exact ⟨b, History.mem_mono (h.le_after b') mem, row, there⟩
  log b mem row there := by
    rcases History.mem_after.mp mem with rfl | before
    · exact there
    · exact log row (kept.log b before row there)
  purged message mem := by
    rcases purged message mem with before | ⟨row, there, same⟩
    · obtain ⟨row, there, same⟩ := kept.purged message before
      exact ⟨row, log row there, same⟩
    · exact ⟨row, log row there, same⟩
  evicted key mem := by
    rcases evicted key mem with before | ⟨row, there, covers⟩
    · obtain ⟨row, there, covers⟩ := kept.evicted key before
      exact ⟨row, log row there, covers⟩
    · exact ⟨row, log row there, covers⟩

/-- A change of what is neither a rule nor a purge. -/
theorem Kept.unchanged (kept : Kept cfg h) (rules : b'.rules = h.now.rules)
    (hash : b'.redis.hash = h.now.redis.hash) (purges : b'.purges = h.now.purges)
    (purged : b'.purged = h.now.purged) (evicted : b'.evicted = h.now.evicted) :
    Kept cfg (h.after b') := by
  refine kept.after ?_ (fun f v held => Or.inl (hash ▸ held)) (fun row there => purges ▸ there)
    (fun m mem => Or.inl (purged ▸ mem)) fun k mem => Or.inl (evicted ▸ mem)
  rw [rules]
  exact kept.rows _ h.now_mem

/-- A rule that was durable, as Redis is sent it. -/
theorem Kept.durable (kept : Kept cfg h) {rule : Rule} (durable : Durable h rule) :
    ∃ b ∈ h, ∃ row ∈ b.rules.rows, row.pathPattern = encode rule.pathPattern ∧
      EdgeCache.RedisCoordinator.ruleValue row = encode (RedisCoordinator.ruleValue rule) := by
  obtain ⟨b, mem, row, there, rfl⟩ := durable
  exact ⟨b, mem, row, there, (kept.rows b mem row there).valid.symm, (encode_ruleValue row).symm⟩

/-- A pattern that was written down is in the log. -/
theorem Kept.audited (kept : Kept cfg h) {pattern : JsString} (audited : Audited h pattern) :
    ∃ row ∈ h.now.purges, row.pattern = encode pattern := by
  obtain ⟨b, mem, row, there, same⟩ := audited
  exact ⟨row, kept.log b mem row there, same⟩

/-- **A call in order keeps the order**, where it is executed. -/
theorem Kept.performed (kept : Kept cfg h) {c : Call} {v : c.Reply} (order : InOrder cfg h c)
    (performed : Performs uuidIn timestampIn h.now c b' v) : Kept cfg (h.after b') := by
  have sound := sound_of_performs order performed (kept.rows _ h.now_mem)
  cases c with
  | insertOrigin host baseUrl healthCheckPath =>
      obtain ⟨row, -, -, -, -, -, rfl⟩ := performed
      exact kept.unchanged rfl rfl rfl rfl rfl
  | insertRule pathPattern ttlSeconds stale originId =>
      obtain ⟨input, id, row, table, -, -, -, -, rfl⟩ := performed
      exact kept.after sound (fun _ _ => Or.inl) (fun _ there => there) (fun _ => Or.inl)
        fun _ => Or.inl
  | updateRule id pathPattern ttlSeconds stale originId =>
      obtain ⟨key, params, -, -, -, -, rfl⟩ := performed
      exact kept.after sound (fun _ _ => Or.inl) (fun _ there => there) (fun _ => Or.inl)
        fun _ => Or.inl
  | deleteRule key =>
      obtain ⟨key, -, ⟨-, -, rfl⟩ | ⟨row, table, -, -, rfl⟩⟩ := performed
      · exact kept.unchanged rfl rfl rfl rfl rfl
      · exact kept.after sound (fun _ _ => Or.inl) (fun _ there => there) (fun _ => Or.inl)
          fun _ => Or.inl
  | insertPurge pattern requestedBy =>
      obtain ⟨row, -, -, -, -, rfl⟩ := performed
      exact kept.after sound (fun _ _ => Or.inl) (fun _ there => List.mem_append_left _ there)
        (fun _ => Or.inl) fun _ => Or.inl
  | listOrigins => obtain ⟨-, rfl⟩ := performed; exact kept.unchanged rfl rfl rfl rfl rfl
  | listRules => obtain ⟨-, rfl⟩ := performed; exact kept.unchanged rfl rfl rfl rfl rfl
  | listPurges limit => obtain ⟨-, rfl⟩ := performed; exact kept.unchanged rfl rfl rfl rfl rfl
  | selectStats clauses params limit =>
      obtain ⟨-, rfl⟩ := performed
      exact kept.unchanged rfl rfl rfl rfl rfl
  | scan cursor => obtain ⟨-, rfl⟩ := performed; exact kept.unchanged rfl rfl rfl rfl rfl
  | hset field value =>
      obtain rfl : b' = _ := performed
      obtain ⟨rule, durable, rfl, rfl⟩ := order
      refine kept.after sound (fun f v held => ?_) (fun _ there => there) (fun _ => Or.inl)
        fun _ => Or.inl
      simp only [RulesRedis.exec] at held
      by_cases here : f = encode rule.pathPattern
      · rw [here, Function.update_self, Option.some.injEq] at held
        rw [here, ← held]
        exact Or.inr (kept.durable durable)
      · rw [Function.update_of_ne here] at held
        exact Or.inl held
  | hdel field =>
      obtain rfl : b' = _ := performed
      refine kept.after sound (fun f v held => ?_) (fun _ there => there) (fun _ => Or.inl)
        fun _ => Or.inl
      simp only [RulesRedis.exec] at held
      by_cases here : f = encode field
      · rw [here, Function.update_self] at held
        cases held
      · rw [Function.update_of_ne here] at held
        exact Or.inl held
  | publishUpdate message =>
      obtain rfl : b' = _ := performed
      exact kept.unchanged rfl rfl rfl rfl rfl
  | publishPurge message =>
      obtain rfl : b' = _ := performed
      refine kept.after sound (fun _ _ => Or.inl) (fun _ there => there) (fun m mem => ?_)
        fun _ => Or.inl
      rcases List.mem_append.mp mem with before | new
      · exact Or.inl before
      · rw [List.mem_singleton.mp new]
        exact Or.inr (kept.audited order)
  | del keys =>
      obtain rfl : b' = _ := performed
      refine kept.after sound (fun _ _ => Or.inl) (fun _ there => there) (fun _ => Or.inl)
        fun k mem => ?_
      rcases List.mem_append.mp mem with before | new
      · exact Or.inl before
      · obtain ⟨pattern, audited, covers⟩ := order
        obtain ⟨row, there, same⟩ := kept.audited audited
        exact Or.inr ⟨row, there, pattern, same, covers k new⟩

/-- **Others keep the order.** -/
theorem Kept.changed (kept : Kept cfg h) (changes : Changes h b') : Kept cfg (h.after b') := by
  have rows := kept.rows _ h.now_mem
  cases changes with
  | keys keys => exact kept.unchanged rfl rfl rfl rfl rfl
  | stats stats => exact kept.unchanged rfl rfl rfl rfl rfl
  | @reconcile b command listed mem =>
      refine kept.after rows (fun f v held => ?_) (fun _ there => there) (fun _ => Or.inl)
        fun _ => Or.inl
      simp only [EdgeCache.RedisCoordinator.reconcileAll, List.mem_append, List.mem_cons,
        List.mem_map, List.not_mem_nil, or_false] at mem
      rcases mem with (rfl | ⟨row, there, rfl⟩) | rfl
      · cases held
      · simp only [RulesRedis.exec] at held
        by_cases here : f = row.pathPattern
        · rw [here, Function.update_self, Option.some.injEq] at held
          rw [here, ← held]
          exact Or.inr ⟨b, listed, row, there, rfl, rfl⟩
        · rw [Function.update_of_ne here] at held
          exact Or.inl held
      · exact Or.inl held

/-- Before the first request everything is in order. -/
theorem kept_empty : Kept cfg ⟨Backend.empty, []⟩ where
  rows b mem row there := by
    obtain rfl := List.mem_singleton.mp mem
    cases there
  hash field value held := by cases held
  log b mem row there := by
    obtain rfl := List.mem_singleton.mp mem
    cases there
  purged message mem := by cases mem
  evicted key mem := by cases mem

/-- **The order is kept at any time.** -/
theorem kept_of_reaches (reaches : (stores uuidIn timestampIn).Reaches (serve cfg isUrl)
    (Services.Process.initial Backend.empty) p) : Kept cfg p.history := by
  have called : ∀ h (q : ApiRequest × ℕ) c b r, Kept cfg h → May cfg q h c →
      (stores uuidIn timestampIn).answers h.now c b r → Kept cfg (h.after b) := by
    intro h q c b r kept may answered
    cases r with
    | ok v => exact kept.performed may.2 answered
    | error e =>
        rcases answered with rfl | ⟨v, performed⟩
        · exact kept.unchanged rfl rfl rfl rfl rfl
        · exact kept.performed may.2 performed
  exact Services.invariant_of_reaches serve_safe called
    (fun h b kept changes => kept.changed changes) kept_empty reaches
/-! ### The results -/

/-- **The proxies never see a rule that was not durable**: whatever a proxy reads from Redis at any
time, each of its rules is one of a row that has been in Postgres, with the same seconds. -/
theorem durable_of_reaches (reaches : (stores uuidIn timestampIn).Reaches (serve cfg isUrl)
      (Services.Process.initial Backend.empty) p)
    {listing : List (ByteString × ByteString)} (lists : Lists p.history.now.redis.hash listing)
    {rules : List EdgeCache.Rule} (read : reloadRules (hgetall listing).toReply = some rules)
    {rule : EdgeCache.Rule} (mem : rule ∈ rules) :
    ∃ b ∈ p.history, ∃ row ∈ b.rules.rows, rule = row.rule ∧ row.pathPattern ≠ [] ∧
      (rule.ttlSeconds.toNat : ℤ) = row.ttlSeconds.toInt ∧
      (rule.staleWhileRevalidateSeconds.toNat : ℤ) = row.staleWhileRevalidateSeconds.toInt := by
  have kept := kept_of_reaches reaches
  rw [reloadRules_hgetall, Option.some.injEq] at read
  obtain ⟨⟨field, value⟩, listed, rfl⟩ := List.mem_map.mp (read ▸ mem)
  obtain ⟨b, there, row, inside, rfl, rfl⟩ :=
    kept.hash field value ((lists.mem field value).mp listed)
  have sound := kept.rows b there row inside
  obtain ⟨-, ttl, swr, -⟩ := parseRuleJson_keeps row.pathPattern row sound.ttl sound.swr
  exact ⟨b, there, row, inside, parseRuleJson_ruleValue row, sound.nonempty, ttl, swr⟩

/-- **Every purge leaves a trace**: what was published to the proxies has an entry in the log, and
so has every key that was deleted, with a pattern that it matches. -/
theorem audited_of_reaches (reaches : (stores uuidIn timestampIn).Reaches (serve cfg isUrl)
      (Services.Process.initial Backend.empty) p) :
    (∀ message ∈ p.history.now.purged, ∃ row ∈ p.history.now.purges, row.pattern = message) ∧
      ∀ key ∈ p.history.now.evicted, ∃ row ∈ p.history.now.purges, ∃ pattern,
        row.pattern = encode pattern ∧ l2PathMatches cfg.l2KeyPrefix key pattern = true :=
  ⟨(kept_of_reaches reaches).purged, (kept_of_reaches reaches).evicted⟩

/-- What only the control plane writes is as it was. -/
def Untouched (b : Backend) (h : History Backend) : Prop :=
  h.now.origins = b.origins ∧ h.now.rules = b.rules ∧ h.now.purges = b.purges ∧
    h.now.purged = b.purged ∧ h.now.evicted = b.evicted

deriving instance DecidableEq for CreateRuleBody, PurgeBody

/-- A control plane with a key. -/
def plainConfig : Config := ⟨literal "k", literal "l2:"⟩

/-- A request with the key. -/
def keyed (endpoint : Endpoint) (members : List (JsString × JsValue)) : ApiRequest × ℕ :=
  (⟨.ok (.object members), some (literal "k"), none, none, endpoint⟩, 1)

/-- `POST /rules` for a pattern. -/
def postRule : ApiRequest × ℕ :=
  keyed .createRule [(literal "pathPattern", .string (literal "/a")),
    (literal "ttlSeconds", .number 60)]

/-- `POST /purge` for it. -/
def postPurge : ApiRequest × ℕ := keyed .purge [(literal "pattern", .string (literal "/a"))]

/-- The row of the rule. -/
def postedRow : RuleRow := ⟨ruleId, bytes "/a", 60, 0, none⟩

theorem authorized_keyed (endpoint : Endpoint) (members : List (JsString × JsValue)) :
    (keyed endpoint members).1.Authorized plainConfig := ⟨rfl, by decide +kernel⟩

/-- A request with the key is handled. -/
theorem serve_of_key {q : ApiRequest × ℕ} {body : JsValue} (read : q.1.body = .ok body)
    (key : q.1.Authorized cfg) : serve cfg isUrl q = handler cfg isUrl q.2 q.1 body := by
  have right : ¬ (cfg.adminApiKey = [] ∨ cfg.adminApiKey ≠ cfg.adminApiKey) := by
    simpa using key.2
  unfold serve buildApp
  rw [read, key.1]
  simp only [Bind.bind, Except.bind, right, if_false]
  rfl

theorem serve_postRule : serve plainConfig (fun _ => true) postRule =
    (await (.insertRule (literal "/a") 60 0 none)).bind fun rule : Rule =>
      ((RedisCoordinator.upsertRule rule).tryCatch fun _ => .pure ()).bind fun _ =>
        json 201 (.rule rule) := by
  have parsed : CreateRuleBody.safeParse (.object [(literal "pathPattern", .string (literal "/a")),
      (literal "ttlSeconds", .number 60)]) = some ⟨literal "/a", 60, none, 0⟩ := by
    decide +kernel
  refine (serve_of_key rfl (authorized_keyed _ _)).trans ?_
  simp only [keyed, handler, RulesRouter.post, parsed]
  rfl

theorem serve_postPurge : serve plainConfig (fun _ => true) postPurge =
    (await (.insertPurge (literal "/a") (literal "unknown"))).bind fun entry : PurgeLogEntry =>
      ((RedisCoordinator.purgeL2 plainConfig 1 (literal "/a")).tryCatch fun _ => .pure 0).bind
        fun l2Evicted => (await (.publishPurge (literal "/a"))).bind fun subscribers =>
          json 202 (.purged (literal "/a") entry.id subscribers l2Evicted) := by
  have parsed : PurgeBody.safeParse (.object [(literal "pattern", .string (literal "/a"))]) =
      some ⟨literal "/a"⟩ := by decide +kernel
  refine (serve_of_key rfl (authorized_keyed _ _)).trans ?_
  simp only [keyed, handler, PurgeRouter.post, parsed]
  rfl

/-- Postgres without ids and times, and Redis. -/
abbrev plainStores : Services Backend JsError Call.Reply := stores (fun _ => none) fun _ => none

/-- The process after some steps. -/
abbrev Served (p : Services.Process Backend JsError Call.Reply ApiResponse Unit (ApiRequest × ℕ)) :
    Prop :=
  plainStores.Reaches (serve plainConfig fun _ => true)
    (Services.Process.initial Backend.empty) p

theorem exists_start (served : Served p) {u : ℕ} (q : ApiRequest × ℕ) (unused : p.tasks u = none) :
    ∃ p', Served p' ∧ p'.history.now = p.history.now ∧ p'.told = p.told ∧
      p'.tasks u = some (q, serve plainConfig (fun _ => true) q) ∧
      ∀ v, v ≠ u → p'.tasks v = p.tasks v :=
  ⟨_, served.tail (.start unused), rfl, rfl, Function.update_self .., fun _ apart =>
    Function.update_of_ne apart ..⟩

theorem exists_call {b : Backend} (served : Served p) (now : p.history.now = b) {u : ℕ}
    {q : ApiRequest × ℕ} {c : Call} {k : Except JsError c.Reply → Op Unit}
    (running : p.tasks u = some (q, .await c k)) {b' : Backend} (v : c.Reply)
    (performed : Performs (fun _ => none) (fun _ => none) b c b' v) :
    ∃ p', Served p' ∧ p'.history.now = b' ∧ p'.told = p.told ∧ p'.tasks u = some (q, k (.ok v)) ∧
      ∀ w, w ≠ u → p'.tasks w = p.tasks w := by
  subst now
  have answered : plainStores.answers p.history.now c b' (.ok v) := performed
  exact ⟨_, served.tail (.call running answered), rfl, rfl, Function.update_self ..,
    fun _ apart => Function.update_of_ne apart ..⟩

theorem exists_send (served : Served p) {u : ℕ} {q : ApiRequest × ℕ} {w : ApiResponse}
    {next : Op Unit} (running : p.tasks u = some (q, .send w next)) :
    ∃ p', Served p' ∧ p'.history.now = p.history.now ∧ p'.told = (q, w) :: p.told ∧
      ∀ v, v ≠ u → p'.tasks v = p.tasks v :=
  ⟨_, served.tail (.send running), rfl, rfl, fun _ apart => Function.update_of_ne apart ..⟩

/-- The stores with the rule. -/
def withRule : Backend :=
  { Backend.empty with
    rules := ⟨[postedRow], List.pairwise_singleton _ _⟩
    redis := (Backend.empty.redis.exec (.hset (encode (mapRow postedRow).pathPattern)
      (encode (RedisCoordinator.ruleValue (mapRow postedRow))))).exec
        (.publish (encode (mapRow postedRow).pathPattern)) }

/-- The rule is created, copied and answered. -/
theorem exists_posted : ∃ p, Served p ∧ p.history.now = withRule ∧
    p.told = [(postRule, ⟨201, .rule (mapRow postedRow)⟩)] ∧ p.tasks 1 = none := by
  have inserted : Performs (fun _ => none) (fun _ => none) Backend.empty
      (.insertRule (literal "/a") 60 0 none)
      { Backend.empty with rules := ⟨[postedRow], List.pairwise_singleton _ _⟩ }
      (mapRow postedRow) := by
    refine ⟨⟨bytes "/a", 60, none, 0⟩, ruleId, postedRow, _, by decide +kernel, ?_, ?_, rfl, rfl⟩
    · exact fun id mem => by cases mem
    · unfold EdgeCache.RulesRepo.create
      rw [dif_pos fun row mem => by cases mem]
      rfl
  obtain ⟨p₁, served, now, told, running, others⟩ :=
    exists_start (p := Services.Process.initial Backend.empty) .refl (u := 0) postRule rfl
  rw [serve_postRule] at running
  obtain ⟨p₂, served, now₂, told₂, running, others₂⟩ :=
    exists_call served now running (mapRow postedRow) inserted
  obtain ⟨p₃, served, now₃, told₃, running, others₃⟩ := exists_call served now₂ running () rfl
  obtain ⟨p₄, served, now₄, told₄, running, others₄⟩ := exists_call served now₃ running () rfl
  obtain ⟨p₅, served, now₅, told₅, others₅⟩ := exists_send served running
  refine ⟨p₅, served, now₅.trans now₄, ?_, ?_⟩
  · rw [told₅, told₄, told₃, told₂, told]
    rfl
  · rw [others₅ 1 (by decide), others₄ 1 (by decide), others₃ 1 (by decide), others₂ 1 (by decide),
      others 1 (by decide)]
    rfl

/-- The entry of the purge. -/
def postedPurge : PurgeRow := ⟨ruleId, bytes "/a", bytes "unknown"⟩

/-- Then the pattern is purged. -/
theorem exists_purged : ∃ p, Served p ∧ p.history.now.redis = withRule.redis ∧
    p.history.now.purged = [bytes "/a"] ∧
    (postPurge, ⟨202, .purged (literal "/a") ruleId 1 0⟩) ∈ p.told := by
  obtain ⟨p, served, now, told, unused⟩ := exists_posted
  have logged : Performs (fun _ => none) (fun _ => none) withRule
      (.insertPurge (literal "/a") (literal "unknown"))
      { withRule with purges := [postedPurge] } postedPurge.entry :=
    ⟨postedPurge, by decide +kernel, by decide +kernel, fun row mem => (List.not_mem_nil mem).elim,
      rfl, rfl⟩
  have scanned : Performs (fun _ => none) (fun _ => none)
      { withRule with purges := [postedPurge] } (.scan (literal "0"))
      { withRule with purges := [postedPurge] } (literal "0", []) :=
    ⟨fun k mem => (List.not_mem_nil mem).elim, rfl⟩
  obtain ⟨p₁, served, now₁, -, running, -⟩ := exists_start served postPurge unused
  rw [serve_postPurge] at running
  obtain ⟨p₂, served, now₂, -, running, -⟩ :=
    exists_call served (now₁.trans now) running postedPurge.entry logged
  obtain ⟨p₃, served, now₃, -, running, -⟩ :=
    exists_call served now₂ running (literal "0", []) scanned
  simp only [Async.settle, Async.bind, List.filter_nil, if_true] at running
  obtain ⟨p₄, served, now₄, -, running, -⟩ := exists_call served now₃ running (1 : ℕ) rfl
  obtain ⟨p₅, served, now₅, told₅, -⟩ := exists_send served running
  refine ⟨p₅, served, ?_, ?_, ?_⟩
  · rw [now₅, now₄]
  · rw [now₅, now₄]
    decide +kernel
  · rw [told₅]
    exact List.mem_cons_self

/-- The hash lists the rule, and nothing else. -/
theorem lists_withRule : Lists withRule.redis.hash
    [(bytes "/a", EdgeCache.RedisCoordinator.ruleValue postedRow)] where
  mem field value := by
    have name : encode (mapRow postedRow).pathPattern = bytes "/a" := by decide +kernel
    have text := encode_ruleValue postedRow
    simp only [withRule, RulesRedis.exec, name, text, List.mem_singleton, Prod.mk.injEq]
    by_cases here : field = bytes "/a"
    · rw [here, Function.update_self, Option.some.injEq]
      exact ⟨fun both => both.2.symm, fun same => ⟨rfl, same.symm⟩⟩
    · rw [Function.update_of_ne here]
      exact ⟨fun both => absurd both.1 here, fun held => by cases held⟩
  nodup := by simp

/-- The proxies see the rule that was posted. -/
theorem durable_posted : ∃ p, Served p ∧
    ∃ b ∈ p.history, ∃ row ∈ b.rules.rows, postedRow.rule = row.rule ∧ row.pathPattern ≠ [] ∧
      (postedRow.rule.ttlSeconds.toNat : ℤ) = row.ttlSeconds.toInt ∧
      (postedRow.rule.staleWhileRevalidateSeconds.toNat : ℤ) =
        row.staleWhileRevalidateSeconds.toInt := by
  obtain ⟨p, served, now, -⟩ := exists_posted
  refine ⟨p, served, durable_of_reaches served (now ▸ lists_withRule) (reloadRules_hgetall _) ?_⟩
  simp only [List.map_cons, List.map_nil, List.mem_singleton]
  exact (parseRuleJson_ruleValue postedRow).symm

/-- The purge that was posted is in the log. -/
theorem audited_posted : ∃ p, Served p ∧ p.history.now.purged = [bytes "/a"] ∧
    ∃ row ∈ p.history.now.purges, row.pattern = bytes "/a" := by
  obtain ⟨p, served, -, purged, -⟩ := exists_purged
  exact ⟨p, served, purged, (audited_of_reaches served).1 _ (purged ▸ List.mem_cons_self)⟩

end Runs

end EdgeCache.ControlPlane

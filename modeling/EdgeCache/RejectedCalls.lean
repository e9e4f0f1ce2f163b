import EdgeCache.Api

/-!
# Calls that are rejected

The handlers catch what Redis refuses them, except for the publication of a purge, and nothing that
Postgres refuses them.  What they do not catch rejects the promise that Express ignores; the error
handler never hears of it.

* `handler_answers` — where the rejections of a handler go, and with what it ends.
* `served_of_rejected` — **after an uncaught rejection the client gets no response**, and the
  rejection is nobody's.
* `served_of_kept` — in every other run the client is waiting, or has got one response.
-/

namespace EdgeCache.ControlPlane

open Async

/-- The calls whose rejections are not caught: the queries, and the publication of a purge. -/
def Call.Uncaught : Call → Prop
  | .hset _ _ | .hdel _ | .publishUpdate _ | .scan _ | .del _ => False
  | _ => True

/-- One response has been written, and it is no server error. -/
def Written (out : List ApiResponse) (_ : Unit) : Prop := ∃ w, out = [w] ∧ w.status < 500

/-! ## The handlers -/

theorem answers_json {status : ℕ} {body : ApiBody} (ok : status < 500) :
    (json status body).Answers Call.Uncaught Written := ⟨(), rfl, _, rfl, ok⟩

/-- A call that is caught, inside `try`. -/
theorem guarded_await {c : Call} {post : c.Reply → Prop} {fails : JsError → Prop}
    (inner : ¬ c.Uncaught) (value : ∀ v, post v) (failed : ∀ e, fails e) :
    (await c).Guarded Call.Uncaught post fails := guarded_call inner value failed

/-- What is sent to Redis for a rule is caught. -/
theorem answers_mirror {redis : Op Unit} {rest : Op Unit}
    (guarded : redis.Guarded Call.Uncaught (fun _ => rest.Answers Call.Uncaught Written)
      fun _ => rest.Answers Call.Uncaught Written) :
    ((redis.tryCatch fun _ => .pure ()).bind fun _ => rest).Answers Call.Uncaught Written :=
  guarded.answers_tryCatch_bind

/-- Two commands for Redis, one after the other. -/
theorem guarded_commands {c c' : Call} (inner : ¬ c.Uncaught) (inner' : ¬ c'.Uncaught)
    {rest : Prop} (goes : rest) :
    ((await c).bind fun _ => (await c').bind fun _ => .pure ()).Guarded Call.Uncaught
      (fun _ => rest) fun _ => rest := by
  refine Guarded.bind (guarded_await inner (fun _ => ?_) fun _ => goes)
  exact Guarded.bind (guarded_await inner' (fun _ => goes) fun _ => goes)

theorem guarded_upsertRule (rule : Rule) {rest : Prop} (goes : rest) :
    (RedisCoordinator.upsertRule rule).Guarded Call.Uncaught (fun _ => rest) fun _ => rest :=
  @guarded_commands (.hset _ _) (.publishUpdate _) not_false not_false rest goes

theorem guarded_removeRule (pathPattern : JsString) {rest : Prop} (goes : rest) :
    (RedisCoordinator.removeRule pathPattern).Guarded Call.Uncaught (fun _ => rest) fun _ => rest :=
  @guarded_commands (.hdel _) (.publishUpdate _) not_false not_false rest goes

/-- The pages of a purge are caught, however many there are. -/
theorem guarded_scanPages (cfg : Config) (pattern : JsString) {post : ℕ → Prop}
    {fails : JsError → Prop} (value : ∀ n, post n) (failed : ∀ e, fails e) (pages : ℕ)
    (cursor : JsString) (deleted : ℕ) :
    (RedisCoordinator.scanPages cfg pattern pages cursor deleted).Guarded Call.Uncaught post
      fails := by
  induction pages generalizing cursor deleted with
  | zero => trivial
  | succ pages ih =>
      refine Guarded.bind (guarded_await not_false (fun page => ?_) failed)
      -- What comes after the deletion does not depend on whether there was one.
      have next : ∀ more : ℕ, (if page.1 = literal "0" then Async.pure (deleted + more)
          else RedisCoordinator.scanPages cfg pattern pages page.1 (deleted + more) :
            Op ℕ).Guarded Call.Uncaught post fails := by
        intro more
        split
        · exact value _
        · exact ih _ _
      simp only
      split
      · exact next 0
      · exact Guarded.bind (guarded_await not_false next failed)

theorem answers_originsPost (isUrl : JsString → Bool) (body : JsValue) :
    (OriginsRouter.post isUrl body).Answers Call.Uncaught Written := by
  unfold OriginsRouter.post
  split
  · exact answers_json (by decide)
  · exact answers_call_bind trivial fun origin => answers_json (by decide)

theorem answers_rulesPost (body : JsValue) :
    (RulesRouter.post body).Answers Call.Uncaught Written := by
  unfold RulesRouter.post
  split
  · exact answers_json (by decide)
  · exact answers_call_bind trivial fun rule =>
      answers_mirror (guarded_upsertRule rule (answers_json (by decide)))

theorem answers_rulesPut (id : JsString) (body : JsValue) :
    (RulesRouter.put id body).Answers Call.Uncaught Written := by
  unfold RulesRouter.put
  split
  · exact answers_json (by decide)
  · refine answers_call_bind trivial fun (rows : List Rule) => ?_
    cases rows with
    | nil => exact answers_json (by decide)
    | cons rule rows => exact answers_mirror (guarded_upsertRule rule (answers_json (by decide)))

theorem answers_rulesDelete (id : JsString) :
    (RulesRouter.delete id).Answers Call.Uncaught Written := by
  refine answers_call_bind trivial fun (rows : List Rule) => ?_
  cases rows with
  | nil => exact answers_json (by decide)
  | cons rule rows => exact answers_mirror (guarded_removeRule _ (answers_json (by decide)))

theorem answers_purgePost (cfg : Config) (pages : ℕ) (actor ip : Option JsString)
    (body : JsValue) :
    (PurgeRouter.post cfg pages actor ip body).Answers Call.Uncaught Written := by
  unfold PurgeRouter.post
  split
  · exact answers_json (by decide)
  · rename_i data _
    refine answers_call_bind trivial fun entry => ?_
    have publish : ∀ l2Evicted : ℕ, ((RedisCoordinator.publishPurge data.pattern).bind
        fun subscribers => json 202 (.purged data.pattern entry.id subscribers l2Evicted)).Answers
          Call.Uncaught Written := fun l2Evicted =>
      answers_call_bind trivial fun subscribers => answers_json (by decide)
    exact Guarded.answers_tryCatch_bind
      (guarded_scanPages cfg data.pattern publish (fun _ => publish 0) pages _ 0)

theorem answers_stats (path fromTime toTime : Option JsString) :
    (StatsRouter.get path fromTime toTime).Answers Call.Uncaught Written :=
  ⟨Iff.rfl, fun _ => answers_json (by decide),
    fun _ => ⟨fun _ => rfl, fun inner => absurd trivial inner⟩⟩

/-- **Every handler** lets the rejections of its queries and of the publication of a purge through,
handles all others, and ends with one response. -/
theorem handler_answers (cfg : Config) (isUrl : JsString → Bool) (pages : ℕ) (req : ApiRequest)
    (body : JsValue) : (handler cfg isUrl pages req body).Answers Call.Uncaught Written := by
  unfold handler
  split
  · exact answers_originsPost isUrl body
  · exact answers_call_bind trivial fun origins => answers_json (by decide)
  · exact answers_rulesPost body
  · exact answers_call_bind trivial fun rules => answers_json (by decide)
  · exact answers_rulesPut _ body
  · exact answers_rulesDelete _
  · exact answers_purgePost cfg pages _ _ body
  · exact answers_call_bind trivial fun entries => answers_json (by decide)
  · exact answers_stats _ _ _

/-! ## The requests -/

variable {cfg : Config} {isUrl : JsString → Bool} {pages : ℕ} {req : ApiRequest}
  {replies : List (Reply JsError Call.Reply)} {exchange : Exchange}

/-- **What the application does with a request** is an error that Express handles, or a function
whose promise it ignores. -/
theorem buildApp_answers : (∃ e, buildApp cfg isUrl pages req = .error e) ∨
    ∃ x, buildApp cfg isUrl pages req = .ok x ∧ x.Answers Call.Uncaught Written := by
  unfold buildApp
  cases req.body with
  | error e => exact Or.inl ⟨e, rfl⟩
  | ok body =>
      refine Or.inr ?_
      cases req.token with
      | none => exact ⟨_, rfl, answers_json (by decide)⟩
      | some token =>
          by_cases refused : token = [] ∨ token ≠ cfg.adminApiKey
          · exact ⟨_, if_pos refused, answers_json (by decide)⟩
          · exact ⟨_, if_neg refused, handler_answers cfg isUrl pages req body⟩

/-- The admin key opens the routes. -/
theorem buildApp_of_token {body : JsValue} (read : req.body = .ok body)
    (admitted : req.token = some cfg.adminApiKey) (nonempty : cfg.adminApiKey ≠ []) :
    buildApp cfg isUrl pages req = .ok (handler cfg isUrl pages req body) := by
  unfold buildApp
  rw [read, admitted]
  exact if_neg (by simp [nonempty])

/-- **After an uncaught rejection** the client gets no response, and nobody handles it. -/
theorem served_of_rejected (served : Serves (buildApp cfg isUrl pages req) replies exchange)
    (rejected : Exposes Call.Uncaught replies) :
    exchange.responses = [] ∧ ∃ e, exchange.unhandled = some e := by
  rcases @buildApp_answers cfg isUrl pages req with ⟨e, failed⟩ | ⟨x, called, answers⟩
  · rw [failed] at served
    cases served
    exact absurd rejected not_exposes_nil
  · rw [called] at served
    cases served with
    | called run =>
        obtain ⟨rfl, e, rfl⟩ := answers.rejected_of_run run rejected
        exact ⟨rfl, e, rfl⟩

/-- **In every other run** the client waits, or has got one response; no rejection is left. -/
theorem served_of_kept (served : Serves (buildApp cfg isUrl pages req) replies exchange)
    (kept : ¬ Exposes Call.Uncaught replies) :
    (exchange.responses = [] ∨ ∃ w, exchange.responses = [w]) ∧ exchange.unhandled = none := by
  rcases @buildApp_answers cfg isUrl pages req with ⟨e, failed⟩ | ⟨x, called, answers⟩
  · rw [failed] at served
    cases served
    exact ⟨Or.inr ⟨_, rfl⟩, rfl⟩
  · rw [called] at served
    cases served with
    | called run =>
        rcases answers.settled_of_run run kept with ⟨rfl, rfl⟩ | ⟨a, rfl, w, rfl, -⟩
        · exact ⟨Or.inl rfl, rfl⟩
        · exact ⟨Or.inr ⟨w, rfl⟩, rfl⟩

/-- What the error handler is for: one response, a server error, and no rejection left. -/
def Exchange.CleanError (exchange : Exchange) : Prop :=
  (∃ w, exchange.responses = [w] ∧ 500 ≤ w.status ∧ w.status < 600) ∧ exchange.unhandled = none

/-- **No uncaught rejection becomes a clean error**, on any route. -/
theorem not_cleanError_of_rejected (served : Serves (buildApp cfg isUrl pages req) replies exchange)
    (rejected : ∃ c e, c.Uncaught ∧ (⟨c, .error e⟩ : Reply JsError Call.Reply) ∈ replies) :
    ¬ exchange.CleanError := by
  rintro ⟨⟨w, written, -⟩, -⟩
  rw [(served_of_rejected served rejected).1] at written
  cases written

/-! ## Two requests that fail -/

/-- The configuration of the examples. -/
def exampleConfig : Config := ⟨literal "key", literal "edgecache:l2:"⟩

/-- A request with the admin key. -/
def adminRequest (endpoint : Endpoint) (body : JsValue) : ApiRequest :=
  ⟨.ok body, some (literal "key"), none, none, endpoint⟩

/-- `GET /rules` while Postgres is down. -/
theorem not_cleanError_listRules :
    ∃ exchange, Serves (buildApp exampleConfig (fun _ => true) 1 (adminRequest .listRules .null))
        [⟨.listRules, .error (literal "down")⟩] exchange ∧ ¬ exchange.CleanError := by
  have served : Serves (buildApp exampleConfig (fun _ => true) 1 (adminRequest .listRules .null))
      [⟨.listRules, .error (literal "down")⟩] ⟨[], some (literal "down")⟩ := by
    rw [buildApp_of_token rfl rfl (by decide +kernel)]
    exact .called (p := .rejected (literal "down")) (.reply (.throw _))
  exact ⟨_, served, not_cleanError_of_rejected served
    ⟨.listRules, literal "down", trivial, List.mem_cons_self⟩⟩

/-- The body of a purge of everything. -/
def purgeAll : JsValue := .object [(literal "pattern", .string (literal "*"))]

/-- The replies to a purge while Redis is down: the audit entry has been written, the deletion from
L2 has failed, and the publication fails. -/
def redisDown : List (Reply JsError Call.Reply) :=
  [⟨.insertPurge (literal "*") (literal "unknown"), .ok ⟨ruleId, literal "*", literal "unknown"⟩⟩,
    ⟨.scan (literal "0"), .error (literal "down")⟩,
    ⟨.publishPurge (literal "*"), .error (literal "down")⟩]

/-- **A purge that cannot be published gets no answer.** -/
theorem not_forall_cleanError :
    ¬ ∀ (cfg : Config) (isUrl : JsString → Bool) (pages : ℕ) (req : ApiRequest)
        (replies : List (Reply JsError Call.Reply)) (exchange : Exchange),
        Serves (buildApp cfg isUrl pages req) replies exchange →
        (∃ c e, c.Uncaught ∧ (⟨c, .error e⟩ : Reply JsError Call.Reply) ∈ replies) →
          exchange.CleanError := by
  intro all
  have parsed : PurgeBody.safeParse purgeAll = some ⟨literal "*"⟩ := rfl
  have served : Serves (buildApp exampleConfig (fun _ => true) 1 (adminRequest .purge purgeAll))
      redisDown ⟨[], some (literal "down")⟩ := by
    rw [buildApp_of_token rfl rfl (by decide +kernel)]
    refine .called (p := .rejected (literal "down")) ?_
    change (PurgeRouter.post exampleConfig 1 none none purgeAll).Run _ _ _
    rw [PurgeRouter.post, parsed]
    exact .reply (.reply (.reply (.throw _)))
  have clean := all exampleConfig (fun _ => true) 1 (adminRequest .purge purgeAll) redisDown _
    served ⟨.publishPurge (literal "*"), literal "down", trivial, by simp [redisDown]⟩
  obtain ⟨⟨w, written, -⟩, -⟩ := clean
  cases written

end EdgeCache.ControlPlane

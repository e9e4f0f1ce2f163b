import EdgeCache.Bytes
import EdgeCache.Lib.Transition

/-!
# The rules in Postgres and in Redis

The control plane keeps the cache rules in a table of Postgres, by id, and copies them to a hash
of Redis, by pattern, from which the proxies load them.  `RulesRepo` is the table,
`RedisCoordinator` sends the commands that follow a change of it, and `serve` is what one
successful request of `rulesRouter` does to both.

* `mirrorOf_reconcileAll` — after the start the hash mirrors the table.
* `mirror_serve_iff` — **what one request keeps**: the hash mirrors the table after a request
  exactly if the request does not take a pattern away from its row, or does so where the rows that
  are left agree with the hash.
* `mirror_iff` — the same for every request of a run.
-/

namespace EdgeCache

open Transition

/-! ## The table -/

/-- A byte of the text of a UUID. -/
def isUuidByte (c : UInt8) : Bool := isdigit c || (97 ≤ c && c ≤ 102) || c == 45

/-- The text of a `UUID` column. -/
structure Uuid where
  text : ByteString
  plain : ∀ c ∈ text, isUuidByte c = true
  length_eq : text.length = 36
  deriving DecidableEq

/-- A row of `cache_rules`, with its `TEXT` as UTF-8 and its `INT`s. -/
structure RuleRow where
  id : Uuid
  pathPattern : ByteString
  ttlSeconds : Int32
  staleWhileRevalidateSeconds : Int32
  originId : Option Uuid
  deriving DecidableEq

/-- The body of `POST /rules`.  Numbers that no `INT` takes make the query fail. -/
structure CreateRule where
  pathPattern : ByteString
  ttlSeconds : Int32
  originId : Option Uuid
  staleWhileRevalidateSeconds : Int32
  deriving DecidableEq

/-- What the schema of the body checks. -/
def CreateRule.valid (body : CreateRule) : Bool :=
  body.pathPattern ≠ [] && 0 ≤ body.ttlSeconds && 0 ≤ body.staleWhileRevalidateSeconds

/-- The body of `PUT /rules/:id`; `originId` is `none` where it is absent or `null`. -/
structure UpdateRule where
  pathPattern : Option ByteString
  ttlSeconds : Option Int32
  originId : Option Uuid
  staleWhileRevalidateSeconds : Option Int32
  deriving DecidableEq

/-- What the schema of the body checks. -/
def UpdateRule.valid (body : UpdateRule) : Bool :=
  body.pathPattern ≠ some [] && body.ttlSeconds.all (fun n => 0 ≤ n) &&
    body.staleWhileRevalidateSeconds.all (fun n => 0 ≤ n)

/-- The table `cache_rules`: no two rows have one id. -/
structure RuleTable where
  rows : List RuleRow
  distinct : rows.Pairwise fun a b => a.id ≠ b.id
  deriving DecidableEq

/-- The `SET` clause of `UPDATE`: every column is kept for which there is no new value. -/
def RuleRow.patch (row : RuleRow) (body : UpdateRule) : RuleRow where
  id := row.id
  pathPattern := body.pathPattern.getD row.pathPattern
  ttlSeconds := body.ttlSeconds.getD row.ttlSeconds
  staleWhileRevalidateSeconds :=
    body.staleWhileRevalidateSeconds.getD row.staleWhileRevalidateSeconds
  originId := body.originId.or row.originId

namespace RulesRepo

/-- `RulesRepo.create` with the id that Postgres generates; a taken one makes the query fail. -/
def create (t : RuleTable) (id : Uuid) (input : CreateRule) : Option (RuleRow × RuleTable) :=
  if fresh : ∀ row ∈ t.rows, row.id ≠ id then
    let row : RuleRow :=
      ⟨id, input.pathPattern, input.ttlSeconds, input.staleWhileRevalidateSeconds, input.originId⟩
    some (row, ⟨t.rows ++ [row], List.pairwise_append.mpr
      ⟨t.distinct, List.pairwise_singleton _ _, fun a mem _ mem' =>
        List.mem_singleton.mp mem' ▸ fresh a mem⟩⟩)
  else none

/-- `RulesRepo.get`. -/
def get (t : RuleTable) (id : Uuid) : Option RuleRow := t.rows.find? fun row => row.id = id

/-- The table after an `UPDATE` of the rows with an id. -/
def updated (t : RuleTable) (id : Uuid) (body : UpdateRule) : RuleTable where
  rows := t.rows.map fun row => if row.id = id then row.patch body else row
  distinct := List.pairwise_map.mpr <| t.distinct.imp fun ne => by
    have same (row : RuleRow) : (if row.id = id then row.patch body else row).id = row.id := by
      split <;> rfl
    rwa [same, same]

/-- `RulesRepo.update`. -/
def update (t : RuleTable) (id : Uuid) (body : UpdateRule) : Option (RuleRow × RuleTable) :=
  (get t id).map fun row => (row.patch body, updated t id body)

/-- `RulesRepo.remove`. -/
def remove (t : RuleTable) (id : Uuid) : Option (RuleRow × RuleTable) :=
  (get t id).map fun row =>
    (row, ⟨t.rows.filter fun row => row.id ≠ id, t.distinct.sublist List.filter_sublist⟩)

end RulesRepo

/-! ## The hash -/

/-- The commands that the control plane sends to Redis for the rules. -/
inductive Command
  | hset (field value : ByteString)
  | hdel (field : ByteString)
  | del
  | publish (message : ByteString)
  deriving DecidableEq

/-- The rules hash, and what has been published on the channel of rule updates. -/
structure RulesRedis where
  hash : ByteString → Option ByteString
  published : List ByteString

/-- Redis executes a command. -/
def RulesRedis.exec (r : RulesRedis) : Command → RulesRedis
  | .hset field value => { r with hash := Function.update r.hash field (some value) }
  | .hdel field => { r with hash := Function.update r.hash field none }
  | .del => { r with hash := fun _ => none }
  | .publish message => { r with published := r.published ++ [message] }

namespace RedisCoordinator

/-- `ruleValue`: the text of a JSON object. -/
def ruleValue (rule : RuleRow) : ByteString :=
  bytes "\x7b\"ttl\":" ++ intToString rule.ttlSeconds.toInt ++
    bytes ",\"swr\":" ++ intToString rule.staleWhileRevalidateSeconds.toInt ++
    bytes ",\"originId\":\"" ++ (rule.originId.map Uuid.text).getD [] ++ bytes "\"\x7d"

/-- The commands of `upsertRule`. -/
def upsertRule (rule : RuleRow) : List Command :=
  [.hset rule.pathPattern (ruleValue rule), .publish rule.pathPattern]

/-- The commands of `removeRule`. -/
def removeRule (pathPattern : ByteString) : List Command :=
  [.hdel pathPattern, .publish pathPattern]

/-- The commands of `reconcileAll`. -/
def reconcileAll (rules : List RuleRow) : List Command :=
  .del :: (rules.map fun rule => .hset rule.pathPattern (ruleValue rule)) ++
    [.publish (bytes "*")]

end RedisCoordinator

open RedisCoordinator

/-! ## The routes -/

/-- A request that changes the rules, with the id that `POST` is given. -/
inductive RuleRequest
  | post (id : Uuid) (body : CreateRule)
  | put (id : Uuid) (body : UpdateRule)
  | delete (id : Uuid)
  deriving DecidableEq

/-- Postgres and Redis. -/
structure Stores where
  table : RuleTable
  redis : RulesRedis

/-- A successful request of `rulesRouter`, while neither store fails; `none` where the answer is
not a success. -/
def serve (s : Stores) : RuleRequest → Option Stores
  | .post id body =>
      if body.valid then
        (RulesRepo.create s.table id body).map fun (rule, table) =>
          ⟨table, (upsertRule rule).foldl RulesRedis.exec s.redis⟩
      else none
  | .put id body =>
      if body.valid then
        (RulesRepo.update s.table id body).map fun (rule, table) =>
          ⟨table, (upsertRule rule).foldl RulesRedis.exec s.redis⟩
      else none
  | .delete id =>
      (RulesRepo.remove s.table id).map fun (rule, table) =>
        ⟨table, (removeRule rule.pathPattern).foldl RulesRedis.exec s.redis⟩

/-! ## What a request does -/

section Requests

variable {s t : Stores} {id : Uuid}

theorem mem_of_get {table : RuleTable} {row : RuleRow} (found : RulesRepo.get table id = some row) :
    row ∈ table.rows ∧ row.id = id :=
  ⟨List.mem_of_find?_eq_some found, by simpa using List.find?_some found⟩

/-- An id belongs to one row. -/
theorem RuleTable.eq_of_id_eq (table : RuleTable) {row other : RuleRow} (mem : row ∈ table.rows)
    (mem' : other ∈ table.rows) (same : row.id = other.id) : row = other :=
  List.inj_on_of_nodup_map (List.pairwise_map.mpr table.distinct) mem mem' same

theorem serve_post {body : CreateRule} (served : serve s (.post id body) = some t) :
    ∃ row, t.table.rows = s.table.rows ++ [row] ∧
      t.redis.hash = Function.update s.redis.hash row.pathPattern (some (ruleValue row)) := by
  rw [serve, RulesRepo.create] at served
  split at served
  · split at served
    · cases served
      exact ⟨_, rfl, rfl⟩
    · cases served
  · cases served

theorem serve_put {body : UpdateRule} (served : serve s (.put id body) = some t) :
    ∃ row, (row ∈ s.table.rows ∧ row.id = id) ∧ t.table = RulesRepo.updated s.table id body ∧
      t.redis.hash = Function.update s.redis.hash (row.patch body).pathPattern
        (some (ruleValue (row.patch body))) := by
  rw [serve, RulesRepo.update] at served
  split at served
  · rw [Option.map_map, Option.map_eq_some_iff] at served
    obtain ⟨row, found, rfl⟩ := served
    exact ⟨row, mem_of_get found, rfl, rfl⟩
  · cases served

theorem serve_delete (served : serve s (.delete id) = some t) :
    ∃ row, (row ∈ s.table.rows ∧ row.id = id) ∧
      t.table.rows = s.table.rows.filter (fun row => row.id ≠ id) ∧
      t.redis.hash = Function.update s.redis.hash row.pathPattern none := by
  rw [serve, RulesRepo.remove, Option.map_map, Option.map_eq_some_iff] at served
  obtain ⟨row, found, rfl⟩ := served
  exact ⟨row, mem_of_get found, rfl, rfl⟩

/-- The rows after an `UPDATE`: the new one, and the others. -/
theorem mem_updated {table : RuleTable} {row : RuleRow} (mem : row ∈ table.rows)
    (same : row.id = id) (body : UpdateRule) {r : RuleRow} :
    r ∈ (RulesRepo.updated table id body).rows ↔
      r = row.patch body ∨ (r ∈ table.rows ∧ r.id ≠ id) := by
  constructor
  · intro there
    obtain ⟨old, before, rfl⟩ := List.mem_map.mp there
    by_cases here : old.id = id
    · rw [if_pos here, table.eq_of_id_eq before mem (here.trans same.symm)]
      exact Or.inl rfl
    · rw [if_neg here]
      exact Or.inr ⟨before, here⟩
  · rintro (rfl | ⟨before, other⟩)
    · exact List.mem_map.mpr ⟨row, mem, if_pos same⟩
    · exact List.mem_map.mpr ⟨r, before, if_neg other⟩

/-! ## The mirror -/

/-- **The hash mirrors a list of rows**: every field is the value of a row of its pattern, and every
pattern is a field. -/
structure MirrorOf (hash : ByteString → Option ByteString) (rows : List RuleRow) : Prop where
  field : ∀ pattern value, hash pattern = some value →
    ∃ row ∈ rows, row.pathPattern = pattern ∧ ruleValue row = value
  row : ∀ row ∈ rows, hash row.pathPattern ≠ none

/-- The hash mirrors the table. -/
def Stores.Mirror (s : Stores) : Prop := MirrorOf s.redis.hash s.table.rows

/-- **When a request keeps the mirror**: the row keeps its pattern, or another row of that pattern
is the one whose value the hash holds; a row is deleted that is alone with its pattern. -/
def Keeps (s : Stores) : RuleRequest → Prop
  | .post _ _ => True
  | .put id body => ∀ row ∈ s.table.rows, row.id = id →
      body.pathPattern.getD row.pathPattern = row.pathPattern ∨
        ∃ other ∈ s.table.rows, other.id ≠ id ∧ other.pathPattern = row.pathPattern ∧
          s.redis.hash row.pathPattern = some (ruleValue other)
  | .delete id => ∀ row ∈ s.table.rows, row.id = id →
      ∀ other ∈ s.table.rows, other.pathPattern = row.pathPattern → other.id = id

/-- What `HSET` leaves of the hash. -/
theorem update_hash_ne_none {hash : ByteString → Option ByteString}
    {field value pattern : ByteString} (some_ : hash pattern ≠ none) :
    Function.update hash field (some value) pattern ≠ none := by
  by_cases here : pattern = field
  · rw [here, Function.update_self]
    exact Option.some_ne_none _
  · rwa [Function.update_of_ne here]

/-- `HSET` of a further row. -/
theorem MirrorOf.hset {hash : ByteString → Option ByteString} {rows : List RuleRow}
    (mirror : MirrorOf hash rows) (new : RuleRow) :
    MirrorOf (Function.update hash new.pathPattern (some (ruleValue new))) (rows ++ [new]) := by
  refine ⟨fun pattern value held => ?_, fun row mem => ?_⟩
  · by_cases here : pattern = new.pathPattern
    · subst here
      rw [Function.update_self, Option.some.injEq] at held
      exact ⟨new, by simp, rfl, held⟩
    · rw [Function.update_of_ne here] at held
      obtain ⟨row, mem, named, valued⟩ := mirror.field pattern value held
      exact ⟨row, by simp [mem], named, valued⟩
  · rw [List.mem_append, List.mem_singleton] at mem
    rcases mem with old | rfl
    · exact update_hash_ne_none (mirror.row row old)
    · rw [Function.update_self]
      exact Option.some_ne_none _

/-- The `HSET`s of a list of rows. -/
theorem MirrorOf.foldl_hset {redis : RulesRedis} {before rows : List RuleRow}
    (mirror : MirrorOf redis.hash before) :
    MirrorOf ((rows.map fun row => Command.hset row.pathPattern (ruleValue row)).foldl
      RulesRedis.exec redis).hash (before ++ rows) := by
  induction rows generalizing redis before with
  | nil => rwa [List.append_nil]
  | cons row rows ih =>
      rw [List.append_cons]
      exact ih (mirror.hset row)

/-- The deleted hash mirrors no rows. -/
theorem mirrorOf_del (redis : RulesRedis) : MirrorOf (redis.exec .del).hash [] :=
  ⟨fun _ _ held => (Option.some_ne_none _ held.symm).elim, fun _ mem => (List.not_mem_nil mem).elim⟩

/-- **The rebuilt hash mirrors the rows it is rebuilt from.** -/
theorem mirrorOf_reconcileAll (redis : RulesRedis) (rows : List RuleRow) :
    MirrorOf ((reconcileAll rows).foldl RulesRedis.exec redis).hash rows := by
  rw [reconcileAll, List.cons_append, List.foldl_cons, List.foldl_append]
  exact (mirrorOf_del redis).foldl_hset

theorem mirror_post {body : CreateRule} (served : serve s (.post id body) = some t)
    (mirror : s.Mirror) : t.Mirror := by
  obtain ⟨new, rows, hash⟩ := serve_post served
  rw [Stores.Mirror, rows, hash]
  exact mirror.hset new

theorem mirror_put_iff {body : UpdateRule} (served : serve s (.put id body) = some t)
    (mirror : s.Mirror) : t.Mirror ↔ Keeps s (.put id body) := by
  obtain ⟨row, ⟨mem, same⟩, table, hash⟩ := serve_put served
  have rows := @mem_updated id s.table row mem same body
  rw [← table] at rows
  constructor
  · intro after old there here
    obtain rfl := s.table.eq_of_id_eq mem there (same.trans here.symm)
    refine or_iff_not_imp_left.mpr fun moved => ?_
    obtain ⟨value, held⟩ := Option.ne_none_iff_exists'.mp (mirror.row row mem)
    have kept : t.redis.hash row.pathPattern = some value := by
      have apart : row.pathPattern ≠ (row.patch body).pathPattern := Ne.symm moved
      rw [hash, Function.update_of_ne apart, held]
    obtain ⟨other, mem', named, valued⟩ := after.field _ _ kept
    rcases rows.mp mem' with rfl | ⟨old, apart⟩
    · exact absurd named moved
    · exact ⟨other, old, apart, named, by rw [held, valued]⟩
  · intro keeps
    refine ⟨fun pattern value held => ?_, fun r mem' => ?_⟩
    · rw [hash] at held
      by_cases here : pattern = (row.patch body).pathPattern
      · subst here
        rw [Function.update_self, Option.some.injEq] at held
        exact ⟨row.patch body, rows.mpr (Or.inl rfl), rfl, held⟩
      · rw [Function.update_of_ne here] at held
        obtain ⟨r, old, rfl, rfl⟩ := mirror.field pattern value held
        by_cases moved : r.id = id
        · -- The field of the row that moves away: another row has to stand for it.
          obtain rfl := s.table.eq_of_id_eq mem old (same.trans moved.symm)
          rcases keeps row mem same with stays | ⟨other, mem', apart, named, value⟩
          · exact absurd stays.symm here
          · rw [held, Option.some.injEq] at value
            exact ⟨other, rows.mpr (Or.inr ⟨mem', apart⟩), named, value.symm⟩
        · exact ⟨r, rows.mpr (Or.inr ⟨old, moved⟩), rfl, rfl⟩
    · rw [hash]
      rcases rows.mp mem' with rfl | ⟨old, -⟩
      · rw [Function.update_self]
        exact Option.some_ne_none _
      · exact update_hash_ne_none (mirror.row r old)

theorem mirror_delete_iff (served : serve s (.delete id) = some t) (mirror : s.Mirror) :
    t.Mirror ↔ Keeps s (.delete id) := by
  obtain ⟨row, ⟨mem, same⟩, rows, hash⟩ := serve_delete served
  have left : ∀ r, r ∈ t.table.rows ↔ r ∈ s.table.rows ∧ r.id ≠ id := fun r => by
    rw [rows, List.mem_filter, decide_eq_true_eq]
  constructor
  · intro after old there here other mem' named
    obtain rfl := s.table.eq_of_id_eq mem there (same.trans here.symm)
    by_contra apart
    refine after.row other ((left other).mpr ⟨mem', apart⟩) ?_
    rw [hash, named, Function.update_self]
  · intro keeps
    refine ⟨fun pattern value held => ?_, fun r mem' => ?_⟩
    · rw [hash] at held
      by_cases here : pattern = row.pathPattern
      · rw [here, Function.update_self] at held
        cases held
      · rw [Function.update_of_ne here] at held
        obtain ⟨r, old, rfl, rfl⟩ := mirror.field pattern value held
        refine ⟨r, (left r).mpr ⟨old, fun gone => here ?_⟩, rfl, rfl⟩
        rw [s.table.eq_of_id_eq old mem (gone.trans same.symm)]
    · obtain ⟨old, apart⟩ := (left r).mp mem'
      rw [hash, Function.update_of_ne fun named => apart (keeps row mem same r old named)]
      exact mirror.row r old

/-- **What one request keeps.** -/
theorem mirror_serve_iff (s : Stores) (r : RuleRequest) (t : Stores) (mirror : s.Mirror)
    (served : serve s r = some t) : t.Mirror ↔ Keeps s r := by
  cases r with
  | post id body => exact iff_of_true (mirror_post served mirror) trivial
  | put id body => exact mirror_put_iff served mirror
  | delete id => exact mirror_delete_iff served mirror

/-- **What a run keeps**: the hash mirrors the table after every request exactly if every request
keeps the mirror. -/
theorem mirror_iff {requests : List RuleRequest} (mirror : s.Mirror)
    (served : run serve s requests = some t) :
    (∀ n u, run serve s (requests.take n) = some u → u.Mirror) ↔ Meets serve Keeps s requests :=
  forall_run_take_iff mirror_serve_iff mirror served

end Requests

/-! ## A rule that is renamed -/

/-- The id of the one rule. -/
def ruleId : Uuid where
  text := List.replicate 36 48
  plain := by decide +kernel
  length_eq := List.length_replicate

/-- A rule that keeps a path out of the cache. -/
def oneRule : RuleRow := ⟨ruleId, bytes "/api/*", 0, 0, none⟩

/-- A table of one rule, and Redis after the start. -/
def oneRuleStores : Stores where
  table := ⟨[oneRule], List.pairwise_singleton _ _⟩
  redis := (reconcileAll [oneRule]).foldl RulesRedis.exec ⟨fun _ => none, []⟩

/-- `PUT /rules/:id` with a new pattern. -/
def rename (pattern : String) : RuleRequest :=
  .put ruleId ⟨some (bytes pattern), none, none, none⟩

/-- **The old pattern stays in the hash**, where the proxies find it. -/
theorem not_mirror_rename :
    oneRuleStores.Mirror ∧ ∃ t, run serve oneRuleStores [rename "/v2/*"] = some t ∧ ¬ t.Mirror := by
  obtain ⟨t, served, left⟩ := exists_of_run
    (show (run serve oneRuleStores [rename "/v2/*"]).any (fun t =>
      t.redis.hash (bytes "/api/*") == some (ruleValue oneRule) &&
        t.table.rows.all fun row => row.pathPattern ≠ bytes "/api/*") = true by decide +kernel)
  rw [Bool.and_eq_true, beq_iff_eq, List.all_eq_true] at left
  refine ⟨mirrorOf_reconcileAll _ _, t, served, fun mirror => ?_⟩
  obtain ⟨row, mem, named, -⟩ := mirror.field _ _ left.1
  exact of_decide_eq_true (left.2 row mem) named

/-- A request that keeps the pattern keeps the mirror. -/
theorem mirror_sameName :
    ∃ t, run serve oneRuleStores [rename "/api/*"] = some t ∧
      ∀ n u, run serve oneRuleStores ([rename "/api/*"].take n) = some u → u.Mirror := by
  obtain ⟨t, served⟩ := Option.isSome_iff_exists.mp
    (show (run serve oneRuleStores [rename "/api/*"]).isSome = true by decide +kernel)
  have start : oneRuleStores.Mirror := mirrorOf_reconcileAll _ _
  refine ⟨t, served, (mirror_iff start served).mpr ⟨?_, fun _ _ => trivial⟩⟩
  intro row mem _
  rw [List.mem_singleton.mp mem]
  exact Or.inl rfl

end EdgeCache

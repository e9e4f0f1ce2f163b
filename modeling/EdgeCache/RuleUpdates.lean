import EdgeCache.Api

/-!
# Updates of a rule

`PUT /rules/:id` takes a body whose fields may each be absent, and whose origin may be `null`.  What
Postgres is sent is a parameter for every column, `null` where the body has nothing to say, and
`COALESCE` keeps the column there.

`Fields.patch` is what an update is to do: every field of the body replaces the rule's, and
the others stay.  `appliesExactly_iff` — **it does so exactly if** the body does not ask for no
origin where there is one, and its pattern is well-formed.
-/

namespace EdgeCache.ControlPlane

open Utf8 Async

/-! ## The stores -/

section Stores

-- What Postgres makes of the text of a `UUID`.
variable (uuidIn : JsString → Option Uuid)

/-- The parameters of `UPDATE`, as Postgres reads them; `none` where it fails. -/
def paramsIn (pathPattern : Option JsString) (ttlSeconds stale : Option ℕ)
    (originId : Option JsString) : Option UpdateRule := do
  let pathPattern ← nullable textIn pathPattern
  let ttlSeconds ← nullable intIn ttlSeconds
  let stale ← nullable intIn stale
  let originId ← nullable uuidIn originId
  return ⟨pathPattern, ttlSeconds, originId, stale⟩

/-- `UPDATE … RETURNING *`. -/
def updateRows (table : RuleTable) (id : Uuid) (params : UpdateRule) : List RuleRow × RuleTable :=
  match EdgeCache.RulesRepo.update table id params with
  | none => ([], table)
  | some (row, table) => ([row], table)

/-- **What the stores do** when they give a reply.  A rejected command may have been executed. -/
def Executes (s : Stores) : Reply JsError Call.Reply → Stores → Prop
  | ⟨.updateRule id pathPattern ttlSeconds stale originId, .ok (rows : List Rule)⟩, s' =>
      ∃ key params, uuidIn id = some key ∧
        paramsIn uuidIn pathPattern ttlSeconds stale originId = some params ∧
        rows = (updateRows s.table key params).1.map mapRow ∧
        s' = { s with table := (updateRows s.table key params).2 }
  | ⟨.hset field value, .ok _⟩, s' =>
      s' = { s with redis := s.redis.exec (.hset (encode field) (encode value)) }
  | ⟨.hset field value, .error _⟩, s' =>
      s' = s ∨ s' = { s with redis := s.redis.exec (.hset (encode field) (encode value)) }
  | ⟨.publishUpdate message, .ok _⟩, s' =>
      s' = { s with redis := s.redis.exec (.publish (encode message)) }
  | ⟨.publishUpdate message, .error _⟩, s' =>
      s' = s ∨ s' = { s with redis := s.redis.exec (.publish (encode message)) }
  | _, _ => False

/-- What the stores do along a run. -/
def ExecutesAll : Stores → List (Reply JsError Call.Reply) → Stores → Prop
  | s, [], s' => s' = s
  | s, r :: replies, s' => ∃ t, Executes uuidIn s r t ∧ ExecutesAll t replies s'

/-- **A `PUT` succeeds** with a rule, from one state of the stores to another. -/
structure PutSucceeds (id : JsString) (body : JsValue) (replies : List (Reply JsError Call.Reply))
    (s s' : Stores) (rule : Rule) : Prop where
  run : (RulesRouter.put id body).Run replies [⟨200, .rule rule⟩] (.fulfilled ())
  executed : ExecutesAll uuidIn s replies s'

end Stores

/-! ## What a successful `PUT` does -/

variable {uuidIn : JsString → Option Uuid} {id : JsString} {body : JsValue}
  {replies : List (Reply JsError Call.Reply)} {s s' : Stores} {rule : Rule}

/-- After a rule has been updated: it is handed to Redis, and returned whatever comes of that. -/
theorem of_run_mirror {updated : Rule} {out : List ApiResponse}
    (run : Async.Run (((RedisCoordinator.upsertRule updated).tryCatch fun _ => .pure ()).bind
      fun _ => json 200 (.rule updated)) replies out (.fulfilled ())) :
    out = [⟨200, .rule updated⟩] ∧ ∃ r rest,
      replies = ⟨.hset updated.pathPattern (RedisCoordinator.ruleValue updated), r⟩ :: rest ∧
        ∀ reply ∈ rest, ∃ r', reply = ⟨.publishUpdate updated.pathPattern, r'⟩ := by
  rcases of_run_await run with ⟨-, -, pending⟩ | ⟨r, rest, came, sent⟩
  · cases pending
  · cases r with
    | error e =>
        obtain ⟨rfl, rfl, -⟩ := of_run_write sent
        exact ⟨rfl, _, _, came, by simp⟩
    | ok v =>
        rcases of_run_await sent with ⟨-, -, pending⟩ | ⟨r', rest', came', published⟩
        · cases pending
        · have ends : rest' = [] ∧ out = [⟨200, .rule updated⟩] := by
            cases r' with
            | ok v' => exact (of_run_write published).imp_right And.left
            | error e => exact (of_run_write published).imp_right And.left
          obtain ⟨rfl, rfl⟩ := ends
          exact ⟨rfl, _, _, came, by simp [came']⟩

/-- Publishing changes neither the table nor the hash. -/
theorem unchanged_of_published {message : JsString} (executed : ExecutesAll uuidIn s replies s')
    (published : ∀ reply ∈ replies, ∃ r, reply = ⟨.publishUpdate message, r⟩) :
    s'.table = s.table ∧ s'.redis.hash = s.redis.hash := by
  induction replies generalizing s with
  | nil =>
      cases executed
      exact ⟨rfl, rfl⟩
  | cons reply rest ih =>
      obtain ⟨t, here, later⟩ := executed
      obtain ⟨table, hash⟩ := ih later fun r mem => published r (List.mem_cons_of_mem _ mem)
      obtain ⟨r, rfl⟩ := published reply List.mem_cons_self
      have same : t.table = s.table ∧ t.redis.hash = s.redis.hash := by
        cases r with
        | ok v =>
            obtain rfl : t = { s with redis := s.redis.exec (.publish (encode message)) } := here
            exact ⟨rfl, rfl⟩
        | error e =>
            have cases : t = s ∨ t = { s with redis := s.redis.exec (.publish (encode message)) } :=
              here
            rcases cases with rfl | rfl <;> exact ⟨rfl, rfl⟩
      exact ⟨table.trans same.1, hash.trans same.2⟩

/-- What a `PUT` that succeeds has done. -/
structure PutCourse (uuidIn : JsString → Option Uuid) (id : JsString) (body : JsValue)
    (replies : List (Reply JsError Call.Reply)) (s s' : Stores) (rule : Rule)
    (patch : UpdateRuleBody) (key : Uuid) (row : RuleRow) (params : UpdateRule) : Prop where
  accepted : UpdateRuleBody.safeParse body = some patch
  named : uuidIn id = some key
  found : EdgeCache.RulesRepo.get s.table key = some row
  read : paramsIn uuidIn patch.pathPattern patch.ttlSeconds patch.staleWhileRevalidateSeconds
    patch.originId.join = some params
  table : s'.table = EdgeCache.RulesRepo.updated s.table key params
  returned : rule = mapRow (row.patch params)
  mirrored : ∃ r, (⟨.hset rule.pathPattern (RedisCoordinator.ruleValue rule), r⟩ :
      Reply JsError Call.Reply) ∈ replies ∧
    (r = .ok () → s'.redis.hash (encode rule.pathPattern) =
      some (encode (RedisCoordinator.ruleValue rule)))

/-- No row has the id. -/
theorem updateRows_of_get_eq_none {table : RuleTable} {key : Uuid} {params : UpdateRule}
    (found : EdgeCache.RulesRepo.get table key = none) :
    updateRows table key params = ([], table) := by
  unfold updateRows EdgeCache.RulesRepo.update
  rw [found]
  rfl

/-- A row has the id. -/
theorem updateRows_of_get_eq_some {table : RuleTable} {key : Uuid} {params : UpdateRule}
    {row : RuleRow} (found : EdgeCache.RulesRepo.get table key = some row) :
    updateRows table key params =
      ([row.patch params], EdgeCache.RulesRepo.updated table key params) := by
  unfold updateRows EdgeCache.RulesRepo.update
  rw [found]
  rfl

/-- The route, for a body that is accepted: it waits for `UPDATE`, and then mirrors its row. -/
theorem put_eq {patch : UpdateRuleBody} (accepted : UpdateRuleBody.safeParse body = some patch) :
    RulesRouter.put id body =
      (await (.updateRule id patch.pathPattern patch.ttlSeconds patch.staleWhileRevalidateSeconds
        patch.originId.join)).bind fun rows : List Rule =>
          match rows.head? with
          | none => notFound
          | some rule => ((RedisCoordinator.upsertRule rule).tryCatch fun _ => .pure ()).bind
              fun _ => json 200 (.rule rule) := by
  unfold RulesRouter.put
  rw [accepted]
  exact bind_assoc ..

/-- **Every `PUT` that succeeds has this course.** -/
theorem PutSucceeds.course (succeeds : PutSucceeds uuidIn id body replies s s' rule) :
    ∃ patch key row params, PutCourse uuidIn id body replies s s' rule patch key row params := by
  obtain ⟨run, executed⟩ := succeeds
  cases accepted : UpdateRuleBody.safeParse body with
  | none =>
      unfold RulesRouter.put at run
      rw [accepted] at run
      cases (of_run_write run).2.1
  | some patch =>
      rw [put_eq accepted] at run
      rcases of_run_call run with ⟨-, -, pending⟩ | ⟨e, -, rejected⟩ | ⟨rows, rest, rfl, answered⟩
      · cases pending
      · cases rejected
      · obtain ⟨t, ⟨key, params, named, read, rows_, rfl⟩, later⟩ := executed
        cases found : EdgeCache.RulesRepo.get s.table key with
        | none =>
            rw [updateRows_of_get_eq_none found] at rows_
            obtain rfl : rows = [] := rows_
            cases (of_run_write answered).2.1
        | some row =>
            rw [updateRows_of_get_eq_some found] at rows_ later
            obtain rfl : rows = [mapRow (row.patch params)] := rows_
            obtain ⟨same, r, published, rfl, only⟩ := of_run_mirror answered
            cases same
            obtain ⟨t, here, later⟩ := later
            obtain ⟨table, hash⟩ := unchanged_of_published later only
            refine ⟨patch, key, row, params, accepted, named, found, read, ?_, rfl, r, by simp, ?_⟩
            · cases r with
              | ok v =>
                  rw [table, here]
              | error e =>
                  rcases here with rfl | rfl <;> exact table
            · rintro rfl
              rw [hash, here]
              exact Function.update_self ..

/-! ## What an update is to do -/

/-- The fields of a rule that a body can give. -/
@[ext] structure Fields where
  pathPattern : JsString
  ttlSeconds : ℤ
  staleWhileRevalidateSeconds : ℤ
  originId : Option Uuid

/-- The fields of a rule. -/
def Rule.fields (rule : Rule) : Fields :=
  ⟨rule.pathPattern, rule.ttlSeconds.toInt, rule.staleWhileRevalidateSeconds.toInt, rule.originId⟩

/-- The fields of the durable row. -/
def durable (table : RuleTable) (key : Uuid) : Option Fields :=
  (EdgeCache.RulesRepo.get table key).map fun row => (mapRow row).fields

/-- **An update**: the fields of the body replace the old ones, an origin of `null` included, and
where a key is absent the old one stays. -/
def Fields.patch (uuidIn : JsString → Option Uuid) (old : Fields) (patch : UpdateRuleBody) :
    Fields where
  pathPattern := patch.pathPattern.getD old.pathPattern
  ttlSeconds := (patch.ttlSeconds.map Int.ofNat).getD old.ttlSeconds
  staleWhileRevalidateSeconds :=
    (patch.staleWhileRevalidateSeconds.map Int.ofNat).getD old.staleWhileRevalidateSeconds
  originId := (patch.originId.map fun value => value.bind uuidIn).getD old.originId

/-- The body lists all four fields. -/
structure Fields.ListedBy (uuidIn : JsString → Option Uuid) (f : Fields) (patch : UpdateRuleBody) :
    Prop where
  pathPattern : patch.pathPattern = some f.pathPattern
  ttlSeconds : patch.ttlSeconds.map Int.ofNat = some f.ttlSeconds
  staleWhileRevalidateSeconds :
    patch.staleWhileRevalidateSeconds.map Int.ofNat = some f.staleWhileRevalidateSeconds
  originId : patch.originId.map (fun value => value.map uuidIn) = some (f.originId.map some)

/-- **A `PUT` that succeeded has applied exactly the fields of its body**, to the durable row, the
rule it returns and the rule it hands to Redis; the same body once more changes nothing, and a body
that lists all four fields has brought them back. -/
structure AppliesExactly (uuidIn : JsString → Option Uuid) (id : JsString) (body : JsValue)
    (replies : List (Reply JsError Call.Reply)) (s' : Stores) (rule : Rule)
    (patch : UpdateRuleBody) (key : Uuid) (old : Fields) : Prop where
  stored : durable s'.table key = some (old.patch uuidIn patch)
  returned : rule.fields = old.patch uuidIn patch
  mirrored : ∃ r, (⟨.hset rule.pathPattern (RedisCoordinator.ruleValue rule), r⟩ :
      Reply JsError Call.Reply) ∈ replies ∧
    (r = .ok () → s'.redis.hash (encode rule.pathPattern) =
      some (encode (RedisCoordinator.ruleValue rule)))
  again : ∀ {replies' s'' rule'}, PutSucceeds uuidIn id body replies' s' s'' rule' →
    durable s''.table key = durable s'.table key ∧ rule'.fields = rule.fields
  restored : ∀ f, f.ListedBy uuidIn patch → durable s'.table key = some f

/-! ### Parameters -/

/-- A parameter is `null` where the body gives nothing, and else its value. -/
theorem nullable_eq_some {α β : Type} {input : α → Option β} {v : Option α} {w : Option β}
    (read : nullable input v = some w) :
    (v = none ∧ w = none) ∨ ∃ a b, v = some a ∧ input a = some b ∧ w = some b := by
  cases v with
  | none =>
      cases read
      exact Or.inl ⟨rfl, rfl⟩
  | some a =>
      unfold nullable at read
      obtain ⟨b, taken, rfl⟩ := Option.map_eq_some_iff.mp read
      exact Or.inr ⟨a, b, rfl, taken, rfl⟩

/-- The parameters, one by one. -/
theorem of_paramsIn {pathPattern originId : Option JsString} {ttlSeconds stale : Option ℕ}
    {params : UpdateRule}
    (read : paramsIn uuidIn pathPattern ttlSeconds stale originId = some params) :
    nullable textIn pathPattern = some params.pathPattern ∧
      nullable intIn ttlSeconds = some params.ttlSeconds ∧
      nullable intIn stale = some params.staleWhileRevalidateSeconds ∧
      nullable uuidIn originId = some params.originId := by
  simp only [paramsIn, Option.bind_eq_bind, Option.bind_eq_some_iff] at read
  obtain ⟨text, first, ttl, second, swr, third, origin, fourth, same⟩ := read
  cases same
  exact ⟨first, second, third, fourth⟩

/-- An `INT` parameter is the number of the body. -/
theorem getD_int {v : Option ℕ} {w : Option Int32} (read : nullable intIn v = some w)
    (old : Int32) : (w.getD old).toInt = (v.map Int.ofNat).getD old.toInt := by
  rcases nullable_eq_some read with ⟨rfl, rfl⟩ | ⟨n, b, rfl, taken, rfl⟩
  · rfl
  · unfold intIn at taken
    split at taken
    · rename_i small
      cases taken
      exact Int32.toInt_ofNat_of_lt small
    · cases taken

/-- **A pattern is stored as the body has it exactly if** it is well-formed. -/
theorem getD_text_iff {v : Option JsString} {w : Option ByteString}
    (read : nullable textIn v = some w) (old : ByteString) :
    decode (w.getD old) = v.getD (decode old) ↔ ∀ p, v = some p → WellFormed p := by
  rcases nullable_eq_some read with ⟨rfl, rfl⟩ | ⟨p, b, rfl, taken, rfl⟩
  · simp
  · obtain rfl := eq_encode_of_textIn taken
    simp [WellFormed]

/-- **An origin is stored as the body has it exactly if** it is not `null` in the body, or there is
none to be dropped. -/
theorem or_origin_iff {v : Option (Option JsString)} {w : Option Uuid}
    (read : nullable uuidIn v.join = some w) (old : Option Uuid) :
    w.or old = (v.map fun value => value.bind uuidIn).getD old ↔ (v = some none → old = none) := by
  rcases v with - | - | t
  · cases read
    simp
  · cases read
    simp
  · rcases nullable_eq_some read with ⟨none', -⟩ | ⟨a, b, same, taken, rfl⟩
    · cases none'
    · cases same
      simp [taken]

/-! ### Rows -/

/-- The row that an update leaves. -/
theorem get_updated {table : RuleTable} {key : Uuid} {row : RuleRow} {params : UpdateRule}
    (found : EdgeCache.RulesRepo.get table key = some row) :
    EdgeCache.RulesRepo.get (EdgeCache.RulesRepo.updated table key params) key =
      some (row.patch params) := by
  have is : row.id = key := by simpa using List.find?_some found
  have ids (r : RuleRow) : (if r.id = key then r.patch params else r).id = r.id := by
    split <;> rfl
  unfold EdgeCache.RulesRepo.get EdgeCache.RulesRepo.updated at *
  rw [List.find?_map]
  simp only [Function.comp_def, ids, found, Option.map_some, if_pos is]

/-- The same parameters once more change nothing. -/
theorem patch_patch (row : RuleRow) (params : UpdateRule) :
    (row.patch params).patch params = row.patch params := by
  obtain ⟨pathPattern, ttlSeconds, originId, stale⟩ := params
  cases pathPattern <;> cases ttlSeconds <;> cases originId <;> cases stale <;> rfl

/-- **What an update makes of a row**, against what it is to do. -/
theorem fields_patch_iff {patch : UpdateRuleBody} {params : UpdateRule} (row : RuleRow)
    (read : paramsIn uuidIn patch.pathPattern patch.ttlSeconds patch.staleWhileRevalidateSeconds
      patch.originId.join = some params) :
    (mapRow (row.patch params)).fields = (mapRow row).fields.patch uuidIn patch ↔
      (patch.originId = some none → row.originId = none) ∧
        ∀ p, patch.pathPattern = some p → WellFormed p := by
  obtain ⟨text, ttl, swr, origin⟩ := of_paramsIn read
  rw [← or_origin_iff origin row.originId, ← getD_text_iff text row.pathPattern, Fields.ext_iff]
  constructor
  · rintro ⟨pathPattern, -, -, originId⟩
    exact ⟨originId, pathPattern⟩
  · rintro ⟨originId, pathPattern⟩
    exact ⟨pathPattern, getD_int ttl row.ttlSeconds, getD_int swr row.staleWhileRevalidateSeconds,
      originId⟩

/-- A body that lists all four fields replaces them all. -/
theorem Fields.ListedBy.patch_eq {patch : UpdateRuleBody} {f : Fields}
    (listed : f.ListedBy uuidIn patch) (old : Fields) : old.patch uuidIn patch = f := by
  obtain ⟨pathPattern, ttlSeconds, stale, origin⟩ := listed
  obtain ⟨value, given, same⟩ := Option.map_eq_some_iff.mp origin
  have read : value.bind uuidIn = f.originId := by
    cases value with
    | none => cases of : f.originId <;> simp_all
    | some t => cases of : f.originId <;> simp_all
  ext1
  · exact congrArg (Option.getD · old.pathPattern) pathPattern
  · exact congrArg (Option.getD · old.ttlSeconds) ttlSeconds
  · exact congrArg (Option.getD · old.staleWhileRevalidateSeconds) stale
  · simp [Fields.patch, given, read]

/-! ## When a `PUT` applies exactly its fields -/

variable {patch : UpdateRuleBody} {key : Uuid} {row : RuleRow} {params : UpdateRule} {old : Fields}

/-- The fields that are stored are those of the rule that is returned. -/
theorem PutCourse.durable_eq
    (course : PutCourse uuidIn id body replies s s' rule patch key row params) :
    durable s'.table key = some rule.fields := by
  rw [durable, course.table, get_updated course.found, course.returned]
  rfl

/-- **The same body once more changes nothing.** -/
theorem PutCourse.again (course : PutCourse uuidIn id body replies s s' rule patch key row params)
    {replies' : List (Reply JsError Call.Reply)} {s'' : Stores} {rule' : Rule}
    (succeeds : PutSucceeds uuidIn id body replies' s' s'' rule') :
    durable s''.table key = durable s'.table key ∧ rule'.fields = rule.fields := by
  obtain ⟨patch', key', row', params', second⟩ := succeeds.course
  obtain rfl : patch' = patch := Option.some.inj (second.accepted.symm.trans course.accepted)
  obtain rfl : key' = key := Option.some.inj (second.named.symm.trans course.named)
  obtain rfl : params' = params := Option.some.inj (second.read.symm.trans course.read)
  have left : row' = row.patch params' := by
    have found := second.found
    rw [course.table, get_updated course.found] at found
    exact (Option.some.inj found).symm
  have same : rule' = rule := by
    rw [second.returned, course.returned, left, patch_patch]
  exact ⟨by rw [second.durable_eq, course.durable_eq, same], by rw [same]⟩

/-- **A `PUT` that succeeds applies exactly the fields of its body if and only if** it does not ask
for no origin where there is one, and its pattern is well-formed. -/
theorem appliesExactly_iff (succeeds : PutSucceeds uuidIn id body replies s s' rule)
    (accepted : UpdateRuleBody.safeParse body = some patch) (named : uuidIn id = some key)
    (found : durable s.table key = some old) :
    AppliesExactly uuidIn id body replies s' rule patch key old ↔
      (body.member "originId" = some .null → old.originId = none) ∧
        ∀ p, patch.pathPattern = some p → WellFormed p := by
  obtain ⟨patch', key', row, params, course⟩ := succeeds.course
  obtain rfl : patch' = patch := Option.some.inj (course.accepted.symm.trans accepted)
  obtain rfl : key' = key := Option.some.inj (course.named.symm.trans named)
  obtain rfl : (mapRow row).fields = old := by
    rw [durable, course.found] at found
    exact Option.some.inj found
  have asked := (UpdateRuleBody.presence accepted).2.2.2.1
  have applied := fields_patch_iff row course.read
  rw [← course.returned, asked] at applied
  constructor
  · intro exactly
    exact applied.mp exactly.returned
  · intro fits
    have returned := applied.mpr fits
    exact
      { stored := course.durable_eq.trans (congrArg some returned)
        returned := returned
        mirrored := course.mirrored
        again := course.again
        restored := fun f listed => course.durable_eq.trans
          (congrArg some (returned.trans (listed.patch_eq _))) }

/-- The replies of stores that do not fail. -/
def answered (id : JsString) (patch : UpdateRuleBody) (rule : Rule) :
    List (Reply JsError Call.Reply) :=
  [⟨.updateRule id patch.pathPattern patch.ttlSeconds patch.staleWhileRevalidateSeconds
      patch.originId.join, .ok [rule]⟩,
    ⟨.hset rule.pathPattern (RedisCoordinator.ruleValue rule), .ok ()⟩,
    ⟨.publishUpdate rule.pathPattern, .ok ()⟩]

/-- **A `PUT` of a stored rule succeeds** where Postgres takes its parameters and nothing fails. -/
theorem exists_putSucceeds (accepted : UpdateRuleBody.safeParse body = some patch)
    (named : uuidIn id = some key) (found : EdgeCache.RulesRepo.get s.table key = some row)
    (read : paramsIn uuidIn patch.pathPattern patch.ttlSeconds patch.staleWhileRevalidateSeconds
      patch.originId.join = some params) :
    ∃ s', PutSucceeds uuidIn id body (answered id patch (mapRow (row.patch params))) s s'
      (mapRow (row.patch params)) := by
  refine ⟨_, ?_, ⟨_, ⟨key, params, named, read, ?_, rfl⟩, _, rfl, _, rfl, rfl⟩⟩
  · rw [put_eq accepted]
    exact .reply (.reply (.reply (.send (.pure ()))))
  · rw [updateRows_of_get_eq_some found]
    rfl

/-! ## Two requests -/

/-- What Postgres makes of the texts of the examples. -/
def exampleUuidIn (t : JsString) : Option Uuid :=
  if t = ruleId.text.map unit then some ruleId else none

/-- A table of one rule, with an origin. -/
def withOrigin : Stores :=
  ⟨⟨[{ oneRule with originId := some ruleId }], List.pairwise_singleton _ _⟩, ⟨fun _ => none, []⟩⟩

/-- `PUT /rules/:id` with a lifetime: the origin stays. -/
theorem appliesExactly_ttl :
    ∃ replies s' rule old, PutSucceeds exampleUuidIn (ruleId.text.map unit)
        (.object [(literal "ttlSeconds", .number 60)]) replies withOrigin s' rule ∧
      AppliesExactly exampleUuidIn (ruleId.text.map unit)
        (.object [(literal "ttlSeconds", .number 60)]) replies s' rule ⟨none, some 60, none, none⟩
        ruleId old := by
  obtain ⟨accepted, named⟩ :
      UpdateRuleBody.safeParse (.object [(literal "ttlSeconds", .number 60)]) =
          some ⟨none, some 60, none, none⟩ ∧
        exampleUuidIn (ruleId.text.map unit) = some ruleId := by
    decide +kernel
  obtain ⟨s', succeeds⟩ := exists_putSucceeds (s := withOrigin) accepted named rfl rfl
  refine ⟨_, s', _, _, succeeds, (appliesExactly_iff succeeds accepted named rfl).mpr ⟨?_, ?_⟩⟩
  · intro asked
    have absent := (UpdateRuleBody.presence accepted).2.2.2.1.mpr asked
    cases absent
  · rintro p ⟨⟩

/-- **`PUT /rules/:id` with an origin of `null` keeps the origin.** -/
theorem not_forall_appliesExactly :
    ¬ ∀ (uuidIn : JsString → Option Uuid) (id : JsString) (body : JsValue)
        (replies : List (Reply JsError Call.Reply)) (s s' : Stores) (rule : Rule)
        (patch : UpdateRuleBody) (key : Uuid) (old : Fields),
        PutSucceeds uuidIn id body replies s s' rule →
        UpdateRuleBody.safeParse body = some patch → uuidIn id = some key →
        durable s.table key = some old →
          AppliesExactly uuidIn id body replies s' rule patch key old := by
  intro all
  obtain ⟨accepted, named⟩ :
      UpdateRuleBody.safeParse (.object [(literal "originId", .null)]) =
          some ⟨none, none, some none, none⟩ ∧
        exampleUuidIn (ruleId.text.map unit) = some ruleId := by
    decide +kernel
  obtain ⟨s', succeeds⟩ := exists_putSucceeds (s := withOrigin) accepted named rfl rfl
  have applies := all _ _ _ _ _ _ _ _ _ _ succeeds accepted named rfl
  have dropped : some ruleId = none := congrArg Fields.originId applies.returned
  cases dropped

end EdgeCache.ControlPlane

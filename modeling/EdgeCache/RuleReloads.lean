import EdgeCache.RuleText
import EdgeCache.RuleStore

/-!
# Reloading the rules while the hash is rebuilt

`reconcileAll` deletes the hash and sets its fields again, in a pipeline that is no transaction, and
a proxy may ask for the whole hash between any two of these commands.  Redis lists a hash in no
particular order, and the store sorts the rules by the length of their patterns with a sort that is
not stable; both are parameters, of which only that is known.

* `sameRules_stored` — **what a reload finds**: the rules are all there and match as before, if
  the hash is whole at the time and no two patterns of one length are the longest for a path.
* `sameRules_iff` — the rules of the proxy are all there and match as before in every run, exactly
  if every reload asks before the rebuilding, or when the hash is whole and no such two patterns
  exist.
-/

namespace EdgeCache

open Transition RedisCoordinator RuleStore

/-! ## The rules in the store -/

/-- A listing of a hash, in any order. -/
structure Lists (hash : ByteString → Option ByteString) (listing : List (ByteString × ByteString)) :
    Prop where
  mem : ∀ field value, (field, value) ∈ listing ↔ hash field = some value
  nodup : (listing.map Prod.fst).Nodup

/-- The hash holds the values of the rows, and nothing else. -/
def Holds (hash : ByteString → Option ByteString) (rows : List RuleRow) : Prop :=
  ∀ field value, hash field = some value ↔
    ∃ row ∈ rows, row.pathPattern = field ∧ ruleValue row = value

/-- A mirror of rows with different patterns holds their values, and nothing else. -/
theorem MirrorOf.holds {hash : ByteString → Option ByteString} {rows : List RuleRow}
    (mirror : MirrorOf hash rows)
    (apart : ∀ a ∈ rows, ∀ b ∈ rows, a.pathPattern = b.pathPattern → a = b) : Holds hash rows := by
  refine fun field value => ⟨mirror.field field value, ?_⟩
  rintro ⟨row, mem, rfl, rfl⟩
  obtain ⟨value, held⟩ := Option.ne_none_iff_exists'.mp (mirror.row row mem)
  obtain ⟨other, mem', named, rfl⟩ := mirror.field _ value held
  rw [held, apart other mem' row mem named]

/-- What the store has after a reload. -/
def stored (sort : List Rule → List Rule) (listing : List (ByteString × ByteString)) : List Rule :=
  sort (listing.map fun e => parseRuleJson e.1 e.2)

/-- **The store has the rules of the rows, and they match as before.** -/
structure SameRules (rows : List RuleRow) (before rules : List Rule) : Prop where
  installed : ∀ rule, rule ∈ rules ↔ ∃ row ∈ rows, row.rule = rule
  matched : ∀ path, findRule rules path = findRule before path

/-- No two patterns of one length are the longest that match a path. -/
def Unambiguous (rows : List RuleRow) : Prop :=
  ∀ path, ∀ a ∈ rows, ∀ b ∈ rows, patternMatches a.pathPattern path = true →
    patternMatches b.pathPattern path = true → a.pathPattern.length = b.pathPattern.length →
    a.pathPattern = b.pathPattern ∨
      ∃ c ∈ rows, patternMatches c.pathPattern path = true ∧
        a.pathPattern.length < c.pathPattern.length

section Stores

variable {sort : List Rule → List Rule} {hash : ByteString → Option ByteString}
  {listing listing' : List (ByteString × ByteString)} {rows : List RuleRow}

/-- **A whole hash is read as the rules of its rows.** -/
theorem mem_stored (sorts : Sorts sort) (lists : Lists hash listing) (holds : Holds hash rows)
    {rule : Rule} : rule ∈ stored sort listing ↔ ∃ row ∈ rows, row.rule = rule := by
  rw [stored, (sorts _).1.mem_iff, List.mem_map]
  constructor
  · rintro ⟨⟨field, value⟩, mem, rfl⟩
    obtain ⟨row, there, rfl, rfl⟩ := (holds field value).mp ((lists.mem field value).mp mem)
    exact ⟨row, there, (parseRuleJson_ruleValue row).symm⟩
  · rintro ⟨row, there, rfl⟩
    have held := (holds row.pathPattern (ruleValue row)).mpr ⟨row, there, rfl, rfl⟩
    exact ⟨_, (lists.mem _ _).mpr held, parseRuleJson_ruleValue row⟩

/-- What is found in a store is a longest match. -/
theorem longest_of_findRule (sorts : Sorts sort) {path : ByteString} {rule : Rule}
    (found : findRule (stored sort listing) path = some rule) :
    rule ∈ stored sort listing ∧ patternMatches rule.pathPattern path = true ∧
      ∀ other ∈ stored sort listing, patternMatches other.pathPattern path = true →
        other.pathPattern.length ≤ rule.pathPattern.length :=
  longest_of_found (sorts _).2 found

/-- A pattern has one rule. -/
theorem rule_eq_of_pattern_eq (holds : Holds hash rows) {a b : RuleRow} (mem : a ∈ rows)
    (mem' : b ∈ rows) (same : a.pathPattern = b.pathPattern) : a.rule = b.rule := by
  have one := (holds a.pathPattern (ruleValue a)).mpr ⟨a, mem, rfl, rfl⟩
  have other := (holds a.pathPattern (ruleValue b)).mpr ⟨b, mem', same.symm, rfl⟩
  rw [one, Option.some.injEq] at other
  rw [← parseRuleJson_ruleValue, ← parseRuleJson_ruleValue, same, other]

/-- **Two stores of one unambiguous set of rules match alike**, in whatever order they are. -/
theorem findRule_eq_of_unambiguous {hash' : ByteString → Option ByteString} (sorts : Sorts sort)
    (lists : Lists hash listing) (lists' : Lists hash' listing') (holds : Holds hash rows)
    (holds' : Holds hash' rows) (unambiguous : Unambiguous rows) (path : ByteString) :
    findRule (stored sort listing) path = findRule (stored sort listing') path := by
  have mem {rule : Rule} := @mem_stored sort hash listing rows sorts lists holds rule
  have mem' {rule : Rule} := @mem_stored sort hash' listing' rows sorts lists' holds' rule
  cases found : findRule (stored sort listing) path with
  | none =>
      refine (List.find?_eq_none.mpr fun rule there => ?_).symm
      exact List.find?_eq_none.mp found rule (mem.mpr (mem'.mp there))
  | some rule =>
      obtain ⟨there, hits, longest⟩ := longest_of_findRule sorts found
      cases found' : findRule (stored sort listing') path with
      | none =>
          exact absurd hits (List.find?_eq_none.mp found' rule (mem'.mpr (mem.mp there)))
      | some rule' =>
          obtain ⟨there', hits', longest'⟩ := longest_of_findRule sorts found'
          obtain ⟨a, row, rfl⟩ := mem.mp there
          obtain ⟨b, row', rfl⟩ := mem'.mp there'
          have length : a.pathPattern.length = b.pathPattern.length :=
            le_antisymm (longest' a.rule (mem'.mpr ⟨a, row, rfl⟩) hits)
              (longest b.rule (mem.mpr ⟨b, row', rfl⟩) hits')
          rcases unambiguous path a row b row' hits hits' length with
            same | ⟨c, row'', more, longer⟩
          · rw [rule_eq_of_pattern_eq holds row row' same]
          · exact absurd (longest c.rule (mem.mpr ⟨c, row'', rfl⟩) more) (not_le.mpr longer)

end Stores

/-! ## The hash while it is rebuilt -/

/-- The hash after so many commands of the rebuilding. -/
def hashAt (rows : List RuleRow) (redis : RulesRedis) (executed : ℕ) :
    ByteString → Option ByteString :=
  (((reconcileAll rows).take executed).foldl RulesRedis.exec redis).hash

/-- Every pattern has been set again after so many commands. -/
def Complete (rows : List RuleRow) (executed : ℕ) : Prop :=
  ∀ row ∈ rows, ∃ done ∈ rows.take (executed - 1), done.pathPattern = row.pathPattern

section Rebuilding

variable {rows : List RuleRow} {redis : RulesRedis}

/-- **After the deletion the hash mirrors the rows that have been set again.** -/
theorem mirrorOf_hashAt (rows : List RuleRow) (redis : RulesRedis) (k : ℕ) :
    MirrorOf (hashAt rows redis (k + 1)) (rows.take k) := by
  have published : ∀ (r : RulesRedis) (j : ℕ),
      ((([Command.publish (bytes "*")] : List Command).take j).foldl RulesRedis.exec r).hash =
        r.hash := by
    intro r j
    cases j with
    | zero => rfl
    | succ j => rw [List.take_succ_cons, List.take_nil]; rfl
  rw [hashAt, reconcileAll, List.cons_append, List.take_succ_cons, List.take_append,
    List.foldl_cons, List.foldl_append, published, ← List.map_take]
  exact (mirrorOf_del redis).foldl_hset

/-- The hash is whole again once every pattern has been set. -/
theorem holds_hashAt (holds : Holds redis.hash rows) {k : ℕ} (complete : Complete rows (k + 1)) :
    Holds (hashAt rows redis (k + 1)) rows := by
  have mirror := mirrorOf_hashAt rows redis k
  intro field value
  constructor
  · intro held
    obtain ⟨row, mem, named, valued⟩ := mirror.field field value held
    exact ⟨row, List.mem_of_mem_take mem, named, valued⟩
  · rintro ⟨row, mem, rfl, rfl⟩
    obtain ⟨done, there, same⟩ := complete row mem
    obtain ⟨value, held⟩ := Option.ne_none_iff_exists'.mp (mirror.row done there)
    obtain ⟨other, mem', named, valued⟩ := mirror.field _ value held
    have one := (holds _ _).mpr ⟨row, mem, rfl, rfl⟩
    have two := (holds row.pathPattern value).mpr
      ⟨other, List.mem_of_mem_take mem', named.trans same, valued⟩
    rw [one, Option.some.injEq] at two
    rw [two, ← same, held]

/-- A pattern that has not been set again is no field. -/
theorem hashAt_eq_none {k : ℕ} {row : RuleRow}
    (missing : ∀ done ∈ rows.take k, done.pathPattern ≠ row.pathPattern) :
    hashAt rows redis (k + 1) row.pathPattern = none := by
  by_contra some_
  obtain ⟨value, held⟩ := Option.ne_none_iff_exists'.mp some_
  obtain ⟨done, mem, named, -⟩ := (mirrorOf_hashAt rows redis k).field _ value held
  exact missing done mem named

/-- No field comes up that is no pattern. -/
theorem mem_of_hashAt (holds : Holds redis.hash rows) {executed : ℕ} {field value : ByteString}
    (held : hashAt rows redis executed field = some value) :
    field ∈ rows.map RuleRow.pathPattern := by
  cases executed with
  | zero =>
      obtain ⟨row, mem, named, -⟩ := (holds field value).mp held
      exact List.mem_map.mpr ⟨row, mem, named⟩
  | succ k =>
      obtain ⟨row, mem, named, -⟩ := (mirrorOf_hashAt rows redis k).field field value held
      exact List.mem_map.mpr ⟨row, List.mem_of_mem_take mem, named⟩

end Rebuilding

/-! ## The proxy beside the rebuilding -/

/-- How many commands have been executed, the reply a reload has, and the rules in the store. -/
structure Reload where
  executed : ℕ
  reply : Option RedisReply
  rules : List Rule

/-- A command of the rebuilding, or one of the two steps of a reload. -/
inductive ReloadAction
  | command
  | hgetall
  | replaceAll
  deriving DecidableEq

namespace Reload

/-- One step; `listing k` is the order in which Redis lists the hash after `k` commands. -/
def step (rows : List RuleRow) (sort : List Rule → List Rule)
    (listing : ℕ → List (ByteString × ByteString)) (s : Reload) : ReloadAction → Option Reload
  | .command =>
      if s.executed < (reconcileAll rows).length then some { s with executed := s.executed + 1 }
      else none
  | .hgetall =>
      match s.reply with
      | none => some { s with reply := some (hgetall (listing s.executed)).toReply }
      | some _ => none
  | .replaceAll =>
      match s.reply with
      | none => none
      | some reply =>
          match reloadRules reply with
          | none => some { s with reply := none }
          | some rules => some { s with reply := none, rules := sort rules }

/-- Before the rebuilding: the store has been loaded from the hash. -/
def start (sort : List Rule → List Rule) (listing : ℕ → List (ByteString × ByteString)) : Reload :=
  ⟨0, none, stored sort (listing 0)⟩

/-- The proxy asks for the hash only at certain times. -/
def PollsAt (times : ℕ → Prop) (s : Reload) : ReloadAction → Prop
  | .hgetall => times s.executed
  | _ => True

variable {rows : List RuleRow} {sort : List Rule → List Rule}
  {listing : ℕ → List (ByteString × ByteString)} {times : ℕ → Prop}

/-- What a reload holds, and what the store has, was listed at one of these times. -/
structure Listed (rows : List RuleRow) (sort : List Rule → List Rule)
    (listing : ℕ → List (ByteString × ByteString)) (times : ℕ → Prop) (s : Reload) : Prop where
  executed : s.executed ≤ (reconcileAll rows).length
  reply : ∀ reply, s.reply = some reply → ∃ k ≤ (reconcileAll rows).length, times k ∧
    reply = (hgetall (listing k)).toReply
  rules : ∃ k ≤ (reconcileAll rows).length, (k = 0 ∨ times k) ∧ s.rules = stored sort (listing k)

theorem listed_start : Listed rows sort listing times (start sort listing) where
  executed := Nat.zero_le _
  reply _ none_ := by cases none_
  rules := ⟨0, Nat.zero_le _, Or.inl rfl, rfl⟩

/-- **What one step keeps.** -/
theorem listed_step (s : Reload) (a : ReloadAction) (t : Reload) (polls : PollsAt times s a)
    (taken : step rows sort listing s a = some t) (listed : Listed rows sort listing times s) :
    Listed rows sort listing times t := by
  cases a with
  | command =>
      rw [step] at taken
      split at taken
      · rename_i more
        cases taken
        exact ⟨more, listed.reply, listed.rules⟩
      · cases taken
  | hgetall =>
      rw [step] at taken
      split at taken
      · cases taken
        refine ⟨listed.executed, fun reply same => ?_, listed.rules⟩
        exact ⟨s.executed, listed.executed, polls, (Option.some.inj same).symm⟩
      · cases taken
  | replaceAll =>
      rw [step] at taken
      split at taken
      · cases taken
      · rename_i reply held
        obtain ⟨k, bound, time, rfl⟩ := listed.reply reply held
        rw [reloadRules_hgetall] at taken
        cases taken
        exact ⟨listed.executed, fun _ none_ => (by cases none_), k, bound, Or.inr time, rfl⟩

/-- **In every run** the store has what was listed at one of the times. -/
theorem listed_of_steps {t : Reload}
    (steps : Steps (step rows sort listing) (PollsAt times) (start sort listing) t) :
    Listed rows sort listing times t :=
  steps.invariant listed_step listed_start

/-- After so many commands a reload may run. -/
theorem steps_reload {k : ℕ} (bound : k ≤ (reconcileAll rows).length) (time : times k) :
    Steps (step rows sort listing) (PollsAt times) (start sort listing)
      ⟨k, none, stored sort (listing k)⟩ := by
  have commands : Steps (step rows sort listing) (PollsAt times) (start sort listing)
      ⟨k, none, stored sort (listing 0)⟩ := by
    clear time
    induction k with
    | zero => exact Steps.refl _
    | succ k ih =>
        exact (ih (Nat.le_of_succ_le bound)).trans
          (Steps.single (a := .command) trivial (if_pos bound))
  refine (commands.trans (Steps.single (a := .hgetall) time rfl)).trans
    (Steps.single (a := .replaceAll) trivial ?_)
  simp only [step, reloadRules_hgetall]
  rfl

end Reload

/-! ## Orders that differ -/

/-- A hash listed with one of its fields first. -/
def listFrom (hash : ByteString → Option ByteString) (first : ByteString)
    (fields : List ByteString) : List (ByteString × ByteString) :=
  (first :: fields.dedup.filter fun field => field ≠ first).filterMap fun field =>
    (hash field).map fun value => (field, value)

theorem lists_listFrom {hash : ByteString → Option ByteString} {first : ByteString}
    {fields : List ByteString} (all : ∀ field value, hash field = some value → field ∈ fields) :
    Lists hash (listFrom hash first fields) := by
  constructor
  · intro field value
    rw [listFrom, List.mem_filterMap]
    constructor
    · rintro ⟨name, -, held⟩
      obtain ⟨value', held', same⟩ := Option.map_eq_some_iff.mp held
      cases same
      exact held'
    · intro held
      refine ⟨field, ?_, by rw [held]; rfl⟩
      by_cases here : field = first
      · exact here ▸ List.mem_cons_self
      · refine List.mem_cons_of_mem _ (List.mem_filter.mpr ⟨?_, by simpa using here⟩)
        exact List.mem_dedup.mpr (all field value held)
  · have names : ∀ fields : List ByteString,
        ((fields.filterMap fun field => (hash field).map fun value => (field, value)).map
          Prod.fst).Sublist fields := by
      intro fields
      induction fields with
      | nil => exact List.Sublist.refl _
      | cons field fields ih =>
          cases held : hash field with
          | none =>
              rw [List.filterMap_cons_none (by rw [held]; rfl)]
              exact ih.cons field
          | some value =>
              rw [List.filterMap_cons_some (by rw [held]; rfl), List.map_cons]
              exact ih.cons_cons field
    refine (names _).nodup (List.nodup_cons.mpr ⟨fun mem => ?_, ?_⟩)
    · simpa using (List.mem_filter.mp mem).2
    · exact (List.nodup_dedup fields).filter _

/-- A field listed first. -/
theorem listFrom_of_some {hash : ByteString → Option ByteString} {first value : ByteString}
    (held : hash first = some value) (fields : List ByteString) :
    ∃ rest, listFrom hash first fields = (first, value) :: rest := by
  rw [listFrom, List.filterMap_cons_some (by rw [held]; rfl)]
  exact ⟨_, rfl⟩

/-- **The rule listed first wins** among the longest that match. -/
theorem findRule_listFrom {hash : ByteString → Option ByteString} {rows : List RuleRow}
    {fields : List ByteString} (holds : Holds hash rows)
    (all : ∀ field value, hash field = some value → field ∈ fields) {path : ByteString}
    {row : RuleRow} (mem : row ∈ rows) (hits : patternMatches row.pathPattern path = true)
    (longest : ∀ other ∈ rows, patternMatches other.pathPattern path = true →
      other.pathPattern.length ≤ row.pathPattern.length) :
    findRule (stored lengthSort (listFrom hash row.pathPattern fields)) path = some row.rule := by
  have held := (holds row.pathPattern (ruleValue row)).mpr ⟨row, mem, rfl, rfl⟩
  obtain ⟨rest, split⟩ := listFrom_of_some held fields
  have there {rule : Rule} := @mem_stored lengthSort hash
    (listFrom hash row.pathPattern fields) rows sorts_lengthSort (lists_listFrom all) holds rule
  rw [split, stored, List.map_cons, parseRuleJson_ruleValue] at there ⊢
  refine findRule_lengthSort hits fun other mem' hits' => ?_
  obtain ⟨row', mem'', rfl⟩ := there.mp
    ((sorts_lengthSort _).1.mem_iff.mpr (List.mem_cons_of_mem _ mem'))
  exact longest row' mem'' hits'

/-! ## When the rules stay the same -/

section Same

variable {rows : List RuleRow} {redis : RulesRedis}

/-- **What a reload finds**: all rules, that match as before. -/
theorem sameRules_stored (holds : Holds redis.hash rows) {sort : List Rule → List Rule}
    {listing : ℕ → List (ByteString × ByteString)} (sorts : Sorts sort)
    (lists : ∀ k, Lists (hashAt rows redis k) (listing k)) {k : ℕ}
    (whole : k = 0 ∨ (Complete rows k ∧ Unambiguous rows)) :
    SameRules rows (stored sort (listing 0)) (stored sort (listing k)) := by
  cases k with
  | zero => exact ⟨fun _ => mem_stored sorts (lists 0) holds, fun _ => rfl⟩
  | succ k =>
      obtain ⟨complete, unambiguous⟩ := whole.resolve_left (Nat.succ_ne_zero k)
      have again := holds_hashAt holds complete
      exact ⟨fun _ => mem_stored sorts (lists _) again, fun path =>
        findRule_eq_of_unambiguous sorts (lists _) (lists 0) again holds unambiguous path⟩

/-- **A reload in between loses a rule.** -/
theorem complete_of_sameRules {sort : List Rule → List Rule}
    {listing : List (ByteString × ByteString)} {before : List Rule} (sorts : Sorts sort) {k : ℕ}
    (lists : Lists (hashAt rows redis (k + 1)) listing)
    (same : SameRules rows before (stored sort listing)) : Complete rows (k + 1) := by
  intro row mem
  by_contra missing
  have none_ : hashAt rows redis (k + 1) row.pathPattern = none :=
    hashAt_eq_none fun done there named => missing ⟨done, there, named⟩
  have there := (same.installed row.rule).mpr ⟨row, mem, rfl⟩
  obtain ⟨⟨field, value⟩, listed, read⟩ := List.mem_map.mp ((sorts _).1.mem_iff.mp there)
  have named : field = row.pathPattern := congrArg Rule.pathPattern read
  rw [← named, (lists.mem field value).mp listed] at none_
  cases none_

/-- The listings that put one pattern first before the rebuilding, and another one after its
first command. -/
def listings (rows : List RuleRow) (redis : RulesRedis) (first second : ByteString) (k : ℕ) :
    List (ByteString × ByteString) :=
  listFrom (hashAt rows redis k) (if k = 0 then first else second) (rows.map RuleRow.pathPattern)

/-- **Two longest patterns of one length change places.** -/
theorem unambiguous_of_sameRules (holds : Holds redis.hash rows) {k : ℕ}
    (complete : Complete rows (k + 1))
    (same : ∀ first second, SameRules rows
      (stored lengthSort (listings rows redis first second 0))
      (stored lengthSort (listings rows redis first second (k + 1)))) : Unambiguous rows := by
  intro path a mem b mem' hits hits' length
  by_contra ambiguous
  obtain ⟨apart, none_⟩ := not_or.mp ambiguous
  have longest : ∀ other ∈ rows, patternMatches other.pathPattern path = true →
      other.pathPattern.length ≤ a.pathPattern.length := fun other there more =>
    not_lt.mp fun longer => none_ ⟨other, there, more, longer⟩
  have fields (j : ℕ) : ∀ field value, hashAt rows redis j field = some value →
      field ∈ rows.map RuleRow.pathPattern := fun _ _ held => mem_of_hashAt holds held
  have before : findRule (stored lengthSort
      (listings rows redis a.pathPattern b.pathPattern 0)) path = some a.rule :=
    findRule_listFrom holds (fields 0) mem hits longest
  have after : findRule (stored lengthSort
      (listings rows redis a.pathPattern b.pathPattern (k + 1))) path = some b.rule :=
    findRule_listFrom (holds_hashAt holds complete) (fields (k + 1)) mem' hits'
      fun other there more => length ▸ longest other there more
  have changed := (same a.pathPattern b.pathPattern).matched path
  rw [before, after, Option.some.injEq] at changed
  exact apart (congrArg Rule.pathPattern changed).symm

/-- **The rules of the proxy stay the same**, whatever the orders of the listings and of the sort
are, in every run that asks for the hash only at certain times. -/
def StaysSame (rows : List RuleRow) (redis : RulesRedis) (times : ℕ → Prop) : Prop :=
  ∀ sort listing, Sorts sort → (∀ k, Lists (hashAt rows redis k) (listing k)) →
    ∀ t, Steps (Reload.step rows sort listing) (Reload.PollsAt times)
        (Reload.start sort listing) t →
      SameRules rows (Reload.start sort listing).rules t.rules

/-- **When the proxy never loads a partial set of rules**: exactly if at each of the times it asks,
the rebuilding has not begun, or the hash is whole again and the rules are unambiguous. -/
theorem sameRules_iff (holds : Holds redis.hash rows) (times : ℕ → Prop) :
    StaysSame rows redis times ↔
      ∀ k ≤ (reconcileAll rows).length, times k →
        k = 0 ∨ (Complete rows k ∧ Unambiguous rows) := by
  constructor
  · intro all k bound time
    refine or_iff_not_imp_left.mpr fun begun => ?_
    obtain ⟨k, rfl⟩ := Nat.exists_eq_succ_of_ne_zero begun
    have lists (first second : ByteString) (j : ℕ) :
        Lists (hashAt rows redis j) (listings rows redis first second j) :=
      lists_listFrom fun _ _ held => mem_of_hashAt holds held
    have same (first second : ByteString) : SameRules rows
        (stored lengthSort (listings rows redis first second 0))
        (stored lengthSort (listings rows redis first second (k + 1))) :=
      all lengthSort _ sorts_lengthSort (lists first second) _ (Reload.steps_reload bound time)
    have complete := complete_of_sameRules sorts_lengthSort (lists [] [] (k + 1)) (same [] [])
    exact ⟨complete, unambiguous_of_sameRules holds complete same⟩
  · intro whole sort listing sorts lists t steps
    obtain ⟨k, bound, time, rules⟩ := (Reload.listed_of_steps steps).rules
    rw [rules]
    exact sameRules_stored holds sorts lists (or_iff_not_imp_left.mpr fun begun =>
      (whole k bound (time.resolve_left begun)).resolve_left begun)

end Same

/-! ## One rule -/

theorem holds_oneRule : Holds oneRuleStores.redis.hash [oneRule] :=
  (mirrorOf_reconcileAll _ _).holds fun _ mem _ mem' _ =>
    (List.mem_singleton.mp mem).trans (List.mem_singleton.mp mem').symm

/-- **The rule that keeps a path out of the cache is missing** in a proxy that reloads the rules
right after the deletion. -/
theorem not_staysSame_oneRule :
    Holds oneRuleStores.redis.hash [oneRule] ∧
      ¬ StaysSame [oneRule] oneRuleStores.redis (fun _ => True) := by
  have lists (k : ℕ) : Lists (hashAt [oneRule] oneRuleStores.redis k)
      (listings [oneRule] oneRuleStores.redis [] [] k) :=
    lists_listFrom fun _ _ held => mem_of_hashAt holds_oneRule held
  refine ⟨holds_oneRule, fun stays => ?_⟩
  have same := stays lengthSort _ sorts_lengthSort lists _
    (Reload.steps_reload (k := 1) (by decide) trivial)
  obtain ⟨done, none_, -⟩ := complete_of_sameRules sorts_lengthSort (lists 1) same oneRule
    (List.mem_singleton_self _)
  cases none_

/-- Reloads before the deletion, and after the field has been set again, find the rule. -/
theorem staysSame_oneRule : StaysSame [oneRule] oneRuleStores.redis (fun k => k ≠ 1) := by
  refine (sameRules_iff holds_oneRule _).mpr fun k _ other => ?_
  refine or_iff_not_imp_left.mpr fun begun => ⟨fun row mem => ⟨row, ?_, rfl⟩, ?_⟩
  · rwa [List.take_of_length_le (by simp; omega)]
  · intro path _ mem _ mem' _ _ _
    exact Or.inl (by rw [List.mem_singleton.mp mem, List.mem_singleton.mp mem'])

end EdgeCache

import EdgeCache.RuleMirror

/-!
# Concurrent updates of one rule

Any number of `PUT /rules/:id` for one row run at the same time, and at most one other instance of
the control plane starts and rebuilds the hash.  Each of them first reads or writes the table, in
one query, and then sends its commands to Redis one by one; between any two of these, the others
may go on.

`Pending` says that somebody has yet to set the field of the rule, and `Current` that the field
holds the row as it stands.

* `settled_step_iff` — **what one step keeps**: one of the two holds again after a step exactly if
  the step is `UpToDate`, that is, does not set the field last and to a row that has changed since
  it was read; and `not_settled_step`, that they never hold again otherwise.
* `converged_iff` — so the field ends as the row does exactly if every step is up to date.
-/

namespace EdgeCache

open Transition RedisCoordinator

/-! ## The parties -/

/-- How far a party has come: before its query, or sending what is left of its commands. -/
inductive Progress
  | starting
  | sending (commands : List Command)
  deriving DecidableEq

/-- The stores, the requests, and the other instance under `none`. -/
structure RuleWriting (ι : Type) where
  table : RuleTable
  redis : RulesRedis
  progress : Option ι → Progress

/-- One query, or one command. -/
inductive WriterAction (ι : Type)
  /-- A request checks its body and updates the row. -/
  | update (i : ι)
  /-- The other instance lists the rules; the order is not fixed where the keys are equal. -/
  | list (rules : List RuleRow)
  /-- Redis executes the next command of a party. -/
  | send (who : Option ι)

namespace RuleWriting

variable {ι : Type} [DecidableEq ι]

/-- A party comes further. -/
def advance (s : RuleWriting ι) (who : Option ι) (progress : Progress) : RuleWriting ι :=
  { s with progress := Function.update s.progress who progress }

theorem advance_progress_self (s : RuleWriting ι) (who : Option ι) (progress : Progress) :
    (s.advance who progress).progress who = progress := Function.update_self _ _ _

theorem advance_progress_of_ne (s : RuleWriting ι) {who other : Option ι} (progress : Progress)
    (apart : other ≠ who) : (s.advance who progress).progress other = s.progress other :=
  Function.update_of_ne apart _ _

/-- One step of the requests for the row `id` with the bodies `bodies`, or of the other
instance. -/
def step (id : Uuid) (bodies : ι → UpdateRule) (s : RuleWriting ι) :
    WriterAction ι → Option (RuleWriting ι)
  | .update i =>
      if s.progress (some i) = .starting then
        if (bodies i).valid then
          match RulesRepo.update s.table id (bodies i) with
          | none => some (s.advance (some i) (.sending []))
          | some (rule, table) =>
              some ({ s with table := table }.advance (some i) (.sending (upsertRule rule)))
        else some (s.advance (some i) (.sending []))
      else none
  | .list rules =>
      if s.progress none = .starting ∧ rules.Perm s.table.rows then
        some (s.advance none (.sending (reconcileAll rules)))
      else none
  | .send who =>
      match s.progress who with
      | .sending (command :: rest) =>
          some ({ s with redis := s.redis.exec command }.advance who (.sending rest))
      | _ => none

/-- Every party has come to its end. -/
def Finished (s : RuleWriting ι) : Prop := ∀ who, s.progress who = .sending []

variable {id : Uuid} {bodies : ι → UpdateRule} {pattern : ByteString} {s t : RuleWriting ι}

/-- **What a step can do.** -/
inductive Course (id : Uuid) (bodies : ι → UpdateRule) (s : RuleWriting ι) :
    WriterAction ι → RuleWriting ι → Prop
  | refused {i : ι} (starting : s.progress (some i) = .starting)
      (failed : (bodies i).valid = false ∨ RulesRepo.get s.table id = none) :
      Course id bodies s (.update i) (s.advance (some i) (.sending []))
  | updated {i : ι} {row : RuleRow} (starting : s.progress (some i) = .starting)
      (valid : (bodies i).valid = true) (mem : row ∈ s.table.rows) (same : row.id = id) :
      Course id bodies s (.update i)
        ({ s with table := RulesRepo.updated s.table id (bodies i) }.advance (some i)
          (.sending (upsertRule (row.patch (bodies i)))))
  | listed {rules : List RuleRow} (starting : s.progress none = .starting)
      (all : rules.Perm s.table.rows) :
      Course id bodies s (.list rules) (s.advance none (.sending (reconcileAll rules)))
  | sent {who : Option ι} {command : Command} {rest : List Command}
      (sending : s.progress who = .sending (command :: rest)) :
      Course id bodies s (.send who)
        ({ s with redis := s.redis.exec command }.advance who (.sending rest))

theorem course_of_step {a : WriterAction ι} (taken : step id bodies s a = some t) :
    Course id bodies s a t := by
  cases a with
  | update i =>
      rw [step] at taken
      split at taken
      · rename_i starting
        split at taken
        · rename_i valid
          cases found : RulesRepo.get s.table id with
          | none =>
              rw [RulesRepo.update, found] at taken
              cases taken
              exact .refused starting (Or.inr found)
          | some row =>
              rw [RulesRepo.update, found] at taken
              cases taken
              exact .updated starting valid (mem_of_get found).1 (mem_of_get found).2
        · rename_i invalid
          cases taken
          exact .refused starting (Or.inl (by simpa using invalid))
      · cases taken
  | list rules =>
      rw [step] at taken
      split at taken
      · rename_i listing
        cases taken
        exact .listed listing.1 listing.2
      · cases taken
  | send who =>
      rw [step] at taken
      split at taken
      · rename_i sending
        cases taken
        exact .sent sending
      · cases taken

/-! ## The field -/

/-- A party has yet to set the field. -/
def ToCome (bodies : ι → UpdateRule) (pattern : ByteString) (who : Option ι) : Progress → Prop
  | .starting => ∀ i, who = some i → (bodies i).valid = true
  | .sending commands => ∃ value, Command.hset pattern value ∈ commands

/-- Somebody has yet to set the field. -/
def Pending (bodies : ι → UpdateRule) (pattern : ByteString) (s : RuleWriting ι) : Prop :=
  ∃ who, ToCome bodies pattern who (s.progress who)

/-- The field holds the values of the row as it stands. -/
def Current (id : Uuid) (pattern : ByteString) (s : RuleWriting ι) : Prop :=
  ∃ row ∈ s.table.rows, row.id = id ∧ s.redis.hash pattern = some (ruleValue row)

/-- **A step is up to date**: who sets the field has read the row as it still stands, or the field
will be set again. -/
def UpToDate (id : Uuid) (bodies : ι → UpdateRule) (pattern : ByteString) (s : RuleWriting ι) :
    WriterAction ι → Prop
  | .send who => ∀ value rest, s.progress who = .sending (.hset pattern value :: rest) →
      (∃ row ∈ s.table.rows, row.id = id ∧ ruleValue row = value) ∨
        (∃ later, Command.hset pattern later ∈ rest) ∨
        ∃ other, other ≠ who ∧ ToCome bodies pattern other (s.progress other)
  | _ => True

omit [DecidableEq ι] in
theorem pending_iff (who : Option ι) :
    Pending bodies pattern s ↔ ToCome bodies pattern who (s.progress who) ∨
      ∃ other, other ≠ who ∧ ToCome bodies pattern other (s.progress other) := by
  constructor
  · rintro ⟨other, toCome⟩
    by_cases same : other = who
    · exact Or.inl (same ▸ toCome)
    · exact Or.inr ⟨other, same, toCome⟩
  · rintro (toCome | ⟨other, -, toCome⟩)
    · exact ⟨who, toCome⟩
    · exact ⟨other, toCome⟩

theorem pending_advance_iff {who : Option ι} {progress : Progress} :
    Pending bodies pattern (s.advance who progress) ↔ ToCome bodies pattern who progress ∨
      ∃ other, other ≠ who ∧ ToCome bodies pattern other (s.progress other) := by
  rw [pending_iff who, advance_progress_self]
  refine or_congr_right (exists_congr fun other => and_congr_right fun apart => ?_)
  rw [advance_progress_of_ne s progress apart]

/-! ## What is always so -/

/-- Commands that delete the hash only to set the field again. -/
def SafeCommands (pattern : ByteString) : List Command → Prop
  | [] => True
  | .del :: rest => (∃ value, Command.hset pattern value ∈ rest) ∧ SafeCommands pattern rest
  | .hdel _ :: _ => False
  | _ :: rest => SafeCommands pattern rest

/-- The row has its pattern, and nobody deletes the field for good. -/
structure Orderly (id : Uuid) (pattern : ByteString) (s : RuleWriting ι) : Prop where
  row : ∃ row ∈ s.table.rows, row.id = id ∧ row.pathPattern = pattern
  safe : ∀ who commands, s.progress who = .sending commands → SafeCommands pattern commands

omit [DecidableEq ι] in
/-- Updates that keep the pattern keep it in the row. -/
theorem patch_keeps (keeps : ∀ i, (bodies i).pathPattern.getD pattern = pattern) {row : RuleRow}
    (named : row.pathPattern = pattern) (i : ι) :
    (row.patch (bodies i)).pathPattern = pattern := by
  change (bodies i).pathPattern.getD row.pathPattern = _
  rw [named, keeps i]

theorem safe_reconcileAll {rules : List RuleRow} {row : RuleRow} (mem : row ∈ rules) :
    SafeCommands row.pathPattern (reconcileAll rules) := by
  have later : ∀ rules : List RuleRow, SafeCommands row.pathPattern
      ((rules.map fun rule => Command.hset rule.pathPattern (ruleValue rule)) ++
        [.publish (bytes "*")]) := by
    intro rules
    induction rules with
    | nil => exact trivial
    | cons rule rules ih => exact ih
  exact ⟨⟨ruleValue row, List.mem_append_left _ (List.mem_map.mpr ⟨row, mem, rfl⟩)⟩, later rules⟩

/-- Coming further with safe commands keeps the commands safe. -/
theorem Orderly.advance (orderly : Orderly id pattern s) {who : Option ι} {commands : List Command}
    (safe : SafeCommands pattern commands) :
    Orderly id pattern (s.advance who (.sending commands)) := by
  refine ⟨orderly.row, fun other commands' sending => ?_⟩
  by_cases same : other = who
  · rw [same, advance_progress_self, Progress.sending.injEq] at sending
    exact sending ▸ safe
  · rw [advance_progress_of_ne s _ same] at sending
    exact orderly.safe other commands' sending

theorem orderly_step (keeps : ∀ i, (bodies i).pathPattern.getD pattern = pattern)
    (s : RuleWriting ι) (a : WriterAction ι) (t : RuleWriting ι) (orderly : Orderly id pattern s)
    (taken : step id bodies s a = some t) : Orderly id pattern t := by
  obtain ⟨row, mem, same, named⟩ := orderly.row
  cases course_of_step taken with
  | refused => exact orderly.advance trivial
  | @updated i row' starting valid mem' same' =>
      obtain rfl := s.table.eq_of_id_eq mem mem' (same.trans same'.symm)
      have kept := patch_keeps keeps named i
      have patched : Orderly id pattern
          { s with table := RulesRepo.updated s.table id (bodies i) } :=
        ⟨⟨row.patch (bodies i), (mem_updated mem same _).mpr (Or.inl rfl), same, kept⟩,
          orderly.safe⟩
      exact patched.advance trivial
  | listed starting all => exact orderly.advance (named ▸ safe_reconcileAll (all.mem_iff.mpr mem))
  | @sent who command rest sending =>
      have executed : Orderly id pattern { s with redis := s.redis.exec command } :=
        ⟨orderly.row, orderly.safe⟩
      have safe := orderly.safe who _ sending
      refine executed.advance ?_
      cases command with
      | hset => exact safe
      | hdel => exact safe.elim
      | del => exact safe.2
      | publish => exact safe

/-! ## Convergence -/

/-- Somebody has yet to set the field, or it holds the row as it stands. -/
def Settled (id : Uuid) (bodies : ι → UpdateRule) (pattern : ByteString) (s : RuleWriting ι) :
    Prop := Pending bodies pattern s ∨ Current id pattern s

/-- A command that does not set the field changes neither what is to come nor the field. -/
theorem settled_send_iff {who : Option ι} {command : Command} {rest : List Command}
    (sending : s.progress who = .sending (command :: rest))
    (other : ∀ value, command ≠ .hset pattern value)
    (kept : (s.redis.exec command).hash pattern = s.redis.hash pattern) :
    Settled id bodies pattern ({ s with redis := s.redis.exec command }.advance who
      (.sending rest)) ↔ Settled id bodies pattern s := by
  have current : Current id pattern ({ s with redis := s.redis.exec command }.advance who
      (.sending rest)) ↔ Current id pattern s := by
    change (∃ row ∈ s.table.rows, row.id = id ∧ (s.redis.exec command).hash pattern = _) ↔ _
    rw [kept]
    rfl
  have toCome : ToCome bodies pattern who (.sending rest) ↔
      ToCome bodies pattern who (s.progress who) := by
    rw [sending]
    refine exists_congr fun value => ?_
    rw [List.mem_cons, or_iff_right fun same => other value same.symm]
  rw [Settled, Settled, current, pending_advance_iff, toCome, ← pending_iff]

omit [DecidableEq ι] in
/-- A command that does not set the field is up to date. -/
theorem upToDate_send {who : Option ι} {command : Command} {rest : List Command}
    (sending : s.progress who = .sending (command :: rest))
    (other : ∀ value, command ≠ .hset pattern value) :
    UpToDate id bodies pattern s (.send who) := by
  intro value rest' sending'
  rw [sending, Progress.sending.injEq, List.cons.injEq] at sending'
  exact absurd sending'.1 (other value)

/-- **Setting the field** leaves it as it should be exactly if it is up to date. -/
theorem settled_hset_iff {who : Option ι} {value : ByteString} {rest : List Command}
    (sending : s.progress who = .sending (.hset pattern value :: rest)) :
    Settled id bodies pattern ({ s with redis := s.redis.exec (.hset pattern value) }.advance who
      (.sending rest)) ↔ UpToDate id bodies pattern s (.send who) := by
  have current : Current id pattern
      ({ s with redis := s.redis.exec (.hset pattern value) }.advance who (.sending rest)) ↔
      ∃ row ∈ s.table.rows, row.id = id ∧ ruleValue row = value := by
    refine exists_congr fun row => and_congr_right fun _ => and_congr_right fun _ => ?_
    change Function.update s.redis.hash pattern (some value) pattern = _ ↔ _
    rw [Function.update_self, Option.some.injEq, eq_comm]
  have upToDate : UpToDate id bodies pattern s (.send who) ↔
      (∃ row ∈ s.table.rows, row.id = id ∧ ruleValue row = value) ∨
        ToCome bodies pattern who (.sending rest) ∨
        ∃ other, other ≠ who ∧ ToCome bodies pattern other (s.progress other) := by
    constructor
    · exact fun all => all value rest sending
    · intro found value' rest' sending'
      rw [sending, Progress.sending.injEq, List.cons.injEq] at sending'
      obtain ⟨same, rfl⟩ := sending'
      cases same
      exact found
  rw [upToDate, Settled, current, pending_advance_iff, or_comm]

/-- **What one step keeps**: somebody has yet to set the field or it holds the row as it stands,
after a step that is up to date, if it was so before. -/
theorem settled_step_iff (keeps : ∀ i, (bodies i).pathPattern.getD pattern = pattern)
    (s : RuleWriting ι) (a : WriterAction ι) (t : RuleWriting ι) (orderly : Orderly id pattern s)
    (taken : step id bodies s a = some t) :
    Settled id bodies pattern t ↔
      Settled id bodies pattern s ∧ UpToDate id bodies pattern s a := by
  obtain ⟨row, mem, same, named⟩ := orderly.row
  cases course_of_step taken with
  | @refused i starting failed =>
      have invalid : (bodies i).valid = false := failed.resolve_right fun missing => by
        have gone := List.find?_eq_none.mp missing row mem
        exact gone (decide_eq_true same)
      have toCome : ToCome bodies pattern (some i) (.sending []) ↔
          ToCome bodies pattern (some i) (s.progress (some i)) := by
        rw [starting]
        refine iff_of_false (fun ⟨_, mem⟩ => List.not_mem_nil mem) fun valid => ?_
        rw [valid i rfl] at invalid
        cases invalid
      rw [Settled, pending_advance_iff, toCome, ← pending_iff]
      exact (and_iff_left trivial).symm
  | @updated i row' starting valid mem' same' =>
      obtain rfl := s.table.eq_of_id_eq mem mem' (same.trans same'.symm)
      have kept := patch_keeps keeps named i
      refine iff_of_true (Or.inl (pending_advance_iff.mpr (Or.inl ?_)))
        ⟨Or.inl ⟨some i, ?_⟩, trivial⟩
      · exact ⟨ruleValue (row.patch (bodies i)), kept ▸ List.mem_cons_self⟩
      · rw [starting]
        exact fun j here => Option.some.inj here ▸ valid
  | @listed rules starting all =>
      refine iff_of_true (Or.inl (pending_advance_iff.mpr (Or.inl ?_)))
        ⟨Or.inl ⟨none, ?_⟩, trivial⟩
      · have there : Command.hset row.pathPattern (ruleValue row) ∈ reconcileAll rules := by
          refine List.mem_append_left _ (List.mem_cons_of_mem _ ?_)
          exact List.mem_map.mpr ⟨row, all.mem_iff.mpr mem, rfl⟩
        exact ⟨ruleValue row, named ▸ there⟩
      · rw [starting]
        exact fun j none_ => by cases none_
  | @sent who command rest sending =>
      have safe := orderly.safe who _ sending
      cases command with
      | publish message =>
          have other : ∀ value, Command.publish message ≠ .hset pattern value := fun _ => nofun
          rw [settled_send_iff sending other rfl, and_iff_left (upToDate_send sending other)]
      | hdel field => exact safe.elim
      | del =>
          -- The field is set again by the same party.
          refine iff_of_true (Or.inl (pending_advance_iff.mpr (Or.inl safe.1)))
            ⟨Or.inl ⟨who, ?_⟩, upToDate_send sending fun _ => nofun⟩
          rw [sending]
          exact safe.1.imp fun _ later => List.mem_cons_of_mem _ later
      | hset field value =>
          by_cases here : field = pattern
          · subst here
            have before : Settled id bodies field s :=
              Or.inl ⟨who, by rw [sending]; exact ⟨value, List.mem_cons_self⟩⟩
            rw [and_iff_right before, settled_hset_iff sending]
          · have other : ∀ value', Command.hset field value ≠ .hset pattern value' :=
              fun _ same => here (Command.hset.inj same).1
            have kept : (s.redis.exec (.hset field value)).hash pattern = s.redis.hash pattern :=
              Function.update_of_ne (Ne.symm here) _ _
            rw [settled_send_iff sending other kept, and_iff_left (upToDate_send sending other)]

/-- The requests for one row, and perhaps another instance, before their first steps. -/
structure Initial (id : Uuid) (pattern : ByteString) (s : RuleWriting ι) : Prop where
  row : ∃ row ∈ s.table.rows, row.id = id ∧ row.pathPattern = pattern
  alone : ∀ row ∈ s.table.rows, row.pathPattern = pattern → row.id = id
  requests : ∀ i, s.progress (some i) = .starting
  instance_ : s.progress none = .starting ∨ s.progress none = .sending []

/-- **When no update is lost**: once all have finished, the field holds the row as it then stands
exactly if it did so at the start or somebody had yet to set it, and every step was up to date. -/
theorem converged_iff (keeps : ∀ i, (bodies i).pathPattern.getD pattern = pattern)
    (initial : Initial id pattern s) {acts : List (WriterAction ι)}
    (ran : run (step id bodies) s acts = some t) (finished : t.Finished) :
    Current id pattern t ↔
      Settled id bodies pattern s ∧
        Meets (step id bodies) (UpToDate id bodies pattern) s acts := by
  have orderly : Orderly id pattern s := by
    refine ⟨initial.row, fun who commands sending => ?_⟩
    cases who with
    | some i =>
        rw [initial.requests i] at sending
        cases sending
    | none =>
        rcases initial.instance_ with starting | ended
        · rw [starting] at sending
          cases sending
        · rw [ended] at sending
          cases sending
          exact trivial
  rw [← end_iff_meets (orderly_step keeps) (settled_step_iff keeps) orderly ran, Settled,
    or_iff_right]
  -- Who has finished has nothing left to set.
  rintro ⟨who, toCome⟩
  rw [finished who] at toCome
  obtain ⟨_, none_⟩ := toCome
  cases none_

/-! ## Two requests -/

/-- Two requests, for 60 and for 10 seconds. -/
def twoBodies (second : Bool) : UpdateRule := ⟨none, some (if second then 10 else 60), none, none⟩

/-- The two requests for the one rule, before their first steps. -/
def twoWriters : RuleWriting Bool where
  table := oneRuleStores.table
  redis := oneRuleStores.redis
  progress who := if who = none then .sending [] else .starting

/-- The two updates, and then the commands of the two in the order of `first` and `second`. -/
def schedule (first second : Bool) : List (WriterAction Bool) :=
  [.update false, .update true, .send (some first), .send (some second), .send (some first),
    .send (some second)]

theorem initial_twoWriters : Initial ruleId oneRule.pathPattern twoWriters where
  row := ⟨oneRule, List.mem_singleton_self _, rfl, rfl⟩
  alone row mem _ := by rw [List.mem_singleton.mp mem]; rfl
  requests _ := rfl
  instance_ := Or.inr rfl

/-- Whether all have finished, and the field is that of a row with so many seconds. -/
def endsWith (s : RuleWriting Bool) (row field : Int32) : Bool :=
  [none, some false, some true].all (fun who => s.progress who = .sending []) &&
    s.table.rows = [{ oneRule with ttlSeconds := row }] &&
    s.redis.hash oneRule.pathPattern = some (ruleValue { oneRule with ttlSeconds := field })

theorem finished_of_endsWith {s : RuleWriting Bool} {row field : Int32}
    (ends : endsWith s row field = true) : s.Finished := by
  rw [endsWith, Bool.and_eq_true, Bool.and_eq_true, List.all_eq_true] at ends
  rintro (_ | second)
  · exact of_decide_eq_true (ends.1.1 none (by decide))
  · cases second
    · exact of_decide_eq_true (ends.1.1 (some false) (by decide))
    · exact of_decide_eq_true (ends.1.1 (some true) (by decide))

/-- At the start the field holds the row. -/
theorem current_twoWriters : Current ruleId oneRule.pathPattern twoWriters := by
  refine ⟨oneRule, List.mem_singleton_self _, rfl, ?_⟩
  have rebuilt := (mirrorOf_reconcileAll ⟨fun _ => none, []⟩ [oneRule]).row oneRule
    (List.mem_singleton_self _)
  obtain ⟨value, held⟩ := Option.ne_none_iff_exists'.mp rebuilt
  obtain ⟨row, mem, -, rfl⟩ := (mirrorOf_reconcileAll _ _).field _ _ held
  rw [List.mem_singleton.mp mem] at held
  exact held

/-- **The first update comes last to Redis**, and stays there. -/
theorem not_current_swapped :
    Initial ruleId oneRule.pathPattern twoWriters ∧ Current ruleId oneRule.pathPattern twoWriters ∧
      ∃ t, run (step ruleId twoBodies) twoWriters (schedule true false) = some t ∧ t.Finished ∧
        ¬ Current ruleId oneRule.pathPattern t := by
  obtain ⟨t, ran, ends⟩ := exists_of_run
    (show (run (step ruleId twoBodies) twoWriters (schedule true false)).any
      (fun t => endsWith t 10 60) = true by decide +kernel)
  refine ⟨initial_twoWriters, current_twoWriters, t, ran, finished_of_endsWith ends, ?_⟩
  rintro ⟨row, mem, -, held⟩
  rw [endsWith, Bool.and_eq_true, Bool.and_eq_true, decide_eq_true_eq, decide_eq_true_eq] at ends
  rw [ends.1.2, List.mem_singleton] at mem
  rw [ends.2, mem, Option.some.injEq] at held
  revert held
  decide +kernel

/-- In the order of the updates the commands are up to date. -/
theorem current_inOrder :
    ∃ t, run (step ruleId twoBodies) twoWriters (schedule false true) = some t ∧
      Settled ruleId twoBodies oneRule.pathPattern twoWriters ∧
      Meets (step ruleId twoBodies) (UpToDate ruleId twoBodies oneRule.pathPattern) twoWriters
        (schedule false true) := by
  obtain ⟨t, ran, ends⟩ := exists_of_run
    (show (run (step ruleId twoBodies) twoWriters (schedule false true)).any
      (fun t => endsWith t 10 10) = true by decide +kernel)
  have keeps : ∀ second, (twoBodies second).pathPattern.getD oneRule.pathPattern =
      oneRule.pathPattern := fun _ => rfl
  refine ⟨t, ran, (converged_iff keeps initial_twoWriters ran (finished_of_endsWith ends)).mp ?_⟩
  rw [endsWith, Bool.and_eq_true, Bool.and_eq_true, decide_eq_true_eq, decide_eq_true_eq] at ends
  exact ⟨_, ends.1.2 ▸ List.mem_singleton_self _, rfl, ends.2⟩

end RuleWriting

end EdgeCache

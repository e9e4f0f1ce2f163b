import EdgeCache.RuleText
import EdgeCache.SubscriberLoop
import EdgeCache.Lib.Transition

/-!
# The poller of the rules

Two threads of `RedisCoordinator` share the flag `reloadRequested_`: the subscriber sets it when a
rule update arrives, the poller clears it and reloads the rules.  `step` has a step for every
position of the poller's loop; in between come messages, the clock and `stop`.  What Redis answers
is in the action: the reply `command` returns, which is an error where the command failed.

The flag is cleared before the reload is known to succeed.  `kept_iff` says when this is harmless:
an update is never lost in a run, **exactly if** no reload fails with an update to serve, unless
another one has set the flag again.
-/

namespace EdgeCache

open Transition

/-- The settings of the coordinator that its loops read. -/
structure CoordinatorConfig where
  redisPassword : ByteString
  purgeChannel : ByteString
  ruleUpdateChannel : ByteString
  rulePollIntervalSeconds : ℤ

/-- Where `subscriberLoop` sets `reloadRequested_`: the message is one of the channel of the rule
updates, which the branch of the purges has left. -/
def CoordinatorConfig.isRuleUpdate (C : CoordinatorConfig) (msg : RedisReply) : Bool :=
  match msg.type, msg.elements with
  | .array, [kind, channel, _] =>
      kind.str = bytes "message" && channel.str ≠ C.purgeChannel &&
        channel.str = C.ruleUpdateChannel
  | _, _ => false

/-- The control plane's message is a rule update. -/
theorem CoordinatorConfig.isRuleUpdate_publication (C : CoordinatorConfig)
    (apart : C.ruleUpdateChannel ≠ C.purgeChannel) (payload : ByteString) :
    C.isRuleUpdate (publication C.ruleUpdateChannel payload).toReply = true := by
  show (decide (bytes "message" = bytes "message") &&
    decide (C.ruleUpdateChannel ≠ C.purgeChannel) &&
    decide (C.ruleUpdateChannel = C.ruleUpdateChannel)) = true
  simp [apart]

namespace Poller

/-! ## The loop -/

/-- Where `pollerLoop` stands. -/
inductive Pc where
  /-- Before the test of `running_`. -/
  | top
  /-- In `conn.connect()`. -/
  | connecting
  /-- Before the clock is read. -/
  | looking
  /-- In the `PING`. -/
  | pinging (now : ℤ)
  /-- Before the exchange of `reloadRequested_`. -/
  | polling (now : ℤ)
  /-- In a call of `reloadRules` that started when so many updates had been handled. -/
  | reloading (now : ℤ) (start : ℕ)
  /-- In `sleep_for`. -/
  | sleeping
  /-- Behind the loop. -/
  | ended
  deriving DecidableEq

/-- What the two threads work on.  The last two fields are there for the statements only: the
number of rule updates handled, and the number of them when the last successful reload started. -/
structure State where
  running : Bool
  reloadRequested : Bool
  connected : Bool
  connOpen : Bool
  /-- `steady_clock`, in nanoseconds. -/
  clock : ℤ
  lastPoll : ℤ
  lastPing : ℤ
  rules : List Rule
  pc : Pc
  handled : ℕ
  served : ℕ

/-- What happens next. -/
inductive Action where
  /-- Time passes. -/
  | tick (elapsed : ℕ)
  /-- `stop` clears `running_`. -/
  | stop
  /-- The subscriber handles a message. -/
  | receive (msg : RedisReply)
  /-- The poller tests `running_`, and whether it is connected. -/
  | test
  /-- `connect` returns. -/
  | connect (ok : Bool)
  /-- The poller reads the clock, and finds out whether a `PING` is due. -/
  | look
  /-- `PING` returns. -/
  | pong (reply : RedisReply)
  /-- The poller exchanges the flag, and enters `reloadRules` where it was set or a poll is due. -/
  | exchange
  /-- `HGETALL` returns. -/
  | hgetall (reply : RedisReply)
  /-- The poller wakes up. -/
  | wake

/-- An hour. -/
def hour : ℤ := 3600 * 1000000000

/-- Before the loops, when `lastPoll` and `lastPing` were computed at these times. -/
def initial (rules : List Rule) (pollRead pingRead : ℤ) : State where
  running := true
  reloadRequested := true
  connected := false
  connOpen := false
  clock := pingRead
  lastPoll := pollRead - hour
  lastPing := pingRead - hour
  rules := rules
  pc := .top
  handled := 0
  served := 0

/-- Whether `PING` is due: `kPingIntervalMs` have passed. -/
def State.pingDue (s : State) : Prop := 1000 ≤ (s.clock - s.lastPing).tdiv 1000000

instance (s : State) : Decidable s.pingDue :=
  inferInstanceAs (Decidable (1000 ≤ (s.clock - s.lastPing).tdiv 1000000))

/-- `due`. -/
def State.due (s : State) (C : CoordinatorConfig) (now : ℤ) : Bool :=
  C.rulePollIntervalSeconds ≤ (now - s.lastPoll).tdiv 1000000000

variable (C : CoordinatorConfig) (sort : List Rule → List Rule)

/-- **One step**; `sort` is what `replaceAll` does to the rules. -/
def step (s : State) : Action → Option State
  | .tick elapsed => some { s with clock := s.clock + elapsed }
  | .stop => some { s with running := false }
  | .receive msg =>
      some (if C.isRuleUpdate msg then
        { s with reloadRequested := true, handled := s.handled + 1 } else s)
  | .test =>
      match s.pc with
      | .top =>
          some (if s.running then { s with pc := if s.connOpen then .looking else .connecting }
            else { s with connOpen := false, pc := .ended })
      | _ => none
  | .connect ok =>
      match s.pc with
      | .connecting =>
          some (if ok then { s with connOpen := true, pc := .looking }
            else { s with connected := false, pc := .sleeping })
      | _ => none
  | .look =>
      match s.pc with
      | .looking =>
          some { s with pc := if s.pingDue then .pinging s.clock else .polling s.clock }
      | _ => none
  | .pong reply =>
      match s.pc with
      | .pinging now =>
          some (if reply.type = .status ∧ !reply.isError then
            { s with lastPing := now, connected := true, pc := .polling now }
          else
            { s with lastPing := now, connected := false, connOpen := false, pc := .sleeping })
      | _ => none
  | .exchange =>
      match s.pc with
      | .polling now =>
          some { s with
            reloadRequested := false
            pc := if s.reloadRequested || s.due C now then .reloading now s.handled
              else .sleeping }
      | _ => none
  | .hgetall reply =>
      match s.pc with
      | .reloading now start =>
          some (match reloadRules reply with
            | some rules =>
                { s with
                  connected := true
                  lastPoll := now
                  rules := sort rules
                  pc := .sleeping
                  served := start }
            | none => { s with connected := false, connOpen := false, pc := .sleeping })
      | _ => none
  | .wake =>
      match s.pc with
      | .sleeping => some { s with pc := .top }
      | _ => none

/-! ## What one step does -/

/-- **The effect of a step** on the flag and the calls of `reloadRules`. -/
inductive Effect (s : State) (a : Action) (s' : State) : Prop where
  /-- Neither the flag nor a reload is concerned. -/
  | quiet (flag : s'.reloadRequested = s.reloadRequested) (handled : s'.handled = s.handled)
      (served : s'.served = s.served)
      (calls : ∀ now start, s'.pc = .reloading now start ↔ s.pc = .reloading now start)
      (other : ∀ reply, a ≠ .hgetall reply)
  /-- A rule update sets the flag. -/
  | updated (flag : s'.reloadRequested = true) (handled : s'.handled = s.handled + 1)
      (served : s'.served = s.served) (pc : s'.pc = s.pc) (other : ∀ reply, a ≠ .hgetall reply)
  /-- The exchange takes the flag, and starts a reload if it was set. -/
  | exchanged (now : ℤ) (here : s.pc = .polling now) (handled : s'.handled = s.handled)
      (served : s'.served = s.served)
      (starts : s'.pc = .reloading now s.handled ∨
        s'.pc = .sleeping ∧ s.reloadRequested = false ∧ s'.reloadRequested = false)
      (flag : s'.reloadRequested = false) (other : ∀ reply, a ≠ .hgetall reply)
  /-- A reload succeeds. -/
  | succeeded (now : ℤ) (start : ℕ) (reply : RedisReply) (call : a = .hgetall reply)
      (here : s.pc = .reloading now start) (array : reloadRules reply ≠ none)
      (flag : s'.reloadRequested = s.reloadRequested) (handled : s'.handled = s.handled)
      (served : s'.served = start) (pc : s'.pc = .sleeping)
  /-- A reload fails. -/
  | failed (now : ℤ) (start : ℕ) (reply : RedisReply) (call : a = .hgetall reply)
      (here : s.pc = .reloading now start) (refused : reloadRules reply = none)
      (flag : s'.reloadRequested = s.reloadRequested) (handled : s'.handled = s.handled)
      (served : s'.served = s.served) (pc : s'.pc = .sleeping)

section Effects

variable {C sort} {s s' : State} {a : Action}

/-- A step from one place outside of `reloadRules` to another. -/
theorem Effect.moves (flag : s'.reloadRequested = s.reloadRequested)
    (handled : s'.handled = s.handled) (served : s'.served = s.served)
    (outside : ∀ now start, s.pc ≠ .reloading now start)
    (outside' : ∀ now start, s'.pc ≠ .reloading now start) (other : ∀ reply, a ≠ .hgetall reply) :
    Effect s a s' :=
  .quiet flag handled served
    (fun now start => iff_of_false (outside' now start) (outside now start)) other

/-- **Every step has one of these effects.** -/
theorem effect_of_step (taken : step C sort s a = some s') : Effect s a s' := by
  cases a with
  | tick elapsed =>
      cases taken
      exact .quiet rfl rfl rfl (fun _ _ => Iff.rfl) (by intro _ h; cases h)
  | stop =>
      cases taken
      exact .quiet rfl rfl rfl (fun _ _ => Iff.rfl) (by intro _ h; cases h)
  | receive msg =>
      cases taken
      cases C.isRuleUpdate msg with
      | true => exact .updated rfl rfl rfl rfl (by intro _ h; cases h)
      | false => exact .quiet rfl rfl rfl (fun _ _ => Iff.rfl) (by intro _ h; cases h)
  | test =>
      cases here : s.pc with
      | top =>
          simp only [step, here, Option.some.injEq] at taken
          subst taken
          cases s.running with
          | false => exact .moves rfl rfl rfl (by simp [here]) (by simp) (by intro _ h; cases h)
          | true =>
              refine .moves rfl rfl rfl (by simp [here]) (fun _ _ => ?_) (by intro _ h; cases h)
              show (if s.connOpen = true then Pc.looking else .connecting) ≠ _
              split <;> simp
      | _ => simp [step, here] at taken
  | connect ok =>
      cases here : s.pc with
      | connecting =>
          simp only [step, here, Option.some.injEq] at taken
          subst taken
          cases ok <;> exact .moves rfl rfl rfl (by simp [here]) (by simp) (by intro _ h; cases h)
      | _ => simp [step, here] at taken
  | look =>
      cases here : s.pc with
      | looking =>
          simp only [step, here, Option.some.injEq] at taken
          subst taken
          refine .moves rfl rfl rfl (by simp [here]) (fun _ _ => ?_) (by intro _ h; cases h)
          show (if s.pingDue then Pc.pinging s.clock else .polling s.clock) ≠ _
          split <;> simp
      | _ => simp [step, here] at taken
  | pong reply =>
      cases here : s.pc with
      | pinging now =>
          simp only [step, here, Option.some.injEq] at taken
          subst taken
          split <;> exact .moves rfl rfl rfl (by simp [here]) (by simp) (by intro _ h; cases h)
      | _ => simp [step, here] at taken
  | exchange =>
      cases here : s.pc with
      | polling now =>
          simp only [step, here, Option.some.injEq] at taken
          subst taken
          refine .exchanged now here rfl rfl ?_ rfl (by intro _ h; cases h)
          show (if (s.reloadRequested || s.due C now) = true then Pc.reloading now s.handled
            else .sleeping) = _ ∨ (if _ then _ else _) = _ ∧ _
          split
          · exact .inl rfl
          · rename_i neither
            simp only [Bool.or_eq_true, not_or, Bool.not_eq_true] at neither
            exact .inr ⟨rfl, neither.1, rfl⟩
      | _ => simp [step, here] at taken
  | hgetall reply =>
      cases here : s.pc with
      | reloading now start =>
          simp only [step, here, Option.some.injEq] at taken
          subst taken
          split
          · rename_i rules array
            exact .succeeded now start reply rfl here (by simp [array]) rfl rfl rfl rfl
          · rename_i refused
            exact .failed now start reply rfl here refused rfl rfl rfl rfl
      | _ => simp [step, here] at taken
  | wake =>
      cases here : s.pc with
      | sleeping =>
          simp only [step, here, Option.some.injEq] at taken
          subst taken
          exact .moves rfl rfl rfl (by simp [here]) (by simp) (by intro _ h; cases h)
      | _ => simp [step, here] at taken

end Effects

/-! ## No update is lost -/

/-- **No rule update is lost**: for every one handled after the start of the last successful
reload, the flag is set or a reload that started behind it is in progress. -/
def Kept (s : State) : Prop :=
  ∀ m, s.served < m → m ≤ s.handled →
    s.reloadRequested = true ∨ ∃ now start, s.pc = .reloading now start ∧ m ≤ start

/-- **Where a reload fails, no update is to be served**, or one has set the flag again. -/
def Excused (s : State) (a : Action) : Prop :=
  ∀ reply, a = .hgetall reply → reloadRules reply = none →
    s.reloadRequested = true ∨ s.handled ≤ s.served

/-- **The reloads are in order**: the one in progress started behind the last one that succeeded,
and the updates since its start have set the flag. -/
structure Ordered (s : State) : Prop where
  served : s.served ≤ s.handled
  after : ∀ now start, s.pc = .reloading now start → s.served ≤ start
  started : ∀ now start, s.pc = .reloading now start → start ≤ s.handled
  since : ∀ now start, s.pc = .reloading now start → start < s.handled →
    s.reloadRequested = true

section Runs

variable {C sort} {s s' : State} {a : Action}

theorem ordered_initial (rules : List Rule) (pollRead pingRead : ℤ) :
    Ordered (initial rules pollRead pingRead) :=
  ⟨Nat.le_refl 0, by simp [initial], by simp [initial], by simp [initial]⟩

theorem kept_initial (rules : List Rule) (pollRead pingRead : ℤ) :
    Kept (initial rules pollRead pingRead) := fun _ _ _ => .inl rfl

/-- Every step keeps the order of the reloads. -/
theorem Ordered.step (ordered : Ordered s) (taken : step C sort s a = some s') : Ordered s' := by
  obtain ⟨served, after, started, since⟩ := ordered
  cases effect_of_step taken with
  | quiet flag handled served' calls _ =>
      constructor <;> simp only [calls, flag, handled, served'] <;> assumption
  | updated flag handled served' pc _ =>
      constructor
      · omega
      · rw [pc, served']
        exact after
      · intro now start here
        have := started now start (pc ▸ here)
        omega
      · exact fun _ _ _ _ => flag
  | exchanged now here handled served' starts _ _ =>
      rcases starts with starts | ⟨asleep, -⟩
      · refine ⟨by omega, ?_, ?_, ?_⟩
        all_goals
          intro now' start here'
          rw [starts, Pc.reloading.injEq] at here'
          omega
      · exact ⟨by omega, by simp [asleep], by simp [asleep], by simp [asleep]⟩
  | succeeded now start reply _ here _ _ handled served' pc =>
      have := started now start here
      exact ⟨by omega, by simp [pc], by simp [pc], by simp [pc]⟩
  | failed now start reply _ _ _ _ handled served' pc =>
      exact ⟨by omega, by simp [pc], by simp [pc], by simp [pc]⟩

/-- **One step**: no update is lost exactly if none is to be served where a reload fails. -/
theorem kept_step_iff (ordered : Ordered s) (kept : Kept s)
    (taken : step C sort s a = some s') : Kept s' ↔ Excused s a := by
  cases effect_of_step taken with
  | quiet flag handled served calls other =>
      refine iff_of_true ?_ fun reply call => absurd call (other reply)
      simp only [Kept, calls, flag, handled, served]
      exact kept
  | updated flag _ _ _ other =>
      exact iff_of_true (fun _ _ _ => .inl flag) fun reply call => absurd call (other reply)
  | exchanged now here handled served starts _ other =>
      refine iff_of_true (fun m later earlier => ?_) fun reply call => absurd call (other reply)
      rcases starts with starts | ⟨-, clear, -⟩
      · exact .inr ⟨now, s.handled, starts, handled ▸ earlier⟩
      · rw [served] at later
        rw [handled] at earlier
        rcases kept m later earlier with set | ⟨_, _, busy, -⟩
        · rw [clear] at set
          cases set
        · rw [here] at busy
          cases busy
  | succeeded now start reply call here array flag handled served pc =>
      refine iff_of_true (fun m later earlier => .inl ?_) fun reply' call' refused => ?_
      · rw [flag]
        exact ordered.since now start here (by omega)
      · rw [call, Action.hgetall.injEq] at call'
        exact absurd (call' ▸ refused) array
  | failed now start reply call here refused flag handled served pc =>
      constructor
      · intro still reply' _ _
        by_cases waiting : s.handled ≤ s.served
        · exact .inr waiting
        · rcases still s.handled (by omega) (by omega) with set | ⟨_, _, busy, -⟩
          · exact .inl (flag ▸ set)
          · rw [pc] at busy
            cases busy
      · intro excused m later earlier
        rcases excused reply call refused with set | none_
        · exact .inl (flag.trans set)
        · omega

/-- **No rule update is lost in a run exactly if every reload of it that fails finds none to serve,
or the flag set again.** -/
theorem kept_iff {rules : List Rule} {pollRead pingRead : ℤ} {acts : List Action} {t : State}
    (ran : run (step C sort) (initial rules pollRead pingRead) acts = some t) :
    (∀ n u, run (step C sort) (initial rules pollRead pingRead) (acts.take n) = some u → Kept u) ↔
      Meets (step C sort) Excused (initial rules pollRead pingRead) acts :=
  @forall_run_take_iff_knowing _ _ (step C sort) Excused Ordered Kept
    (fun _ _ _ ordered taken => ordered.step taken)
    (fun _ _ _ ordered kept taken => kept_step_iff ordered kept taken) _ _ _
    (ordered_initial rules pollRead pingRead) (kept_initial rules pollRead pingRead) ran

end Runs

/-! ## A reload that fails -/

/-- The settings the proxy comes with. -/
def defaults : CoordinatorConfig where
  redisPassword := []
  purgeChannel := bytes "edgecache:purge"
  ruleUpdateChannel := bytes "edgecache:rules:updated"
  rulePollIntervalSeconds := 15

/-- A rule update, as the control plane publishes it. -/
def ruleUpdated : Action := .receive (publication defaults.ruleUpdateChannel (bytes "/a")).toReply

/-- The poller has loaded the rules, and takes up an update. -/
def takesUp : List Action :=
  [.test, .connect true, .look, .pong (.text .status (bytes "PONG")), .exchange,
    .hgetall (hgetall []).toReply, .wake, ruleUpdated, .test, .look, .exchange]

/-- Redis hangs up in the reload. -/
def hangsUp : Action := .hgetall (.text .error (bytes "read failed"))

/-- Another update comes before the reload fails. -/
theorem kept_takesUp :
    ∃ s, run (step defaults id) (initial [] 0 0) (takesUp ++ [ruleUpdated, hangsUp]) = some s ∧
      ∀ n u, run (step defaults id) (initial [] 0 0) ((takesUp ++ [ruleUpdated, hangsUp]).take n) =
        some u → Kept u := by
  obtain ⟨s, ran, -⟩ := exists_of_run
    (show (run (step defaults id) (initial [] 0 0) (takesUp ++ [ruleUpdated, hangsUp])).any
      (fun s => s.reloadRequested) = true by decide +kernel)
  refine ⟨s, ran, (kept_iff ran).mpr ?_⟩
  refine @meets_of_passes _ _ _ _
    (fun s a => match a with
      | .hgetall reply => (reloadRules reply).isSome || s.reloadRequested
      | _ => true) ?_ _ _ (by decide +kernel)
  rintro s a excused reply rfl refused
  have set : ((reloadRules reply).isSome || s.reloadRequested) = true := excused
  rw [refused] at set
  exact .inl set

/-- The update is lost: the flag is down, and no reload is in progress. -/
theorem not_kept_takesUp :
    ∃ s, run (step defaults id) (initial [] 0 0) (takesUp ++ [hangsUp]) = some s ∧ ¬ Kept s := by
  obtain ⟨s, ran, lost⟩ := exists_of_run
    (show (run (step defaults id) (initial [] 0 0) (takesUp ++ [hangsUp])).any
      (fun s => s.served = 0 && s.handled = 1 && !s.reloadRequested && s.pc = .sleeping) = true by
      decide +kernel)
  simp only [Bool.and_eq_true, decide_eq_true_eq, Bool.not_eq_true'] at lost
  obtain ⟨⟨⟨served, handled⟩, clear⟩, asleep⟩ := lost
  refine ⟨s, ran, fun kept => ?_⟩
  rcases kept 1 (by omega) (by omega) with set | ⟨_, _, busy, -⟩
  · rw [clear] at set
    cases set
  · rw [asleep] at busy
    cases busy

end Poller

end EdgeCache

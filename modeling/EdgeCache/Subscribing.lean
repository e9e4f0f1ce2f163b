import EdgeCache.RulePolling

/-!
# Subscribing

`RedisCoordinator::subscriberLoop` connects, subscribes to the purges and the rule updates, and
then reads message after message.  `step` is that loop, with a step for every call it makes; what
Redis does is in the action: the messages it will send on a connection, and the rounds in which
their bytes come.

The loop tests only whether the connection is open.  `subscribe` counts two replies of any kind as
the confirmations, and where a wait for one of them ends without bytes it gives up with the
connection open.

* `subscribed_iff` — the loop never reads from a connection that is not subscribed, **exactly if**
  every `subscribe` either ends with the connection closed or has received the two confirmations.
* `asked` — in any case it has asked for them.
-/

namespace EdgeCache

open Transition

/-- `RedisConnection::subscribe`; `written` is whether `writeAll` succeeds. -/
def RedisConnection.subscribe (channels : List ByteString) (written : Bool)
    (script : List Round) (c : Conn) : Read (List RedisReply) :=
  if c.connected = false then .returned false [] c script
  else if written = false then .returned false [] c.close script
  else readElements (fun script c => parseReply (available script c + 1) script c)
    channels.length script c

/-- What an attempt to connect meets: no socket, or one on which `AUTH` is written and answered,
where there is a password. -/
inductive Attempt where
  | refused
  | accepted (written : Bool) (auth : List Round)
  deriving DecidableEq

/-- The rounds of an attempt. -/
def Attempt.script : Attempt → List Round
  | .refused => []
  | .accepted _ auth => auth

/-- `RedisConnection::connect`, which returns whether the connection is open afterwards.  The wait
for the answer to `AUTH` has no limit. -/
def RedisConnection.connect (password : ByteString) : Attempt → Option Conn
  | .refused => some Conn.fresh.close
  | .accepted written auth =>
      if password = [] then if auth = [] then some .fresh else none
      else if written = false then if auth = [] then some Conn.fresh.close else none
      else if .timeout ∈ auth then none
      else
        match parseReply (available auth .fresh + 1) auth .fresh with
        | .returned true reply c [] => some (if reply.isError then c.close else c)
        | .returned false _ c [] => some c.close
        | _ => none

/-- Redis confirms the subscription to a channel. -/
def Resp.confirms (channel : ByteString) : Resp → Bool
  | .array [.bulk kind, .bulk name, .integer _] => kind = bytes "subscribe" && name = channel
  | _ => false

namespace Subscriber

/-! ## The loop -/

/-- Where `subscriberLoop` stands. -/
inductive Stage where
  /-- Before the test of `running_`. -/
  | top
  /-- In `conn.connect()`. -/
  | connecting
  /-- In `conn.subscribe(…)`. -/
  | subscribing
  /-- In `conn.readReply(…)`. -/
  | waiting
  /-- Behind the loop. -/
  | ended
  deriving DecidableEq

/-- The subscriber and its connection.  The last three fields are about the connection: the
messages Redis sends on it, the bytes received, and the commands written. -/
structure State where
  running : Bool
  conn : Conn
  stage : Stage
  stream : List Resp
  received : ByteString
  written : List (List ByteString)

/-- What happens next. -/
inductive Action where
  /-- `stop` clears `running_`. -/
  | stop
  /-- The loop tests `running_`, and whether it is connected. -/
  | test
  /-- `connect` returns, on a connection with these messages. -/
  | connect (attempt : Attempt) (stream : List Resp)
  /-- `subscribe` returns. -/
  | subscribe (written : Bool) (script : List Round)
  /-- `readReply` returns. -/
  | readReply (script : List Round)

/-- Before the loop. -/
def initial : State where
  running := true
  conn := Conn.fresh.close
  stage := .top
  stream := []
  received := []
  written := []

variable (C : CoordinatorConfig)

/-- The channels of the loop. -/
def channels : List ByteString := [C.purgeChannel, C.ruleUpdateChannel]

/-- **One step.**  A call runs through its script, and the bytes are those of the stream. -/
def step (s : State) : Action → Option State
  | .stop => some { s with running := false }
  | .test =>
      match s.stage with
      | .top =>
          some (if s.running then
            { s with stage := if s.conn.connected then .waiting else .connecting }
          else { s with conn := s.conn.close, stage := .ended })
      | _ => none
  | .connect attempt stream =>
      match s.stage with
      | .connecting =>
          if delivered attempt.script <+: Resp.renderAll stream then
            (RedisConnection.connect C.redisPassword attempt).map fun conn =>
              { s with
                conn := conn
                stage := if conn.connected then .subscribing else .top
                stream := stream
                received := delivered attempt.script
                written := if conn.connected ∧ C.redisPassword ≠ [] then
                  [[bytes "AUTH", C.redisPassword]] else [] }
          else none
      | _ => none
  | .subscribe written script =>
      match s.stage with
      | .subscribing =>
          if s.received ++ delivered script <+: Resp.renderAll s.stream then
            match RedisConnection.subscribe (channels C) written script s.conn with
            | .returned ok _ conn [] =>
                some { s with
                  conn := conn
                  stage := if ok then .waiting else .top
                  received := s.received ++ delivered script
                  written := if written then s.written ++ [bytes "SUBSCRIBE" :: channels C]
                    else s.written }
            | _ => none
          else none
      | _ => none
  | .readReply script =>
      match s.stage with
      | .waiting =>
          if s.received ++ delivered script <+: Resp.renderAll s.stream then
            match readReply script s.conn with
            | .returned _ _ conn [] =>
                some { s with
                  conn := conn
                  stage := .top
                  received := s.received ++ delivered script }
            | _ => none
          else none
      | _ => none

/-! ## What a call does -/

section Calls

variable {c c' : Conn} {script : List Round}

/-- A call of `subscribe` on an open connection that runs through its script closes the connection
if it cannot write, or if a round does. -/
theorem subscribe_returned {channels : List ByteString} {written ok : Bool}
    {out : List RedisReply} (up : c.connected = true)
    (returned : RedisConnection.subscribe channels written script c = .returned ok out c' []) :
    c'.connected = (written && script.all Round.keepsOpen) ∧ (ok = true → c'.connected = true) := by
  cases written with
  | false =>
      simp only [RedisConnection.subscribe, up, Bool.true_eq_false, if_false, if_true] at returned
      cases returned
      exact ⟨rfl, fun good => by cases good⟩
  | true =>
      simp only [RedisConnection.subscribe, up, Bool.true_eq_false, if_false] at returned
      obtain ⟨front, split, connected, bytes⟩ := takes_readElements
        (fun script c => takes_parseReply _ script c) _ _ _ _ _ _ _ returned
      rw [List.append_nil] at split
      subst split
      refine ⟨by rw [connected, up], fun good => ?_⟩
      rw [connected, up, Bool.true_and, List.all_eq_true]
      intro o mem
      have brings := bytes good o mem
      cases o with
      | received bs => rfl
      | _ => cases brings

/-- Messages that have arrived stay there. -/
theorem arrived_mono {ms : List Resp} {bs : ByteString} (more : ByteString) :
    arrived ms bs ⊆ arrived ms (bs ++ more) := by
  induction ms generalizing bs with
  | nil => exact List.Subset.refl _
  | cons m ms ih =>
      rw [arrived, arrived]
      split
      · rename_i whole
        rw [if_pos (whole.trans (List.prefix_append _ _)),
          List.drop_append_of_le_length whole.length_le]
        exact List.cons_subset_cons m ih
      · exact List.nil_subset _

end Calls

/-! ## Subscribed -/

/-- The confirmations of both channels have been received. -/
def Confirmed (stream : List Resp) (received : ByteString) : Prop :=
  ∀ channel ∈ channels C, ∃ m ∈ arrived stream received, m.confirms channel = true

instance (stream : List Resp) (received : ByteString) :
    Decidable (Confirmed C stream received) :=
  inferInstanceAs (Decidable (∀ channel ∈ channels C, ∃ m ∈ arrived stream received,
    m.confirms channel = true))

/-- **A subscriber that waits for messages is subscribed**, and the loop comes back to its test
with a connection that is, or with a closed one. -/
structure Subscribed (s : State) : Prop where
  waiting : s.stage = .waiting → Confirmed C s.stream s.received
  top : s.stage = .top → s.conn.connected = true → Confirmed C s.stream s.received

/-- **Where the `SUBSCRIBE` is written**, a round of the wait closes the connection, or the
confirmations have come at its end. -/
def Answered (s : State) (a : Action) : Prop :=
  ∀ script, a = .subscribe true script →
    (∃ o ∈ script, o.keepsOpen = false) ∨ Confirmed C s.stream (s.received ++ delivered script)

/-- The connection is open when `subscribe` is called. -/
def Opened (s : State) : Prop := s.stage = .subscribing → s.conn.connected = true

variable {C} {s s' : State} {a : Action}

theorem Confirmed.mono {stream : List Resp} {received : ByteString} (more : ByteString)
    (confirmed : Confirmed C stream received) : Confirmed C stream (received ++ more) := by
  intro channel mem
  obtain ⟨m, here, confirms⟩ := confirmed channel mem
  exact ⟨m, arrived_mono more here, confirms⟩

/-- **The effect of a step** on the stage and the connection. -/
inductive Effect (s : State) (a : Action) (s' : State) : Prop where
  /-- `running_` is cleared. -/
  | stopped (same : s' = { s with running := false }) (other : ∀ w script, a ≠ .subscribe w script)
  /-- The loop goes on to read from an open connection. -/
  | goesOn (here : s.stage = .top) (up : s.conn.connected = true)
      (same : s' = { s with stage := .waiting }) (other : ∀ w script, a ≠ .subscribe w script)
  /-- The loop goes on to connect, or it ends. -/
  | leaves (stage : s'.stage = .connecting ∨ s'.stage = .ended)
      (other : ∀ w script, a ≠ .subscribe w script)
  /-- `connect` succeeds exactly if it leaves the connection open. -/
  | connected (stage : s'.stage = if s'.conn.connected then .subscribing else .top)
      (other : ∀ w script, a ≠ .subscribe w script)
  /-- `subscribe` returns. -/
  | subscribed (ok written : Bool) (script : List Round) (call : a = .subscribe written script)
      (here : s.stage = .subscribing) (stage : s'.stage = if ok then .waiting else .top)
      (up : s.conn.connected = true →
        s'.conn.connected = (written && script.all Round.keepsOpen) ∧
          (ok = true → s'.conn.connected = true))
      (stream : s'.stream = s.stream) (received : s'.received = s.received ++ delivered script)
      (asked : written = true → (bytes "SUBSCRIBE" :: channels C) ∈ s'.written)
  /-- `readReply` returns. -/
  | read (more : ByteString) (here : s.stage = .waiting) (stage : s'.stage = .top)
      (stream : s'.stream = s.stream) (received : s'.received = s.received ++ more)
      (written : s'.written = s.written) (other : ∀ w script, a ≠ .subscribe w script)

/-- **Every step has one of these effects.** -/
theorem effect_of_step (taken : step C s a = some s') : Effect (C := C) s a s' := by
  cases a with
  | stop =>
      cases taken
      exact .stopped rfl (by simp)
  | test =>
      cases here : s.stage with
      | top =>
          simp only [step, here, Option.some.injEq] at taken
          subst taken
          cases running : s.running with
          | false => exact .leaves (.inr rfl) (by simp)
          | true =>
              cases up : s.conn.connected with
              | false => exact .leaves (.inl rfl) (by simp)
              | true => exact .goesOn here up (by simp [running]) (by simp)
      | _ => simp [step, here] at taken
  | connect attempt stream =>
      cases here : s.stage with
      | connecting =>
          simp only [step, here] at taken
          split at taken
          · obtain ⟨conn, -, rfl⟩ := Option.map_eq_some_iff.mp taken
            exact .connected rfl (by simp)
          · cases taken
      | _ => simp [step, here] at taken
  | subscribe written script =>
      cases here : s.stage with
      | subscribing =>
          simp only [step, here] at taken
          split at taken
          · split at taken
            · rename_i ok _ conn returned
              cases taken
              refine .subscribed ok written script rfl here rfl
                (fun up => subscribe_returned up returned) rfl rfl fun asked => ?_
              rw [asked]
              exact List.mem_append_right _ List.mem_cons_self
            · cases taken
          · cases taken
      | _ => simp [step, here] at taken
  | readReply script =>
      cases here : s.stage with
      | waiting =>
          simp only [step, here] at taken
          split at taken
          · split at taken
            · cases taken
              exact .read _ here rfl rfl rfl rfl (by simp)
            · cases taken
          · cases taken
      | _ => simp [step, here] at taken

/-- **A step that is no call of `subscribe`** keeps what holds of the connection that the subscriber
waits on, or tests while it is open. -/
theorem Effect.rests {P : State → Prop}
    (keeps : ∀ {s s' : State} (more : ByteString), s'.stream = s.stream →
      s'.received = s.received ++ more → s'.written = s.written → P s → P s')
    (effect : Effect (C := C) s a s') (other : ∀ w script, a ≠ .subscribe w script)
    (waiting : s.stage = .waiting → P s) (top : s.stage = .top → s.conn.connected = true → P s) :
    (s'.stage = .waiting → P s') ∧ (s'.stage = .top → s'.conn.connected = true → P s') := by
  have same {t : State} (stream : t.stream = s.stream) (received : t.received = s.received)
      (written : t.written = s.written) (holds : P s) : P t :=
    keeps [] stream (by rw [received, List.append_nil]) written holds
  cases effect with
  | stopped is =>
      subst is
      exact ⟨fun there => same rfl rfl rfl (waiting there),
        fun there up => same rfl rfl rfl (top there up)⟩
  | goesOn here up is =>
      subst is
      exact ⟨fun _ => same rfl rfl rfl (top here up), fun there => by cases there⟩
  | leaves stage =>
      refine ⟨fun there => ?_, fun there => ?_⟩
      all_goals rcases stage with stage | stage <;> rw [stage] at there <;> cases there
  | connected stage =>
      refine ⟨fun there => ?_, fun there up => ?_⟩
      · rw [stage] at there
        split at there <;> cases there
      · rw [stage, if_pos up] at there
        cases there
  | subscribed _ _ _ call => exact absurd call (other _ _)
  | read more here stage stream received written =>
      refine ⟨fun there => ?_, fun _ _ => keeps more stream received written (waiting here)⟩
      rw [stage] at there
      cases there

/-- After a call of `subscribe`, what holds of the connection while it is open. -/
theorem rests_of_subscribed {P : Prop} {ok : Bool}
    (stage : s'.stage = if ok then .waiting else .top)
    (good : ok = true → s'.conn.connected = true) (holds : s'.conn.connected = true → P) :
    (s'.stage = .waiting → P) ∧ (s'.stage = .top → s'.conn.connected = true → P) := by
  refine ⟨fun there => ?_, fun _ => holds⟩
  cases ok with
  | true => exact holds (good rfl)
  | false =>
      rw [stage] at there
      cases there

/-! ## Subscribed in every state -/

theorem opened_initial : Opened initial := fun here => by cases here

theorem subscribed_initial : Subscribed C initial :=
  ⟨fun here => (by cases here), fun _ up => (by cases up)⟩

/-- Every step calls `subscribe` with an open connection only. -/
theorem Opened.step (opened : Opened s) (taken : step C s a = some s') : Opened s' := by
  intro there
  cases effect_of_step taken with
  | stopped same => subst same; exact opened there
  | goesOn _ _ same => subst same; cases there
  | leaves stage => rcases stage with stage | stage <;> rw [stage] at there <;> cases there
  | connected stage =>
      by_contra down
      rw [stage, if_neg down] at there
      cases there
  | subscribed ok _ _ _ _ stage =>
      rw [stage] at there
      cases ok <;> cases there
  | read _ _ stage => rw [stage] at there; cases there

/-- **One step**: the subscriber is subscribed afterwards exactly if a `SUBSCRIBE` it has written is
answered. -/
theorem subscribed_step_iff (opened : Opened s) (subscribed : Subscribed C s)
    (taken : step C s a = some s') : Subscribed C s' ↔ Answered C s a := by
  have effect := effect_of_step taken
  have others (other : ∀ w script, a ≠ .subscribe w script) : Subscribed C s' ↔ Answered C s a := by
    obtain ⟨waiting, top⟩ := effect.rests (P := fun s => Confirmed C s.stream s.received)
      (fun more stream received _ confirmed => by rw [stream, received]; exact confirmed.mono more)
      other subscribed.waiting subscribed.top
    exact iff_of_true ⟨waiting, top⟩ fun _ call => absurd call (other _ _)
  cases effect with
  | stopped _ other | goesOn _ _ _ other | leaves _ other | connected _ other
  | read _ _ _ _ _ _ other => exact others other
  | subscribed ok written script call here stage up stream received =>
      obtain ⟨open_, good⟩ := up (opened here)
      constructor
      · intro after script' call'
        rw [call, Action.subscribe.injEq] at call'
        obtain ⟨rfl, rfl⟩ := call'
        rw [Bool.true_and] at open_
        by_cases closes : ∃ o ∈ script, o.keepsOpen = false
        · exact .inl closes
        · refine .inr ?_
          have stays : s'.conn.connected = true := by
            rw [open_, List.all_eq_true]
            exact fun o mem => by_contra fun shut => closes ⟨o, mem, by simpa using shut⟩
          rw [← stream, ← received]
          cases ok with
          | true => exact after.waiting stage
          | false => exact after.top stage stays
      · intro answered
        have confirmed (stays : s'.conn.connected = true) : Confirmed C s'.stream s'.received := by
          rw [open_, Bool.and_eq_true, List.all_eq_true] at stays
          rw [stream, received]
          rcases answered script (by rw [call, stays.1]) with ⟨o, mem, shut⟩ | confirmed
          · rw [stays.2 o mem] at shut
            cases shut
          · exact confirmed
        obtain ⟨waiting, top⟩ := rests_of_subscribed stage good confirmed
        exact ⟨waiting, top⟩

/-- **The loop never waits on a connection that is not subscribed, and never comes back to its test
with one that is open, exactly if every `SUBSCRIBE` it writes is answered**: the wait for the
replies ends with the connection closed, or with both confirmations received. -/
theorem subscribed_iff {acts : List Action} {t : State}
    (ran : run (step C) initial acts = some t) :
    (∀ n u, run (step C) initial (acts.take n) = some u → Subscribed C u) ↔
      Meets (step C) (Answered C) initial acts :=
  @forall_run_take_iff_knowing _ _ (step C) (Answered C) Opened (Subscribed C)
    (fun _ _ _ opened taken => opened.step taken)
    (fun _ _ _ opened subscribed taken => subscribed_step_iff opened subscribed taken) _ _ _
    opened_initial subscribed_initial ran

/-! ## Asked in every state -/

/-- The subscription has been asked for on the connection. -/
structure Asked (C : CoordinatorConfig) (s : State) : Prop where
  waiting : s.stage = .waiting → (bytes "SUBSCRIBE" :: channels C) ∈ s.written
  top : s.stage = .top → s.conn.connected = true → (bytes "SUBSCRIBE" :: channels C) ∈ s.written

/-- Every step that leads to a wait has asked. -/
theorem Asked.step (opened : Opened s) (asked : Asked C s) (taken : step C s a = some s') :
    Asked C s' := by
  have effect := effect_of_step taken
  have others (other : ∀ w script, a ≠ .subscribe w script) : Asked C s' := by
    obtain ⟨waiting, top⟩ := effect.rests
      (P := fun s => (bytes "SUBSCRIBE" :: channels C) ∈ s.written)
      (fun _ _ _ written wrote => by rw [written]; exact wrote) other asked.waiting asked.top
    exact ⟨waiting, top⟩
  cases effect with
  | stopped _ other | goesOn _ _ _ other | leaves _ other | connected _ other
  | read _ _ _ _ _ _ other => exact others other
  | subscribed ok written script _ here stage up _ _ writes =>
      obtain ⟨open_, good⟩ := up (opened here)
      have wrote (stays : s'.conn.connected = true) :
          (bytes "SUBSCRIBE" :: channels C) ∈ s'.written := by
        rw [open_, Bool.and_eq_true] at stays
        exact writes stays.1
      obtain ⟨waiting, top⟩ := rests_of_subscribed stage good wrote
      exact ⟨waiting, top⟩

/-- **Whatever Redis does, a subscriber that waits for messages has asked for them** on the
connection it waits on. -/
theorem asked {acts : List Action} (ran : run (step C) initial acts = some s)
    (waits : s.stage = .waiting) : (bytes "SUBSCRIBE" :: channels C) ∈ s.written := by
  have steps := Steps.of_run (meets_true (step C) initial acts) ran
  have start : Asked C initial := ⟨fun here => (by cases here), fun _ up => (by cases up)⟩
  have opened : ∀ u, Steps (step C) (fun _ _ => True) initial u → Opened u := fun u steps =>
    steps.invariant (fun _ _ _ _ taken opened => opened.step taken) opened_initial
  have whole : Asked C s := steps.invariant_of opened
    (fun _ _ _ _ taken opened _ asked => asked.step opened taken) start
  exact whole.waiting waits

/-! ## Two answers of Redis -/

/-- The confirmations of Redis. -/
def confirmation (channel : ByteString) (n : ℤ) : Resp :=
  .array [.bulk (bytes "subscribe"), .bulk channel, .integer n]

/-- Redis confirms both channels. -/
def confirmations : List Resp :=
  [confirmation Poller.defaults.purgeChannel 1, confirmation Poller.defaults.ruleUpdateChannel 2]

/-- Redis refuses the command. -/
def refusal : List Resp := [.error (bytes "NOPERM No permissions to access a channel")]

/-- The loop connects, Redis sends these messages, and nothing more for five seconds. -/
def answers (stream : List Resp) (rounds : List Round) : List Action :=
  [.test, .connect (.accepted true []) stream, .subscribe true rounds]

/-- The confirmations come in two pieces, and later a wait for messages ends without one. -/
def confirmed : List Action :=
  answers confirmations [.received ((Resp.renderAll confirmations).take 20),
    .received ((Resp.renderAll confirmations).drop 20)] ++ [.readReply [.timeout], .test]

/-- A call of `subscribe` that writes its command has both confirmations in the end. -/
def confirmsIn (s : State) : Action → Bool
  | .subscribe true script => Confirmed Poller.defaults s.stream (s.received ++ delivered script)
  | _ => true

theorem subscribed_confirmed :
    ∃ s, run (step Poller.defaults) initial confirmed = some s ∧
      ∀ n u, run (step Poller.defaults) initial (confirmed.take n) = some u →
        Subscribed Poller.defaults u := by
  obtain ⟨s, ran, -⟩ := exists_of_run
    (show (run (step Poller.defaults) initial confirmed).any
      (fun s => s.stage = .waiting) = true by decide +kernel)
  refine ⟨s, ran, (subscribed_iff ran).mpr ?_⟩
  refine @meets_of_passes _ _ _ _ confirmsIn ?_ _ _ (by decide +kernel)
  rintro s a came script rfl
  exact .inr (of_decide_eq_true came)

/-- A refusal, then: the loop comes back to `readReply` although it is not subscribed to
anything. -/
def refused : List Action :=
  answers refusal [.received (Resp.renderAll refusal), .timeout] ++ [.test]

theorem not_subscribed_refused :
    ∃ s, run (step Poller.defaults) initial refused = some s ∧ s.stage = .waiting ∧
      ¬ Subscribed Poller.defaults s := by
  obtain ⟨s, ran, deaf⟩ := exists_of_run
    (show (run (step Poller.defaults) initial refused).any (fun s => s.stage = .waiting &&
      !decide (Confirmed Poller.defaults s.stream s.received)) = true by decide +kernel)
  simp only [Bool.and_eq_true, decide_eq_true_eq, Bool.not_eq_true', decide_eq_false_iff_not]
    at deaf
  exact ⟨s, ran, deaf.1, fun subscribed => deaf.2 (subscribed.waiting deaf.1)⟩

end Subscriber

end EdgeCache

import EdgeCache.EventLoop

/-!
# A worker and its connections

`EventLoop::run` keeps its connections in a map from descriptors, and goes through the events of
one `epoll_wait` after the other.  A descriptor is used again once its connection is closed, and an
event may be for a descriptor that no connection has any more.

**Main result.**  In every run of a worker, **every connection goes through a run of its own**: its
own events, its own bytes, and the answers to its own requests, whatever the others do
(`alone_of_run`).  No two connections that are open share a descriptor.
-/

namespace EdgeCache.EventLoop

open Transition

/-! ## The worker -/

/-- An event that `epoll_wait` reports. -/
structure Ready where
  fd : ℕ
  hangup : Bool
  writable : Bool
  readable : Bool
  deriving DecidableEq

/-- Where a worker stands; the events are those that it has not handled yet. -/
inductive WorkerStage
  /-- At the head of its loop. -/
  | polling
  /-- In the loop over the events. -/
  | handling (events : List Ready)
  /-- In `acceptLoop`. -/
  | accepting (events : List Ready)
  /-- With the connection of a descriptor. -/
  | serving (fd : ℕ) (events : List Ready)
  /-- Behind its loop. -/
  | stopped
  deriving DecidableEq

/-- **A worker**: the connection that `conns_` has for a descriptor, and what has become of the
connections that it has accepted, by their numbers. -/
structure Worker where
  conns : ℕ → Option ℕ
  lives : ℕ → Option State
  next : ℕ
  stage : WorkerStage

/-- A worker before its first `epoll_wait`. -/
def Worker.initial : Worker where
  conns := fun _ => none
  lives := fun _ => none
  next := 0
  stage := .polling

/-- What happens next to a worker. -/
inductive WorkerAction
  /-- `epoll_wait` reports events. -/
  | poll (events : List Ready)
  /-- It is interrupted. -/
  | interrupted
  /-- `running_` is false, or `epoll_wait` fails. -/
  | stop
  /-- The next event, or the end of the loop over them. -/
  | handle
  /-- `accept` returns a descriptor, and epoll takes it. -/
  | accept (fd : ℕ)
  /-- `accept` is interrupted, or epoll does not take its descriptor. -/
  | acceptLost
  /-- `accept` returns no descriptor. -/
  | acceptEnd
  /-- A step with the connection. -/
  | act (a : Action)
  deriving DecidableEq

namespace Worker

/-- The number and the state of the connection of a descriptor. -/
def connOf (w : Worker) (fd : ℕ) : Option (ℕ × State) := do
  let c ← w.conns fd
  return (c, ← w.lives c)

/-- The worker after a step with a connection, which it may have closed, or be through with. -/
def settle (w : Worker) (fd c : ℕ) (s : State) (events : List Ready) : Worker where
  conns := if s.stage = .closed then Function.update w.conns fd none else w.conns
  lives := Function.update w.lives c (some s)
  next := w.next
  stage := if s.stage = .closed ∨ s.stage = .waiting then .handling events else .serving fd events

/-- The worker closes all connections. -/
def closeAll (w : Worker) : Worker where
  conns := fun _ => none
  lives := fun c => (w.lives c).map fun s => { s with stage := .closed }
  next := w.next
  stage := .stopped

/-- A connection is accepted; the descriptor is none of those that are in use. -/
def register (w : Worker) (fd : ℕ) : Worker :=
  { w with
    conns := Function.update w.conns fd (some w.next)
    lives := Function.update w.lives w.next (some accepted)
    next := w.next + 1 }

/-- **One step of a worker** with the given listener. -/
def step (listenFd : ℕ) (w : Worker) (a : WorkerAction) : Option Worker :=
  match w.stage, a with
  | .polling, .poll events => some { w with stage := .handling events }
  | .polling, .interrupted => some w
  | .polling, .stop => some w.closeAll
  | .handling [], .handle => some { w with stage := .polling }
  | .handling (e :: events), .handle =>
      if e.fd = listenFd then some { w with stage := .accepting events }
      else
        match w.connOf e.fd with
        | none => some { w with stage := .handling events }
        | some (c, s) => do
            let s' ← EventLoop.step s (.event e.hangup e.writable e.readable)
            return w.settle e.fd c s' events
  | .accepting _, .accept fd =>
      if w.conns fd = none ∧ fd ≠ listenFd then some (w.register fd) else none
  | .accepting _, .acceptLost => some w
  | .accepting events, .acceptEnd => some { w with stage := .handling events }
  | .serving fd events, .act a => do
      let (c, s) ← w.connOf fd
      let s' ← EventLoop.step s a
      return w.settle fd c s' events
  | _, _ => none

/-- **What a step is for one of the connections.** -/
def own (listenFd : ℕ) (w : Worker) (c : ℕ) (a : WorkerAction) : Option Action :=
  match w.stage, a with
  | .polling, .stop =>
      (w.lives c).bind fun s => if s.stage = .closed then none else some .shutdown
  | .handling (e :: _), .handle =>
      if e.fd ≠ listenFd ∧ w.conns e.fd = some c then
        some (.event e.hangup e.writable e.readable)
      else none
  | .serving fd _, .act a => if w.conns fd = some c then some a else none
  | _, _ => none

/-- The steps of one of the connections in a schedule of the worker. -/
def ownAll (listenFd c : ℕ) : Worker → List WorkerAction → List Action
  | _, [] => []
  | w, a :: acts =>
      (w.own listenFd c a).toList ++
        match w.step listenFd a with
        | none => []
        | some w' => ownAll listenFd c w' acts

/-! ## The cases of a step -/

variable {listenFd : ℕ} {w w' : Worker} {a : WorkerAction}

theorem connOf_eq_some {fd c : ℕ} {s : State} :
    w.connOf fd = some (c, s) ↔ w.conns fd = some c ∧ w.lives c = some s := by
  simp only [connOf, Option.bind_eq_bind, Option.bind_eq_some_iff, Option.pure_def,
    Option.some.injEq, Prod.mk.injEq]
  constructor
  · rintro ⟨d, conn, s', life, rfl, rfl⟩
    exact ⟨conn, life⟩
  · rintro ⟨conn, life⟩
    exact ⟨c, conn, s, life, rfl, rfl⟩

/-- **The cases of a step of a worker.** -/
inductive Work (listenFd : ℕ) (w : Worker) : WorkerAction → Worker → Prop
  | poll {events : List Ready} (here : w.stage = .polling) :
      Work listenFd w (.poll events) { w with stage := .handling events }
  | interrupted (here : w.stage = .polling) : Work listenFd w .interrupted w
  | stop (here : w.stage = .polling) : Work listenFd w .stop w.closeAll
  | turn (here : w.stage = .handling []) : Work listenFd w .handle { w with stage := .polling }
  | listen {e : Ready} {events : List Ready} (here : w.stage = .handling (e :: events))
      (same : e.fd = listenFd) : Work listenFd w .handle { w with stage := .accepting events }
  | stale {e : Ready} {events : List Ready} (here : w.stage = .handling (e :: events))
      (other : e.fd ≠ listenFd) (gone : w.connOf e.fd = none) :
      Work listenFd w .handle { w with stage := .handling events }
  | event {e : Ready} {events : List Ready} {c : ℕ} {s s' : State}
      (here : w.stage = .handling (e :: events)) (other : e.fd ≠ listenFd)
      (conn : w.conns e.fd = some c) (life : w.lives c = some s)
      (taken : EventLoop.step s (.event e.hangup e.writable e.readable) = some s') :
      Work listenFd w .handle (w.settle e.fd c s' events)
  | accept {fd : ℕ} {events : List Ready} (here : w.stage = .accepting events)
      (unused : w.conns fd = none) : Work listenFd w (.accept fd) (w.register fd)
  | acceptLost {events : List Ready} (here : w.stage = .accepting events) :
      Work listenFd w .acceptLost w
  | acceptEnd {events : List Ready} (here : w.stage = .accepting events) :
      Work listenFd w .acceptEnd { w with stage := .handling events }
  | act {fd : ℕ} {events : List Ready} {c : ℕ} {s s' : State} {a : Action}
      (here : w.stage = .serving fd events) (conn : w.conns fd = some c)
      (life : w.lives c = some s) (taken : EventLoop.step s a = some s') :
      Work listenFd w (.act a) (w.settle fd c s' events)

/-- **Every step is one of the cases.** -/
theorem work_of_step (taken : w.step listenFd a = some w') : Work listenFd w a w' := by
  unfold step at taken
  split at taken
  · cases taken
    exact .poll ‹_›
  · cases taken
    exact .interrupted ‹_›
  · cases taken
    exact .stop ‹_›
  · cases taken
    exact .turn ‹_›
  · rename_i e events here
    split at taken
    · rename_i same
      cases taken
      exact .listen here same
    · rename_i other
      split at taken
      · rename_i gone
        cases taken
        exact .stale here other gone
      · rename_i c s found
        obtain ⟨s', moved, same⟩ := Option.bind_eq_some_iff.mp taken
        cases same
        obtain ⟨conn, life⟩ := connOf_eq_some.mp found
        exact .event here other conn life moved
  · rename_i here
    split at taken
    · rename_i free
      cases taken
      exact .accept here free.1
    · cases taken
  · cases taken
    exact .acceptLost ‹_›
  · cases taken
    exact .acceptEnd ‹_›
  · rename_i here
    obtain ⟨⟨c, s⟩, found, served⟩ := Option.bind_eq_some_iff.mp taken
    obtain ⟨s', moved, same⟩ := Option.bind_eq_some_iff.mp served
    cases same
    obtain ⟨conn, life⟩ := connOf_eq_some.mp found
    exact .act here conn life moved
  · cases taken

/-! ## Descriptors -/

/-- **A worker keeps its descriptors apart**: every one in use is that of one open connection, and
only the connection that is served is not at rest. -/
structure Tidy (w : Worker) : Prop where
  once : ∀ fd fd' c, w.conns fd = some c → w.conns fd' = some c → fd = fd'
  open_ : ∀ fd c, w.conns fd = some c → ∃ s, w.lives c = some s ∧ s.stage ≠ .closed
  held : ∀ c s, w.lives c = some s → s.stage ≠ .closed → ∃ fd, w.conns fd = some c
  idle : ∀ c s, w.lives c = some s → s.stage = .closed ∨ s.stage = .waiting ∨
    ∃ fd events, w.stage = .serving fd events ∧ w.conns fd = some c
  fresh : ∀ c, w.next ≤ c → w.lives c = none

theorem tidy_initial : Tidy initial := by
  constructor <;> simp [initial]

/-- Where no connection is served, all are at rest. -/
theorem Tidy.idle_of {w : Worker} (tidy : Tidy w) (none : ∀ fd events, w.stage ≠ .serving fd events)
    {c : ℕ} {s : State} (life : w.lives c = some s) : s.stage = .closed ∨ s.stage = .waiting := by
  rcases tidy.idle c s life with closed | waiting | ⟨fd, events, here, -⟩
  · exact Or.inl closed
  · exact Or.inr waiting
  · exact absurd here (none fd events)

/-- A step with a connection keeps the descriptors apart. -/
theorem Tidy.settle {w : Worker} {fd c : ℕ} {s s' : State} {events : List Ready} (tidy : Tidy w)
    (conn : w.conns fd = some c) (life : w.lives c = some s)
    (others : ∀ d t, d ≠ c → w.lives d = some t → t.stage = .closed ∨ t.stage = .waiting) :
    Tidy (w.settle fd c s' events) := by
  have old : ∀ fd' d, (w.settle fd c s' events).conns fd' = some d → w.conns fd' = some d := by
    intro fd' d there
    unfold Worker.settle at there
    simp only at there
    split at there
    · rw [Function.update_apply] at there
      split at there
      · cases there
      · exact there
    · exact there
  refine ⟨fun fd₁ fd₂ d one two => tidy.once fd₁ fd₂ d (old _ _ one) (old _ _ two), ?_, ?_, ?_, ?_⟩
  · intro fd' d there
    have before := old fd' d there
    by_cases here : d = c
    · subst here
      obtain rfl := tidy.once fd' fd d before conn
      refine ⟨s', Function.update_self .., fun closed => ?_⟩
      simp [Worker.settle, closed] at there
    · obtain ⟨t, life', alive⟩ := tidy.open_ fd' d before
      exact ⟨t, (Function.update_of_ne here ..).trans life', alive⟩
  · intro d t there alive
    by_cases here : d = c
    · subst here
      have moved : (w.settle fd d s' events).lives d = some s' := Function.update_self ..
      obtain rfl : s' = t := Option.some.inj (moved.symm.trans there)
      exact ⟨fd, by simpa [Worker.settle, alive] using conn⟩
    · have before : w.lives d = some t := (Function.update_of_ne here ..).symm.trans there
      obtain ⟨fd', conn'⟩ := tidy.held d t before alive
      have apart : fd' ≠ fd := by
        rintro rfl
        exact here (Option.some.inj (conn'.symm.trans conn))
      refine ⟨fd', ?_⟩
      unfold Worker.settle
      simp only
      split
      · exact (Function.update_of_ne apart ..).trans conn'
      · exact conn'
  · intro d t there
    by_cases here : d = c
    · subst here
      have moved : (w.settle fd d s' events).lives d = some s' := Function.update_self ..
      obtain rfl : s' = t := Option.some.inj (moved.symm.trans there)
      by_cases closed : s'.stage = .closed
      · exact Or.inl closed
      · by_cases waiting : s'.stage = .waiting
        · exact Or.inr (Or.inl waiting)
        · refine Or.inr (Or.inr ⟨fd, events, ?_, ?_⟩)
          · simp [Worker.settle, closed, waiting]
          · simpa [Worker.settle, closed] using conn
    · exact (others d t here ((Function.update_of_ne here ..).symm.trans there)).imp_right Or.inl
  · intro d late
    have apart : d ≠ c := by
      rintro rfl
      rw [tidy.fresh d late] at life
      cases life
    exact (Function.update_of_ne apart ..).trans (tidy.fresh d late)

/-- **Every step keeps the descriptors apart.** -/
theorem tidy_step (taken : w.step listenFd a = some w') (tidy : Tidy w) : Tidy w' := by
  cases work_of_step taken with
  | poll here | turn here | listen here | stale here | acceptEnd here =>
      refine ⟨tidy.once, tidy.open_, tidy.held, fun c s life => ?_, tidy.fresh⟩
      exact (tidy.idle_of (by simp [here]) life).imp_right Or.inl
  | interrupted | acceptLost => exact tidy
  | stop here =>
      have all : ∀ c s, w.closeAll.lives c = some s → s.stage = .closed := by
        intro c s life
        obtain ⟨t, -, rfl⟩ := Option.map_eq_some_iff.mp life
        rfl
      have held : ∀ c s, w.closeAll.lives c = some s → s.stage ≠ .closed →
          ∃ fd, w.closeAll.conns fd = some c :=
        fun c s life alive => absurd (all c s life) alive
      refine ⟨by simp [closeAll], by simp [closeAll], held, fun c s life => Or.inl (all c s life),
        fun c late => ?_⟩
      simp [closeAll, tidy.fresh c late]
  | event here other conn life moved =>
      exact tidy.settle conn life fun d t _ => tidy.idle_of (by simp [here])
  | @accept fd events here unused =>
      have old : ∀ c, w.lives c ≠ none → (w.register fd).lives c = w.lives c := by
        intro c there
        refine Function.update_of_ne ?_ ..
        rintro rfl
        exact there (tidy.fresh _ le_rfl)
      have found : ∀ fd' c, (w.register fd).conns fd' = some c →
          (fd' = fd ∧ c = w.next) ∨ w.conns fd' = some c := by
        intro fd' c there
        simp only [register, Function.update_apply] at there
        split at there
        · cases there
          exact Or.inl ⟨‹_›, rfl⟩
        · exact Or.inr there
      have new : ∀ fd', w.conns fd' ≠ some w.next := by
        intro fd' there
        obtain ⟨s, life, -⟩ := tidy.open_ fd' _ there
        rw [tidy.fresh _ le_rfl] at life
        cases life
      refine ⟨fun fd₁ fd₂ c one two => ?_, fun fd' c there => ?_, fun c s there alive => ?_,
        fun c s there => ?_, fun c late => ?_⟩
      · rcases found fd₁ c one with ⟨rfl, rfl⟩ | before
        · exact ((found fd₂ _ two).resolve_right (new fd₂)).1.symm
        · rcases found fd₂ c two with ⟨rfl, rfl⟩ | behind
          · exact absurd before (new fd₁)
          · exact tidy.once fd₁ fd₂ c before behind
      · rcases found fd' c there with ⟨rfl, rfl⟩ | there
        · exact ⟨accepted, Function.update_self .., by decide⟩
        · obtain ⟨s, life, alive⟩ := tidy.open_ fd' c there
          exact ⟨s, (old c (by simp [life])).trans life, alive⟩
      · simp only [register, Function.update_apply] at there
        split at there
        · exact ⟨fd, by simp [register, *]⟩
        · obtain ⟨fd', conn⟩ := tidy.held c s there alive
          have apart : fd' ≠ fd := by
            rintro rfl
            rw [unused] at conn
            cases conn
          exact ⟨fd', (Function.update_of_ne apart ..).trans conn⟩
      · refine Or.imp_right Or.inl ?_
        simp only [register, Function.update_apply] at there
        split at there
        · cases there
          exact Or.inr rfl
        · exact tidy.idle_of (by simp [here]) there
      · have apart : c ≠ w.next := Nat.ne_of_gt late
        exact (Function.update_of_ne apart ..).trans (tidy.fresh c (Nat.le_of_succ_le late))
  | @act fd events c s s' a here conn life moved =>
      refine tidy.settle conn life fun d t apart there => ?_
      rcases tidy.idle d t there with closed | waiting | ⟨fd', events', same, conn'⟩
      · exact Or.inl closed
      · exact Or.inr waiting
      · rw [here] at same
        cases same
        exact absurd (Option.some.inj (conn'.symm.trans conn)) apart

/-! ## Every connection on its own -/

theorem run_one {s s' : State} {a : Action} (taken : EventLoop.step s a = some s') :
    run EventLoop.step s [a] = some s' := by
  rw [run_cons, taken]
  rfl

/-- A step with a connection is a step of that one, and of no other. -/
theorem alone_settle {fd c d : ℕ} {s s' : State} {a : Action} {events : List Ready}
    (life : w.lives c = some s) (taken : EventLoop.step s a = some s') :
    run EventLoop.step ((w.lives d).getD accepted) (if c = d then [a] else []) =
      some (((w.settle fd c s' events).lives d).getD accepted) := by
  by_cases here : c = d
  · subst here
    have moved : (w.settle fd c s' events).lives c = some s' := Function.update_self ..
    rw [life, moved, if_pos rfl]
    exact run_one taken
  · have same : (w.settle fd c s' events).lives d = w.lives d :=
      Function.update_of_ne (Ne.symm here) ..
    rw [if_neg here, same]
    rfl

/-- **A step of the worker is at most one step of each connection.** -/
theorem alone_step (taken : w.step listenFd a = some w') (tidy : Tidy w) (d : ℕ) :
    run EventLoop.step ((w.lives d).getD accepted) (w.own listenFd d a).toList =
      some ((w'.lives d).getD accepted) := by
  cases work_of_step taken with
  | stop here =>
      cases life : w.lives d with
      | none => simp [own, here, life, closeAll]
      | some s =>
          have after : w.closeAll.lives d = some { s with stage := .closed } := by
            simp [closeAll, life]
          rw [after]
          rcases tidy.idle_of (by simp [here]) life with closed | waiting
          · have same : { s with stage := .closed } = s := by rw [← closed]
            simp [own, here, life, closed, same]
          · have step : EventLoop.step s .shutdown = some { s with stage := .closed } := by
              simp [EventLoop.step, waiting]
            simpa [own, here, life, waiting] using run_one step
  | @event e events c s s' here other conn life moved =>
      have own : (w.own listenFd d .handle).toList =
          if c = d then [.event e.hangup e.writable e.readable] else [] := by
        by_cases mine : c = d <;> simp [Worker.own, here, other, conn, mine]
      rw [own]
      exact alone_settle life moved
  | @act fd events c s s' a here conn life moved =>
      have own : (w.own listenFd d (.act a)).toList = if c = d then [a] else [] := by
        by_cases mine : c = d <;> simp [Worker.own, here, conn, mine]
      rw [own]
      exact alone_settle life moved
  | @accept fd events here unused =>
      have none : w.own listenFd d (.accept fd) = none := by simp [own, here]
      rw [none]
      by_cases new : d = w.next
      · subst new
        simp [register, tidy.fresh _ le_rfl]
      · simp [register, new]
  | listen here same => simp [own, here, same]
  | @stale e events here other gone =>
      have none : w.own listenFd d .handle = none := by
        have absent : w.conns e.fd ≠ some d := by
          intro conn
          obtain ⟨s, life, -⟩ := tidy.open_ e.fd d conn
          rw [connOf_eq_some.mpr ⟨conn, life⟩] at gone
          cases gone
        simp [own, here, absent]
      rw [none]
      rfl
  | _ => simp_all [own]

/-- A run of the worker is a run of each connection. -/
theorem alone_of_tidy {acts : List WorkerAction} (ran : run (step listenFd) w acts = some w')
    (tidy : Tidy w) (c : ℕ) :
    run EventLoop.step ((w.lives c).getD accepted) (ownAll listenFd c w acts) =
      some ((w'.lives c).getD accepted) := by
  induction acts generalizing w with
  | nil =>
      cases ran
      rfl
  | cons a acts ih =>
      obtain ⟨w₁, taken, ran⟩ := Option.bind_eq_some_iff.mp ran
      simp only [ownAll, taken]
      rw [run_append, alone_step taken tidy c]
      exact ih ran (tidy_step taken tidy)

/-- **Every connection goes through a run of its own**, whatever the others do: its own events, its
own bytes, and the answers to its own requests.  Connections that are open do not share
descriptors. -/
theorem alone_of_run {acts : List WorkerAction} (ran : run (step listenFd) initial acts = some w) :
    (∀ c s, w.lives c = some s →
      run EventLoop.step accepted (ownAll listenFd c initial acts) = some s) ∧
    (∀ fd fd' c, w.conns fd = some c → w.conns fd' = some c → fd = fd') ∧
    (∀ c s, w.lives c = some s → (s.stage = .closed ↔ ∀ fd, w.conns fd ≠ some c)) := by
  have tidy : Tidy w := (Steps.of_run (meets_true _ _ _) ran).invariant
    (fun _ _ _ _ taken tidy => tidy_step taken tidy) tidy_initial
  refine ⟨fun c s there => ?_, tidy.once, fun c s there => ?_⟩
  · have alone := alone_of_tidy ran tidy_initial c
    rwa [there] at alone
  · constructor
    · intro closed fd conn
      obtain ⟨t, life, alive⟩ := tidy.open_ fd c conn
      obtain rfl := Option.some.inj (life.symm.trans there)
      exact alive closed
    · intro none
      by_contra alive
      obtain ⟨fd, conn⟩ := tidy.held c s there alive
      exact none fd conn

/-- Two connections are accepted; one is answered, the other one hangs up, and its descriptor is
used again. -/
def reusedDescriptor : List WorkerAction :=
  [.poll [⟨3, false, false, true⟩], .handle, .accept 5, .accept 6, .acceptEnd, .handle,
    .poll [⟨6, true, false, true⟩, ⟨5, false, false, true⟩, ⟨6, false, false, true⟩], .handle,
    .handle, .act (.recv twoRequests), .act .recvBlocked, .act (.parse .default), .act (.send 57),
    .act .flushed, .handle, .handle, .poll [⟨3, false, false, true⟩], .handle, .accept 6,
    .acceptEnd, .handle, .stop]

/-- The third connection has not seen anything of the second one. -/
theorem alone_reusedDescriptor :
    ∃ w, run (step 3) initial reusedDescriptor = some w ∧
      (∀ c s, w.lives c = some s →
        run EventLoop.step accepted (ownAll 3 c initial reusedDescriptor) = some s) ∧
      (∀ fd fd' c, w.conns fd = some c → w.conns fd' = some c → fd = fd') ∧
      (∀ c s, w.lives c = some s → (s.stage = .closed ↔ ∀ fd, w.conns fd ≠ some c)) ∧
      ownAll 3 2 initial reusedDescriptor = [.shutdown] := by
  obtain ⟨w, ran, -⟩ := exists_of_run
    (show (run (step 3) initial reusedDescriptor).any (fun _ => true) = true by decide +kernel)
  obtain ⟨alone, once, closed⟩ := alone_of_run ran
  exact ⟨w, ran, alone, once, closed, by decide +kernel⟩

end Worker

end EdgeCache.EventLoop

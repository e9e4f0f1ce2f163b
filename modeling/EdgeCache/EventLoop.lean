import EdgeCache.RequestParser
import EdgeCache.ResponseHeaders
import EdgeCache.Lib.Transition

/-!
# A client connection in the event loop

`EventLoop::run` waits for events and hands them to the connection they are for: a writable one is
flushed, a readable one is read, parsed and answered, and then flushed.  Here is the life of one
connection, with a step for every system call and for every round of the parse loop.  What the calls
answer is in the action: how many bytes the socket takes, what it delivers, which events epoll
reports, and what `requestFn` responds.  Epoll may report any events at any time, so what
`updateEpollOut` asks it for plays no part.

* `delivered` — **responses leave whole and in order**: what was sent and what is left in the buffer
  are the answers so far, and a connection that nothing disturbs is closed only when all is sent.
* `nothingFollows_iff` — nothing follows a closing answer in a run, **exactly if** the parse loop is
  never entered behind one while the parser has a request or an error to report.
-/

namespace EdgeCache

open Transition

/-- `HttpRequest::header`, with the empty default. -/
def HttpRequest.header (r : HttpRequest) (name : ByteString) : ByteString :=
  (r.headers.find? name).getD []

/-- `HttpRequest::keepAlive`. -/
def HttpRequest.keepAlive (r : HttpRequest) : Bool :=
  let conn := r.header (bytes "Connection")
  if r.version = bytes "HTTP/1.0" then iequals (trim conn) (bytes "keep-alive")
  else !iequals (trim conn) (bytes "close")

namespace EventLoop

/-! ## The connection -/

/-- `EventLoop::Conn`, with the buffer of its parser. -/
structure Conn where
  buffer : ByteString
  outBuf : ByteString
  outOff : ℕ
  closeAfterFlush : Bool
  deriving DecidableEq

/-- What is queued for the client: what `requestFn` answered to a request, or a 400. -/
inductive Answer where
  | served (request : HttpRequest) (response : HttpResponse)
  | rejected
  deriving DecidableEq

/-- Whether the connection goes on behind an answer. -/
def Answer.keepAlive : Answer → Bool
  | .served request _ => request.keepAlive
  | .rejected => false

/-- The bytes of an answer. -/
def Answer.serialized : Answer → ByteString
  | .served request response => response.serialize request.keepAlive
  | .rejected =>
      (HttpResponse.simple 400 (bytes "Bad Request") (bytes "bad request\n")).serialize false

/-- Queue an answer behind the ones before it. -/
def Conn.queue (c : Conn) (answer : Answer) : Conn :=
  { c with
    outBuf := c.outBuf ++ answer.serialized
    closeAfterFlush := c.closeAfterFlush || !answer.keepAlive }

/-- Where the loop stands with the connection. -/
inductive Stage where
  /-- In `epoll_wait`, or with another connection. -/
  | waiting
  /-- In the `flush` of a writable connection, which may be readable as well. -/
  | writing (readable : Bool)
  /-- In the `recv` loop of `onReadable`. -/
  | receiving
  /-- In its parse loop. -/
  | parsing (peerClosed : Bool)
  /-- In the `flush` at its end. -/
  | flushing (peerClosed : Bool)
  /-- Behind `closeConn`. -/
  | closed
  deriving DecidableEq

/-- A connection of a worker, with what the socket took and the answers queued so far. -/
structure State where
  conn : Conn
  stage : Stage
  sent : ByteString
  answers : List Answer
  deriving DecidableEq

/-- A connection that has just been accepted. -/
def accepted : State where
  conn := ⟨[], [], 0, false⟩
  stage := .waiting
  sent := []
  answers := []

/-! ## Its steps -/

/-- What happens next to the connection. -/
inductive Action where
  /-- `epoll_wait` reports it: `EPOLLHUP | EPOLLERR`, `EPOLLOUT`, `EPOLLIN`. -/
  | event (hangup writable readable : Bool)
  /-- `running_` is false, or `epoll_wait` fails. -/
  | shutdown
  /-- `recv` delivers bytes, or fails with `EINTR`, `EAGAIN` or another error, or returns `0`. -/
  | recv (data : ByteString)
  | recvInterrupted
  | recvBlocked
  | recvEnd
  | recvFailed
  /-- A round of the parse loop, with what `requestFn` responds if it is called. -/
  | parse (response : HttpResponse)
  /-- `send` takes so many bytes, or fails with `EINTR`, `EAGAIN` or another error. -/
  | send (n : ℕ)
  | sendInterrupted
  | sendBlocked
  | sendFailed
  /-- Nothing is left to send. -/
  | flushed
  deriving DecidableEq

/-- Errors of the socket, hang-ups and the end of the worker. -/
def Action.disturbs : Action → Bool
  | .event hangup _ _ => hangup
  | .shutdown | .recvFailed | .sendFailed => true
  | _ => false

/-- The dispatch of an event in `EventLoop::run`. -/
def dispatch (hangup writable readable : Bool) : Stage :=
  if hangup then .closed
  else if writable then .writing readable
  else if readable then .receiving
  else .waiting

/-- What the caller of `flush` does when it has returned true. -/
def resume (conn : Conn) : Stage → Stage
  | .writing true => .receiving
  | .flushing true => if conn.outBuf = [] then .closed else .waiting
  | _ => .waiting

/-- A round of the loop of `flush`. -/
def flush (s : State) : Action → Option State
  | .send n =>
      if 0 < n ∧ s.conn.outOff + n ≤ s.conn.outBuf.length then
        some { s with
          conn := { s.conn with outOff := s.conn.outOff + n }
          sent := s.sent ++ (s.conn.outBuf.drop s.conn.outOff).take n }
      else none
  | .sendInterrupted => if s.conn.outOff < s.conn.outBuf.length then some s else none
  | .sendBlocked =>
      if s.conn.outOff < s.conn.outBuf.length then
        some { s with stage := resume s.conn s.stage }
      else none
  | .sendFailed =>
      if s.conn.outOff < s.conn.outBuf.length then some { s with stage := .closed } else none
  | .flushed =>
      if s.conn.outOff < s.conn.outBuf.length then none
      else
        let conn := { s.conn with outBuf := [], outOff := 0 }
        some { s with
          conn := conn
          stage := if conn.closeAfterFlush then .closed else resume conn s.stage }
  | _ => none

/-- A round of the parse loop of `onReadable`. -/
def parseRound (s : State) (peerClosed : Bool) (response : HttpResponse) : State :=
  match parse s.conn.buffer with
  | .needMore => { s with stage := .flushing peerClosed }
  | .error =>
      { s with
        conn := s.conn.queue .rejected
        stage := .flushing peerClosed
        answers := s.answers ++ [.rejected] }
  | .complete request rest =>
      { s with
        conn := { s.conn with buffer := rest }.queue (.served request response)
        stage := if request.keepAlive then .parsing peerClosed else .flushing peerClosed
        answers := s.answers ++ [.served request response] }

/-- One step of the connection. -/
def step (s : State) (a : Action) : Option State :=
  match s.stage, a with
  | .waiting, .event hangup writable readable =>
      some { s with stage := dispatch hangup writable readable }
  | .waiting, .shutdown => some { s with stage := .closed }
  | .writing _, a => flush s a
  | .receiving, .recv data =>
      if data ≠ [] ∧ data.length ≤ 16384 then
        some { s with conn := { s.conn with buffer := s.conn.buffer ++ data } }
      else none
  | .receiving, .recvInterrupted => some s
  | .receiving, .recvBlocked => some { s with stage := .parsing false }
  | .receiving, .recvEnd => some { s with stage := .parsing true }
  | .receiving, .recvFailed => some { s with stage := .parsing true }
  | .parsing peerClosed, .parse response => some (parseRound s peerClosed response)
  | .flushing _, a => flush s a
  | _, _ => none

/-! ## What one step does -/

/-- **The effect of a step** on what is queued and sent. -/
inductive Effect (s : State) (a : Action) (s' : State) : Prop where
  /-- Nothing is queued or sent; the connection is closed by a disturbance or with an empty
  buffer. -/
  | quiet (outBuf : s'.conn.outBuf = s.conn.outBuf) (outOff : s'.conn.outOff = s.conn.outOff)
      (closing : s'.conn.closeAfterFlush = s.conn.closeAfterFlush) (sent : s'.sent = s.sent)
      (answers : s'.answers = s.answers)
      (ends : s'.stage = .closed → a.disturbs = true ∨ s.conn.outBuf = [])
      (waits : ∀ response, a = .parse response → parse s.conn.buffer = .needMore)
  /-- An answer is queued. -/
  | answered (answer : Answer) (response : HttpResponse) (round : a = .parse response)
      (reports : parse s.conn.buffer ≠ .needMore)
      (outBuf : s'.conn.outBuf = s.conn.outBuf ++ answer.serialized)
      (outOff : s'.conn.outOff = s.conn.outOff)
      (closing : s'.conn.closeAfterFlush = (s.conn.closeAfterFlush || !answer.keepAlive))
      (sent : s'.sent = s.sent) (answers : s'.answers = s.answers ++ [answer])
      (open_ : s'.stage ≠ .closed)
  /-- The socket takes bytes. -/
  | took (n : ℕ) (call : a = .send n) (fits : s.conn.outOff + n ≤ s.conn.outBuf.length)
      (outBuf : s'.conn.outBuf = s.conn.outBuf) (outOff : s'.conn.outOff = s.conn.outOff + n)
      (closing : s'.conn.closeAfterFlush = s.conn.closeAfterFlush)
      (sent : s'.sent = s.sent ++ (s.conn.outBuf.drop s.conn.outOff).take n)
      (answers : s'.answers = s.answers) (open_ : s'.stage ≠ .closed)
  /-- All has been sent, and the buffer is cleared. -/
  | cleared (done : a = .flushed) (all : s.conn.outBuf.length ≤ s.conn.outOff)
      (outBuf : s'.conn.outBuf = []) (outOff : s'.conn.outOff = 0)
      (closing : s'.conn.closeAfterFlush = s.conn.closeAfterFlush) (sent : s'.sent = s.sent)
      (answers : s'.answers = s.answers)

section Effects

variable {s s' : State} {a : Action}

theorem resume_eq_closed {conn : Conn} {stage : Stage} (ends : resume conn stage = .closed) :
    conn.outBuf = [] := by
  unfold resume at ends
  split at ends
  · cases ends
  · split at ends
    · assumption
    · cases ends
  · cases ends

theorem effect_of_flush (inside : s.stage ≠ .closed) (taken : flush s a = some s') :
    Effect s a s' := by
  unfold flush at taken
  split at taken
  · rename_i n
    split at taken
    · rename_i fits
      cases taken
      exact .took n rfl fits.2 rfl rfl rfl rfl rfl inside
    · cases taken
  · split at taken
    · cases taken
      exact .quiet rfl rfl rfl rfl rfl (fun ends => absurd ends inside) (by intro _ h; cases h)
    · cases taken
  · split at taken
    · cases taken
      exact .quiet rfl rfl rfl rfl rfl (fun ends => .inr (resume_eq_closed ends))
        (by intro _ h; cases h)
    · cases taken
  · split at taken
    · cases taken
      exact .quiet rfl rfl rfl rfl rfl (fun _ => .inl rfl) (by intro _ h; cases h)
    · cases taken
  · split at taken
    · cases taken
    · rename_i all
      cases taken
      exact .cleared rfl (not_lt.mp all) rfl rfl rfl rfl rfl
  · cases taken

theorem effect_parseRound (peerClosed : Bool) (response : HttpResponse) :
    Effect s (.parse response) (parseRound s peerClosed response) := by
  unfold parseRound
  split
  · rename_i more
    exact .quiet rfl rfl rfl rfl rfl (by intro h; cases h) (fun _ _ => more)
  · rename_i failed
    exact .answered .rejected response rfl (by rw [failed]; simp) rfl rfl rfl rfl rfl
      (by intro h; cases h)
  · rename_i request rest completed
    refine .answered (.served request response) response rfl (by rw [completed]; simp) rfl rfl rfl
      rfl rfl ?_
    show (if request.keepAlive = true then Stage.parsing peerClosed else _) ≠ _
    split <;> exact fun h => by cases h

/-- **Every step has one of these effects.** -/
theorem effect_of_step (taken : step s a = some s') : Effect s a s' := by
  unfold step at taken
  split at taken
  · rename_i hangup writable readable here
    cases taken
    refine .quiet rfl rfl rfl rfl rfl (fun ends => .inl ?_) (by intro _ h; cases h)
    cases hangup with
    | true => rfl
    | false => cases writable <;> cases readable <;> cases ends
  · cases taken
    exact .quiet rfl rfl rfl rfl rfl (fun _ => .inl rfl) (by intro _ h; cases h)
  · rename_i here
    exact effect_of_flush (by rw [here]; exact fun h => by cases h) taken
  · rename_i here
    split at taken
    · cases taken
      exact .quiet rfl rfl rfl rfl rfl (fun ends => by rw [here] at ends; cases ends)
        (by intro _ h; cases h)
    · cases taken
  · rename_i here
    cases taken
    exact .quiet rfl rfl rfl rfl rfl (fun ends => by rw [here] at ends; cases ends)
      (by intro _ h; cases h)
  iterate 3
    · cases taken
      exact .quiet rfl rfl rfl rfl rfl (by intro h; cases h) (by intro _ h; cases h)
  · cases taken
    exact effect_parseRound _ _
  · rename_i here
    exact effect_of_flush (by rw [here]; exact fun h => by cases h) taken
  · cases taken

end Effects

/-! ## Whole and in order -/

/-- **What was sent, and what is left, are the answers so far.** -/
structure Whole (s : State) : Prop where
  inside : s.conn.outOff ≤ s.conn.outBuf.length
  bytes_eq : s.sent ++ s.conn.outBuf.drop s.conn.outOff =
    (s.answers.map Answer.serialized).flatten

theorem whole_accepted : Whole accepted := ⟨Nat.le_refl 0, rfl⟩

/-- Every step keeps the answers whole. -/
theorem Whole.step {s s' : State} {a : Action} (whole : Whole s) (taken : step s a = some s') :
    Whole s' := by
  obtain ⟨inside, same⟩ := whole
  cases effect_of_step taken with
  | quiet outBuf outOff _ sent answers =>
      exact ⟨by rwa [outBuf, outOff], by rwa [outBuf, outOff, sent, answers]⟩
  | answered answer _ _ _ outBuf outOff _ sent answers =>
      refine ⟨?_, ?_⟩
      · rw [outBuf, outOff, List.length_append]
        omega
      · rw [outBuf, outOff, sent, answers, List.drop_append_of_le_length inside,
          ← List.append_assoc, same, List.map_append, List.flatten_append]
        simp
  | took n _ fits outBuf outOff _ sent answers =>
      refine ⟨by rwa [outBuf, outOff], ?_⟩
      rw [outBuf, outOff, sent, answers, List.append_assoc, ← List.drop_drop,
        List.take_append_drop, same]
  | cleared _ all outBuf outOff _ sent answers =>
      refine ⟨by rw [outBuf, outOff]; exact Nat.le_refl 0, ?_⟩
      rw [List.drop_eq_nil_of_le all] at same
      rw [outBuf, sent, answers, ← same]
      simp

/-- A connection that was closed had nothing left to send. -/
def ClosedEmpty (s : State) : Prop := s.stage = .closed → s.conn.outBuf.drop s.conn.outOff = []

/-- Without a disturbance a connection is closed only when all is sent. -/
theorem ClosedEmpty.step {s s' : State} {a : Action} (calm : a.disturbs = false)
    (taken : step s a = some s') : ClosedEmpty s' := by
  intro ends
  cases effect_of_step taken with
  | quiet outBuf _ _ _ _ closes =>
      rcases closes ends with disturbed | empty
      · rw [calm] at disturbed
        cases disturbed
      · rw [outBuf, empty, List.drop_nil]
  | answered _ _ _ _ _ _ _ _ _ open_ => exact absurd ends open_
  | took _ _ _ _ _ _ _ _ open_ => exact absurd ends open_
  | cleared _ _ outBuf => rw [outBuf, List.drop_nil]

/-- **Responses leave a connection whole and in order**, whatever happens to it, and a connection
that nothing disturbs is closed only when they have all been sent. -/
theorem delivered {acts : List Action} {s : State} (ran : run step accepted acts = some s) :
    s.conn.outOff ≤ s.conn.outBuf.length ∧
      s.sent ++ s.conn.outBuf.drop s.conn.outOff = (s.answers.map Answer.serialized).flatten ∧
      ((∀ a ∈ acts, a.disturbs = false) → s.stage = .closed →
        s.sent = (s.answers.map Answer.serialized).flatten) := by
  have whole : Whole s := (Steps.of_run (meets_true step accepted acts) ran).invariant
    (fun _ _ _ _ taken whole => whole.step taken) whole_accepted
  refine ⟨whole.inside, whole.bytes_eq, fun calm ends => ?_⟩
  have meets : Meets step (fun _ a => a.disturbs = false) accepted acts :=
    meets_of_forall calm _
  have empty : ClosedEmpty s := (Steps.of_run meets ran).invariant
    (fun _ _ _ calm taken _ => .step calm taken) (fun ends => by cases ends)
  rw [← whole.bytes_eq, empty ends, List.append_nil]

/-- Two requests in one segment, of which the first one asks for the connection to be closed. -/
def twoRequests : ByteString :=
  bytes "GET / HTTP/1.1\r\nConnection: close\r\n\r\nGET / HTTP/1.1\r\n\r\n"

/-- They arrive, and the first one is answered. -/
def answeredFirst : List Action :=
  [.event false false true, .recv twoRequests, .recvBlocked, .parse .default]

/-- Its answer leaves in two parts. -/
def twoSends : List Action :=
  answeredFirst ++ [.send 10, .sendInterrupted, .sendBlocked, .event false true false, .send 47,
    .flushed]

/-- The connection is closed when the answer is out. -/
theorem delivered_twoSends :
    ∃ s, run step accepted twoSends = some s ∧ s.stage = .closed ∧
      s.sent = (s.answers.map Answer.serialized).flatten := by
  obtain ⟨s, ran, ends⟩ := exists_of_run
    (show (run step accepted twoSends).any (fun s => s.stage = .closed) = true by decide +kernel)
  have ends := of_decide_eq_true ends
  exact ⟨s, ran, ends, (delivered ran).2.2 (by decide) ends⟩

/-! ## Behind a closing answer -/

/-- **Nothing follows a closing answer.**  The answers are the calls of `requestFn` and the 400s,
and every one of them has been appended to the buffer. -/
def NothingFollows (answers : List Answer) : Prop :=
  ∀ front answer back, answers = front ++ answer :: back → answer.keepAlive = false → back = []

/-- **Where a round of the parse loop finds the connection about to be closed, the parser has
nothing to report.** -/
def Settled (s : State) (a : Action) : Prop :=
  ∀ response, a = .parse response → s.conn.closeAfterFlush = true →
    parse s.conn.buffer = .needMore

/-- An answer may be added exactly where all the others keep the connection. -/
theorem nothingFollows_append {answers : List Answer} {answer : Answer} :
    NothingFollows (answers ++ [answer]) ↔ ∀ x ∈ answers, x.keepAlive = true := by
  constructor
  · intro nothing x mem
    by_contra closing
    obtain ⟨front, back, rfl⟩ := List.append_of_mem mem
    have empty := nothing front x (back ++ [answer]) (by simp) (by simpa using closing)
    simp at empty
  · intro all front x back split closing
    rcases List.eq_nil_or_concat back with rfl | ⟨back, last, rfl⟩
    · rfl
    · have parts : answers ++ [answer] = (front ++ x :: back) ++ [last] := by
        rw [split]
        simp
      have mem : x ∈ answers := by
        rw [(List.append_inj' parts rfl).1]
        simp
      rw [all x mem] at closing
      cases closing

/-- Where all answers keep the connection, nothing follows a closing one. -/
theorem nothingFollows_of_forall {answers : List Answer}
    (all : ∀ x ∈ answers, x.keepAlive = true) : NothingFollows answers := by
  intro front x back split closing
  rw [all x (by rw [split]; simp)] at closing
  cases closing

/-- **The flag tells whether a closing answer is queued.** -/
def Flagged (s : State) : Prop :=
  s.conn.closeAfterFlush = false ↔ ∀ x ∈ s.answers, x.keepAlive = true

theorem Flagged.step {s s' : State} {a : Action} (flagged : Flagged s)
    (taken : step s a = some s') : Flagged s' := by
  have kept (closing : s'.conn.closeAfterFlush = s.conn.closeAfterFlush)
      (answers : s'.answers = s.answers) : Flagged s' := by
    rw [Flagged, closing, answers]
    exact flagged
  cases effect_of_step taken with
  | quiet _ _ closing _ answers => exact kept closing answers
  | took _ _ _ _ _ closing _ answers => exact kept closing answers
  | cleared _ _ _ _ closing _ answers => exact kept closing answers
  | answered answer _ _ _ _ _ closing _ answers =>
      have before : s.conn.closeAfterFlush = false ↔ ∀ x ∈ s.answers, x.keepAlive = true := flagged
      rw [Flagged, closing, answers, Bool.or_eq_false_iff, before]
      simp [or_imp, forall_and]

/-- **One step**: nothing follows a closing answer afterwards exactly if nothing did before and the
step is settled. -/
theorem nothingFollows_step_iff {s s' : State} {a : Action} (flagged : Flagged s)
    (taken : step s a = some s') :
    NothingFollows s'.answers ↔ NothingFollows s.answers ∧ Settled s a := by
  cases effect_of_step taken with
  | quiet _ _ _ _ answers _ waits =>
      rw [answers]
      exact (and_iff_left fun response round _ => waits response round).symm
  | took _ call _ _ _ _ _ answers =>
      rw [answers]
      exact (and_iff_left fun response round => by rw [call] at round; cases round).symm
  | cleared done _ _ _ _ _ answers =>
      rw [answers]
      exact (and_iff_left fun response round => by rw [done] at round; cases round).symm
  | answered answer response round reports _ _ _ _ answers =>
      have before : s.conn.closeAfterFlush = false ↔ ∀ x ∈ s.answers, x.keepAlive = true := flagged
      rw [answers, nothingFollows_append, ← before]
      constructor
      · intro still
        refine ⟨nothingFollows_of_forall (before.mp still), fun _ _ closing => ?_⟩
        rw [still] at closing
        cases closing
      · rintro ⟨-, settled⟩
        by_contra closing
        exact reports (settled response round (by simpa using closing))

/-- **Nothing follows a closing answer in a run exactly if every round of its parse loop that finds
the connection about to be closed has nothing to report.** -/
theorem nothingFollows_iff {acts : List Action} {s : State}
    (ran : run step accepted acts = some s) :
    NothingFollows s.answers ↔ Meets step Settled accepted acts := by
  have start : Flagged accepted := by simp [Flagged, accepted]
  have empty : NothingFollows accepted.answers := nothingFollows_of_forall (by simp [accepted])
  have ends := @end_iff_meets _ _ step Settled Flagged (fun s => NothingFollows s.answers)
    (fun _ _ _ flagged taken => flagged.step taken)
    (fun _ _ _ flagged taken => nothingFollows_step_iff flagged taken) _ _ _ start ran
  exact ends.trans (and_iff_right empty)

/-- A quiet peer: the whole answer leaves at once. -/
theorem nothingFollows_twoSends :
    ∃ s, run step accepted twoSends = some s ∧ s.answers.length = 1 ∧
      Meets step Settled accepted twoSends := by
  obtain ⟨s, ran, one⟩ := exists_of_run
    (show (run step accepted twoSends).any (fun s => s.answers.length = 1) = true by
      decide +kernel)
  have one := of_decide_eq_true one
  obtain ⟨x, same⟩ := List.length_eq_one_iff.mp one
  refine ⟨s, ran, one, (nothingFollows_iff ran).mp ?_⟩
  rw [same]
  exact (@nothingFollows_append [] x).mpr (by simp)

/-- The client closes its side while the answer is stuck. -/
def stuckAnswer : List Action :=
  answeredFirst ++ [.sendBlocked, .event false false true, .recvEnd, .parse .default]

/-- The first of two answers closes the connection. -/
def closesFirst : List Answer → Bool
  | [x, _] => !x.keepAlive
  | _ => false

/-- The second request is answered although the first answer closes the connection. -/
theorem not_nothingFollows_stuckAnswer :
    ∃ s, run step accepted stuckAnswer = some s ∧ ¬ NothingFollows s.answers := by
  obtain ⟨s, ran, two⟩ := exists_of_run
    (show (run step accepted stuckAnswer).any (fun s => closesFirst s.answers) = true by
      decide +kernel)
  refine ⟨s, ran, fun nothing => ?_⟩
  unfold closesFirst at two
  split at two
  · rename_i x y same
    have empty := nothing [] x [y] same (by simpa using two)
    cases empty
  · cases two

end EventLoop

end EdgeCache

import EdgeCache.Arrival
import EdgeCache.CacheKey
import EdgeCache.EventLoop

/-!
# From the bytes of a client to the bytes of the answers

The parse loop of a connection runs on whatever has arrived, and is left in the middle when a
request asks for the connection to be closed.  On a steady stream none of that shows: the requests
that are answered are those that the parser finds in the whole stream.

**Main result.**  In every run of a connection that is sent a steady stream, **each request is
answered once and in order**, with a 400 for an error behind all of them, and when the stream has
been read nothing is left unanswered (`answers_of_stream`).
-/

namespace EdgeCache

open Scan Transition

/-! ## A request is taken off a stream -/

section Streams

variable {p future rest : ByteString} {request : HttpRequest} {requests : List HttpRequest}
  {ending : Ending}

/-- A stream gives one sequence of requests, and ends in one way. -/
theorem Fed.unique {s : ByteString} {requests' : List HttpRequest} {ending' : Ending}
    (one : Fed s requests ending) (two : Fed s requests' ending') :
    requests = requests' ∧ ending = ending' := one.drain.unique two.drain

/-- A block that has arrived is the first one of the stream. -/
theorem Head.append {h : ℕ} {out : HttpRequest} {bodyLen : UInt64} (head : Head p h out bodyLen)
    (future : ByteString) : Head (p ++ future) h out bodyLen := by
  have inside := headerEnd_add_four_le head.found
  refine ⟨find_append future head.found, ?_⟩
  rw [List.take_append_of_le_length (by omega)]
  exact head.accepted

/-- **What is completed on the bytes that have arrived** is the next request of the stream. -/
theorem Fed.complete (fed : Fed (p ++ future) requests ending)
    (completed : parse p = .complete request rest) :
    ∃ further, requests = request :: further ∧ Fed (rest ++ future) further ending := by
  obtain ⟨h, out, bodyLen, found, accepted, arrived, rfl, rfl⟩ := parse_eq_complete_iff.mp completed
  have head : Head (p ++ future) h out bodyLen := Head.append ⟨found, accepted⟩ future
  have inside := headerEnd_add_four_le found
  cases fed.steady with
  | pending missing => rw [head.found] at missing; cases missing
  | rejected found' refused =>
      cases head.found.symm.trans found'
      rw [head.accepted] at refused
      cases refused
  | waiting head' _ fits short =>
      obtain ⟨rfl, rfl, rfl⟩ := head.unique head'
      rw [totalLength_of_lt fits] at arrived
      rw [List.length_append] at short
      omega
  | next head' small fits whole further =>
      obtain ⟨rfl, rfl, rfl⟩ := head.unique head'
      rw [totalLength_of_lt fits] at arrived ⊢
      obtain ⟨later, ending', fed'⟩ := further.fed
      obtain ⟨rfl, rfl⟩ := fed.unique (fed_of_next head small fits whole fed')
      refine ⟨later, ?_, ?_⟩
      · rw [List.drop_append_of_le_length inside, List.take_append_of_le_length]
        rw [List.length_drop]
        omega
      · rwa [List.drop_append_of_le_length arrived] at fed'
  | wraps head' small wrapped last moves further =>
      obtain ⟨rfl, rfl, rfl⟩ := head.unique head'
      -- Nothing comes behind the block.
      have all : future = [] := by
        rw [List.length_append] at last
        exact List.length_eq_zero_iff.mp (by omega)
      subst all
      rw [List.append_nil] at fed head last further ⊢
      obtain ⟨later, ending', fed'⟩ := further.fed
      obtain ⟨rfl, rfl⟩ := fed.unique (fed_of_wraps head small wrapped last fed')
      refine ⟨later, ?_, fed'⟩
      rw [List.drop_eq_nil_of_le (by omega), List.take_nil]

/-- An error on the bytes that have arrived is the end of the stream. -/
theorem Fed.error (fed : Fed (p ++ future) requests ending) (failed : parse p = .error) :
    requests = [] ∧ ending = .error := by
  have drain : Drain ([] ++ p) [] .error := .error failed
  cases fed [p, future] (by simp) with
  | feed drained following => cases (drained.unique drain).2
  | stop failed' => exact ⟨(failed'.unique drain).1, rfl⟩

/-- Where all has arrived and the parser wants more, the stream is at its end. -/
theorem Fed.needMore (fed : Fed p requests ending) (more : parse p = .needMore) :
    requests = [] ∧ ending = .needMore p := fed.drain.unique (.needMore more)

end Streams

namespace EventLoop

/-! ## What comes in and what is answered -/

/-- The bytes that a step delivers to the parser. -/
def Action.data : Action → ByteString
  | .recv data => data
  | _ => []

/-- The bytes that a schedule delivers. -/
def received (acts : List Action) : ByteString := (acts.map Action.data).flatten

/-- The answer to a request. -/
def answerTo (exchange : HttpRequest × HttpResponse) : Answer := .served exchange.1 exchange.2

/-- **The answers to a stream**, as far as they go: each request once, in order, with a response,
and behind all of them a 400 for every time that the error was met. -/
structure AnswersOf (requests : List HttpRequest) (ending : Ending) (answers : List Answer)
    (exchanges : List (HttpRequest × HttpResponse)) (errors : ℕ) : Prop where
  all : answers = exchanges.map answerTo ++ List.replicate errors .rejected
  order : exchanges.map Prod.fst <+: requests
  last : 0 < errors → exchanges.map Prod.fst = requests ∧ ending = .error

/-- The parser has nothing to do in this stage. -/
def Stage.AtRest : Stage → Prop
  | .receiving => False
  | .parsing _ => False
  | _ => True

/-- **What a step does to the parser and the answers.** -/
inductive Intake (s : State) (a : Action) (s' : State) : Prop where
  | reads (buffer : s'.conn.buffer = s.conn.buffer ++ a.data) (answers : s'.answers = s.answers)
      (stage : s'.stage = .receiving)
  | serves {request : HttpRequest} {rest : ByteString} (response : HttpResponse)
      (completed : parse s.conn.buffer = .complete request rest) (silent : a.data = [])
      (buffer : s'.conn.buffer = rest)
      (answers : s'.answers = s.answers ++ [.served request response])
      (goesOn : request.keepAlive = true → ¬ s'.stage.AtRest)
  | rejects (failed : parse s.conn.buffer = .error) (silent : a.data = [])
      (buffer : s'.conn.buffer = s.conn.buffer) (answers : s'.answers = s.answers ++ [.rejected])
  | waits (more : parse s.conn.buffer = .needMore) (silent : a.data = [])
      (buffer : s'.conn.buffer = s.conn.buffer) (answers : s'.answers = s.answers)
  | other (silent : a.data = []) (buffer : s'.conn.buffer = s.conn.buffer)
      (answers : s'.answers = s.answers) (rests : s'.stage.AtRest → s.stage.AtRest)

section Steps

variable {s s' : State} {a : Action}

theorem intake_of_flush (inside : s.stage.AtRest) (taken : flush s a = some s') :
    Intake s a s' := by
  unfold flush at taken
  split at taken <;> first | cases taken | (split at taken <;> cases taken)
  all_goals exact .other rfl rfl rfl fun _ => inside

theorem intake_parseRound (peerClosed : Bool) (response : HttpResponse) :
    Intake s (.parse response) (parseRound s peerClosed response) := by
  unfold parseRound
  split
  · rename_i more
    exact .waits more rfl rfl rfl
  · rename_i failed
    exact .rejects failed rfl rfl rfl
  · rename_i request rest completed
    refine .serves response completed rfl rfl rfl fun keepAlive => ?_
    show ¬ (if request.keepAlive = true then Stage.parsing peerClosed else _).AtRest
    rw [if_pos keepAlive]
    exact not_false

/-- **Every step does one of these.** -/
theorem intake_of_step (taken : step s a = some s') : Intake s a s' := by
  unfold step at taken
  split at taken
  · rename_i here
    cases taken
    exact .other rfl rfl rfl fun _ => by rw [here]; trivial
  · rename_i here
    cases taken
    exact .other rfl rfl rfl fun _ => by rw [here]; trivial
  · rename_i here
    exact intake_of_flush (by rw [here]; trivial) taken
  · rename_i here
    split at taken
    · cases taken
      exact .reads rfl rfl here
    · cases taken
  · cases taken
    exact .other rfl rfl rfl id
  iterate 3
    · cases taken
      exact .other rfl rfl rfl not_false.elim
  · cases taken
    exact intake_parseRound _ _
  · rename_i here
    exact intake_of_flush (by rw [here]; trivial) taken
  · cases taken

end Steps

/-! ## Each request once and in order -/

section Runs

variable {s s' : State} {a : Action} {acts : List Action} {stream future : ByteString}
  {requests : List HttpRequest} {ending : Ending}

/-- The answers are those to the front of a stream, and the rest of it gives the other requests. -/
def Along (requests : List HttpRequest) (ending : Ending) (future : ByteString) (s : State) :
    Prop :=
  ∃ (exchanges : List (HttpRequest × HttpResponse)) (errors : ℕ) (further : List HttpRequest),
    s.answers = exchanges.map answerTo ++ List.replicate errors .rejected ∧
      requests = exchanges.map Prod.fst ++ further ∧
      Fed (s.conn.buffer ++ future) further ending ∧
      (0 < errors → further = [] ∧ ending = .error)

/-- **Every step goes on along the stream.** -/
theorem Along.step (along : Along requests ending (a.data ++ future) s)
    (taken : step s a = some s') : Along requests ending future s' := by
  obtain ⟨exchanges, errors, further, answered, split, fed, ends⟩ := along
  cases intake_of_step taken with
  | reads buffer answers =>
      refine ⟨exchanges, errors, further, answers ▸ answered, split, ?_, ends⟩
      rwa [buffer, List.append_assoc]
  | @serves request rest response completed silent buffer answers =>
      rw [silent, List.nil_append] at fed
      obtain ⟨later, rfl, following⟩ := fed.complete completed
      obtain rfl : errors = 0 := by
        by_contra some
        cases (ends (Nat.pos_of_ne_zero some)).1
      refine ⟨exchanges ++ [(request, response)], 0, later, ?_, ?_, by rwa [buffer], by simp⟩
      · rw [answers, answered]
        simp [answerTo]
      · rw [split]
        simp
  | rejects failed silent buffer answers =>
      rw [silent, List.nil_append] at fed
      have stops := fed.error failed
      refine ⟨exchanges, errors + 1, further, ?_, split, by rwa [buffer], fun _ => stops⟩
      rw [answers, answered, List.replicate_succ', List.append_assoc]
  | waits more silent buffer answers =>
      rw [silent, List.nil_append] at fed
      exact ⟨exchanges, errors, further, answers ▸ answered, split, by rwa [buffer], ends⟩
  | other silent buffer answers =>
      rw [silent, List.nil_append] at fed
      exact ⟨exchanges, errors, further, answers ▸ answered, split, by rwa [buffer], ends⟩

/-- **So does a run.** -/
theorem along_of_run (ran : run EventLoop.step s acts = some s')
    (along : Along requests ending (received acts ++ future) s) :
    Along requests ending future s' := by
  induction acts generalizing s with
  | nil =>
      cases ran
      exact along
  | cons a acts ih =>
      obtain ⟨s₁, taken, ran⟩ := Option.bind_eq_some_iff.mp ran
      have along : Along requests ending (a.data ++ (received acts ++ future)) s := by
        rwa [← List.append_assoc]
      exact ih ran (along.step taken)

/-- At rest, the parser has reported all that it could, unless a request has ended the loop. -/
def Drained (s : State) : Prop :=
  s.stage.AtRest →
    (∀ request response, .served request response ∈ s.answers → request.keepAlive = true) →
      parse s.conn.buffer = .needMore ∨ (parse s.conn.buffer = .error ∧ .rejected ∈ s.answers)

theorem Drained.step (drained : Drained s) (taken : step s a = some s') : Drained s' := by
  intro still keepAlive
  cases intake_of_step taken with
  | reads buffer answers stage =>
      rw [stage] at still
      exact still.elim
  | @serves request rest response completed silent buffer answers goesOn =>
      have last := keepAlive request response (by rw [answers]; simp)
      exact absurd still (goesOn last)
  | rejects failed silent buffer answers =>
      rw [buffer, answers]
      exact Or.inr ⟨failed, by simp⟩
  | waits more silent buffer answers => exact Or.inl (buffer ▸ more)
  | other silent buffer answers rests =>
      rw [answers] at keepAlive ⊢
      rw [buffer]
      exact drained (rests still) keepAlive

/-- **Each request of a stream is answered once and in order**, whatever pieces the bytes come in,
whatever the socket takes of the answers, and wherever the parse loop is left; a 400 comes for an
error only, and behind all requests.  When the stream has been read, nothing is unanswered. -/
theorem answers_of_stream (steady : Steady stream) (drain : Drain stream requests ending)
    (ran : run EventLoop.step accepted acts = some s) (part : received acts <+: stream) :
    ∃ exchanges errors, AnswersOf requests ending s.answers exchanges errors ∧
      s.sent <+: (s.answers.map Answer.serialized).flatten ∧
      (received acts = stream → s.stage.AtRest → (∀ r ∈ requests, r.keepAlive = true) →
        exchanges.map Prod.fst = requests ∧ (ending = .error → 0 < errors)) := by
  have fed : Fed stream requests ending := by
    obtain ⟨requests', ending', fed⟩ := steady.fed
    obtain ⟨rfl, rfl⟩ := fed.drain.unique drain
    exact fed
  obtain ⟨future, rfl⟩ := part
  have start : Along requests ending (received acts ++ future) accepted :=
    ⟨[], 0, requests, rfl, rfl, fed, by simp⟩
  obtain ⟨exchanges, errors, further, answered, split, fed', ends⟩ := along_of_run ran start
  have steps := Steps.of_run (meets_true EventLoop.step accepted acts) ran
  have whole : Whole s := steps.invariant (fun _ _ _ _ taken whole => whole.step taken)
    whole_accepted
  have drained : Drained s := steps.invariant (fun _ _ _ _ taken drained => drained.step taken)
    (fun _ _ => Or.inl rfl)
  refine ⟨exchanges, errors, ⟨answered, ⟨further, split.symm⟩, fun some => ?_⟩,
    ⟨_, whole.bytes_eq⟩, fun read rest keepAlive => ?_⟩
  · obtain ⟨rfl, error⟩ := ends some
    exact ⟨by rw [split, List.append_nil], error⟩
  · obtain rfl : future = [] := by simpa using read
    rw [List.append_nil] at fed'
    have kept : ∀ request response, .served request response ∈ s.answers →
        request.keepAlive = true := by
      intro request response mem
      rw [answered] at mem
      have here : (request, response) ∈ exchanges := by simpa [answerTo] using mem
      exact keepAlive request (split ▸ List.mem_append_left _ (List.mem_map_of_mem here))
    rcases drained rest kept with more | ⟨failed, reported⟩
    · obtain ⟨rfl, rfl⟩ := fed'.needMore more
      exact ⟨by rw [split, List.append_nil], fun error => by cases error⟩
    · rw [← List.append_nil s.conn.buffer] at fed'
      obtain ⟨rfl, rfl⟩ := fed'.error failed
      refine ⟨by rw [split, List.append_nil], fun _ => Nat.pos_of_ne_zero ?_⟩
      rintro rfl
      rw [answered] at reported
      simp [answerTo] at reported

end Runs

/-- Two requests one after the other. -/
def twoGets : ByteString := bytes "GET / HTTP/1.1\r\n\r\nGET / HTTP/1.1\r\n\r\n"

/-- They arrive in two pieces, with a part of the first answer between them. -/
def twoPieces : List Action :=
  [.event false false true, .recv (twoGets.take 20), .recvBlocked, .parse .default, .parse .default,
    .send 10, .sendBlocked, .event false true true, .sendInterrupted, .send 52, .flushed,
    .recv (twoGets.drop 20), .recvInterrupted, .recvBlocked, .parse .default, .parse .default,
    .send 62, .flushed]

theorem steady_twoGets : Steady twoGets := by
  have first : Head twoGets 14 (plainGet (bytes "/") []) 0 := by
    constructor <;> decide +kernel
  have second : Head (twoGets.drop (14 + 4 + (0 : UInt64).toNat)) 14
      (plainGet (bytes "/") []) 0 := by
    constructor <;> decide +kernel
  refine .next first (by decide) (by decide) (by decide +kernel) ?_
  refine .next second (by decide) (by decide) (by decide +kernel) (.pending ?_)
  decide +kernel

/-- Both are answered. -/
theorem answers_of_stream_twoPieces :
    ∃ s, run step accepted twoPieces = some s ∧ s.stage = .waiting ∧
      ∃ exchanges errors,
        AnswersOf [plainGet (bytes "/") [], plainGet (bytes "/") []] (.needMore []) s.answers
          exchanges errors ∧
        s.sent <+: (s.answers.map Answer.serialized).flatten ∧
        exchanges.map Prod.fst = [plainGet (bytes "/") [], plainGet (bytes "/") []] := by
  obtain ⟨s, ran, stage⟩ := exists_of_run
    (show (run step accepted twoPieces).any (fun s => s.stage = .waiting) = true by decide +kernel)
  have stage := of_decide_eq_true stage
  have drain : Drain twoGets [plainGet (bytes "/") [], plainGet (bytes "/") []] (.needMore []) := by
    have first : parse twoGets = .complete (plainGet (bytes "/") []) (twoGets.drop 18) := by
      decide +kernel
    have second : parse (twoGets.drop 18) = .complete (plainGet (bytes "/") []) [] := by
      decide +kernel
    exact .complete first (.complete second (.needMore rfl))
  have read : received twoPieces = twoGets := by decide +kernel
  obtain ⟨exchanges, errors, answers, sent, all⟩ :=
    answers_of_stream steady_twoGets drain ran (read ▸ List.prefix_refl _)
  exact ⟨s, ran, stage, exchanges, errors, answers, sent,
    (all read (by rw [stage]; trivial) (by decide +kernel)).1⟩

end EventLoop

end EdgeCache

import Mathlib
import EdgeCache.Http

/-!
# The request parser

`RequestParser` accumulates the bytes of a connection and cuts requests off the
front of its buffer.  `parse` is one call on a buffer; the draining loop of
`EventLoop::onReadable` calls it until it answers `NeedMore` or `Error`, and
`Drain` is that loop.

The header block is read through `std::getline`, so its lines end at a line
feed with an optional carriage return before it, and the first empty line ends
the header fields even when it is a bare line feed inside the block.  Fields are
assigned to the map in order: the last line of a name wins.

All offsets are `size_t`.  The sum `headerEnd + 4 + bodyLen` is taken modulo
`2^64` here as it is there; both framing results of this file turn on it.
-/

namespace EdgeCache

open Scan

/-- The end of a header block, `"\r\n\r\n"`. -/
def headerTerminator : ByteString := [CR, LF, CR, LF]

/-- The result of one call of `parse`.  Callers read `out` only when the state
is `Complete`, and only then does the buffer change. -/
inductive ParseResult where
  | needMore
  | error
  | complete (out : HttpRequest) (buffer : ByteString)
  deriving DecidableEq

/-! ## The header block -/

/-- `ls >> req.method >> req.target >> req.version`. -/
def readRequestLine (line : ByteString) : Option (ByteString × ByteString × ByteString) := do
  let (method, rest) ← readWord isspace line
  let (target, rest) ← readWord isspace rest
  let (version, _) ← readWord isspace rest
  return (method, target, version)

/-- The name and value of one header line, when it has a colon and a name. -/
def headerField (line : ByteString) : Option (ByteString × ByteString) :=
  match find line [COLON] with
  | none => none
  | some colon =>
      let name := trim (line.take colon)
      if name = [] then none else some (name, trim (line.drop (colon + 1)))

/-- The header loop: every line up to the first empty one is a field. -/
def readHeaders : List ByteString → Headers → Headers
  | [], headers => headers
  | line :: rest, headers =>
      if popCR line = [] then headers
      else
        match headerField (popCR line) with
        | none => readHeaders rest headers
        | some (name, value) => readHeaders rest (headers.insert name value)

/-- The body length a `Content-Length` value stands for, `0` where there is none;
`none` where `std::stoull` throws. -/
def lengthValue : Option ByteString → Option UInt64
  | none => some 0
  | some value => stoull value

/-- The body length the fields declare. -/
def bodyLength (headers : Headers) : Option UInt64 :=
  lengthValue (headers.find? (bytes "Content-Length"))

/-- Path and query: the target split at its first `'?'`. -/
def splitTarget (target : ByteString) : ByteString × ByteString :=
  match find target [63] with
  | none => (target, [])
  | some q => (target.take q, target.drop (q + 1))

/-- What `parse` computes from the header block alone: the request without its
body, and the declared body length.  `none` is `State::Error`. -/
def parseHead (block : ByteString) : Option (HttpRequest × UInt64) :=
  match lines LF block with
  | [] => none
  | line :: headerLines =>
      match readRequestLine (popCR line) with
      | none => none
      | some (method, target, version) =>
          let headers := readHeaders headerLines Headers.empty
          if headers.contains (bytes "Transfer-Encoding") then none
          else
            (bodyLength headers).map fun bodyLen =>
              ({ method, target, version, headers
                 body := []
                 path := (splitTarget target).1
                 query := (splitTarget target).2 }, bodyLen)

/-- **What an accepted block says**: its first line is the request line, its fields make
the map, none of them is a `Transfer-Encoding`, and the map declares the length. -/
theorem parseHead_eq_some {block : ByteString} {out : HttpRequest} {bodyLen : UInt64}
    (accepted : parseHead block = some (out, bodyLen)) :
    ∃ line rest, lines LF block = line :: rest ∧
      readRequestLine (popCR line) = some (out.method, out.target, out.version) ∧
      out.headers = readHeaders rest Headers.empty ∧
      out.headers.contains (bytes "Transfer-Encoding") = false ∧
      bodyLength out.headers = some bodyLen ∧
      out.path = (splitTarget out.target).1 ∧ out.query = (splitTarget out.target).2 := by
  unfold parseHead at accepted
  split at accepted
  · cases accepted
  · rename_i line rest cut
    split at accepted
    · cases accepted
    · rename_i method target version words
      simp only at accepted
      split at accepted
      · cases accepted
      · rename_i plain
        obtain ⟨n, length, built⟩ := Option.map_eq_some_iff.mp accepted
        cases built
        exact ⟨line, rest, cut, words, rfl, by simpa using plain, length, rfl, rfl⟩

/-- `headerEnd + 4 + bodyLen` in `size_t` arithmetic. -/
def totalLength (headerEnd : ℕ) (bodyLen : UInt64) : UInt64 :=
  UInt64.ofNat headerEnd + 4 + bodyLen

/-- `RequestParser::parse`. -/
def parse (buffer : ByteString) : ParseResult :=
  match find buffer headerTerminator with
  | none => if buffer.length > 64 * 1024 then .error else .needMore
  | some headerEnd =>
      match parseHead (buffer.take headerEnd) with
      | none => .error
      | some (out, bodyLen) =>
          let total := (totalLength headerEnd bodyLen).toNat
          if buffer.length < total then .needMore
          else
            .complete { out with body := (buffer.drop (headerEnd + 4)).take bodyLen.toNat }
              (buffer.drop total)

theorem parse_of_find_none {buffer : ByteString} (missing : find buffer headerTerminator = none) :
    parse buffer = if buffer.length > 64 * 1024 then .error else .needMore := by
  simp only [parse, missing]

theorem parse_of_rejected {buffer : ByteString} {headerEnd : ℕ}
    (found : find buffer headerTerminator = some headerEnd)
    (rejected : parseHead (buffer.take headerEnd) = none) : parse buffer = .error := by
  simp only [parse, found, rejected]

theorem parse_of_accepted {buffer : ByteString} {headerEnd : ℕ} {out : HttpRequest}
    {bodyLen : UInt64} (found : find buffer headerTerminator = some headerEnd)
    (accepted : parseHead (buffer.take headerEnd) = some (out, bodyLen)) :
    parse buffer =
      if buffer.length < (totalLength headerEnd bodyLen).toNat then .needMore
      else
        .complete { out with body := (buffer.drop (headerEnd + 4)).take bodyLen.toNat }
          (buffer.drop (totalLength headerEnd bodyLen).toNat) := by
  simp only [parse, found, accepted]

/-- **What a `Complete` call did**: it found the terminator, accepted the block
and cut the declared total off the buffer. -/
theorem parse_eq_complete_iff {buffer rest : ByteString} {request : HttpRequest} :
    parse buffer = .complete request rest ↔
      ∃ headerEnd out bodyLen, find buffer headerTerminator = some headerEnd ∧
        parseHead (buffer.take headerEnd) = some (out, bodyLen) ∧
        (totalLength headerEnd bodyLen).toNat ≤ buffer.length ∧
        request = { out with body := (buffer.drop (headerEnd + 4)).take bodyLen.toNat } ∧
        rest = buffer.drop (totalLength headerEnd bodyLen).toNat := by
  constructor
  · intro complete
    cases found : find buffer headerTerminator with
    | none =>
        rw [parse_of_find_none found] at complete
        split at complete <;> cases complete
    | some headerEnd =>
        cases head : parseHead (buffer.take headerEnd) with
        | none =>
            rw [parse_of_rejected found head] at complete
            cases complete
        | some accepted =>
            obtain ⟨out, bodyLen⟩ := accepted
            rw [parse_of_accepted found head] at complete
            split at complete
            · cases complete
            · cases complete
              exact ⟨headerEnd, out, bodyLen, rfl, head, by omega, rfl, rfl⟩
  · rintro ⟨headerEnd, out, bodyLen, found, head, fits, rfl, rfl⟩
    rw [parse_of_accepted found head, if_neg (by omega)]

/-- The header terminator fits in the buffer it is found in. -/
theorem headerEnd_add_four_le {buffer : ByteString} {headerEnd : ℕ}
    (found : find buffer headerTerminator = some headerEnd) : headerEnd + 4 ≤ buffer.length :=
  find_add_length_le found

theorem totalLength_toNat (headerEnd : ℕ) (bodyLen : UInt64) :
    (totalLength headerEnd bodyLen).toNat = (headerEnd + 4 + bodyLen.toNat) % 2 ^ 64 := by
  simp only [totalLength, UInt64.toNat_add, UInt64.toNat_ofNat', UInt64.reduceToNat]
  omega

/-- Without wraparound the total is the sum. -/
theorem totalLength_of_lt {headerEnd : ℕ} {bodyLen : UInt64}
    (fits : headerEnd + 4 + bodyLen.toNat < 2 ^ 64) :
    (totalLength headerEnd bodyLen).toNat = headerEnd + 4 + bodyLen.toNat := by
  rw [totalLength_toNat, Nat.mod_eq_of_lt fits]

/-! ## The draining loop -/

/-- How the draining loop ends: `NeedMore` with the bytes left in the buffer, or
`Error`. -/
inductive Ending where
  | needMore (buffer : ByteString)
  | error
  deriving DecidableEq

/-- **The draining loop** of `EventLoop::onReadable` on a keep-alive connection:
the requests it completes on a buffer without new feeds, and how it ends.
A buffer on which the loop runs forever has no derivation. -/
inductive Drain : ByteString → List HttpRequest → Ending → Prop where
  | needMore {buffer : ByteString} (more : parse buffer = .needMore) :
      Drain buffer [] (.needMore buffer)
  | error {buffer : ByteString} (failed : parse buffer = .error) : Drain buffer [] .error
  | complete {buffer rest : ByteString} {request : HttpRequest} {requests : List HttpRequest}
      {ending : Ending} (completed : parse buffer = .complete request rest)
      (further : Drain rest requests ending) : Drain buffer (request :: requests) ending

/-- The loop is deterministic. -/
theorem Drain.unique {buffer : ByteString} {requests requests' : List HttpRequest}
    {ending ending' : Ending} (one : Drain buffer requests ending)
    (two : Drain buffer requests' ending') : requests = requests' ∧ ending = ending' := by
  induction one generalizing requests' ending' with
  | needMore more =>
      cases two with
      | needMore => exact ⟨rfl, rfl⟩
      | error failed => rw [more] at failed; cases failed
      | complete completed => rw [more] at completed; cases completed
  | error failed =>
      cases two with
      | needMore more => rw [failed] at more; cases more
      | error => exact ⟨rfl, rfl⟩
      | complete completed => rw [failed] at completed; cases completed
  | complete completed _ ih =>
      cases two with
      | needMore more => rw [completed] at more; cases more
      | error failed => rw [completed] at failed; cases failed
      | complete completed' further' =>
          rw [completed] at completed'
          cases completed'
          obtain ⟨rfl, rfl⟩ := ih further'
          exact ⟨rfl, rfl⟩

/-- The buffers the loop hands to `parse`, starting from one. -/
def Drains : ByteString → ByteString → Prop :=
  Relation.ReflTransGen fun buffer rest => ∃ request, parse buffer = .complete request rest

/-- The header block is accepted and the end of the declared body, computed in
`size_t`, is the start of the buffer. -/
def WrapsToZero (buffer : ByteString) : Prop :=
  ∃ headerEnd out bodyLen, find buffer headerTerminator = some headerEnd ∧
    parseHead (buffer.take headerEnd) = some (out, bodyLen) ∧
    (headerEnd + 4 + bodyLen.toNat) % 2 ^ 64 = 0

/-- A call on a buffer that wraps to zero completes and removes nothing. -/
theorem parse_of_wrapsToZero {buffer : ByteString} (wraps : WrapsToZero buffer) :
    ∃ request, parse buffer = .complete request buffer := by
  obtain ⟨headerEnd, out, bodyLen, found, head, zero⟩ := wraps
  refine ⟨_, parse_eq_complete_iff.mpr ⟨headerEnd, out, bodyLen, found, head, ?_, rfl, ?_⟩⟩
  · rw [totalLength_toNat, zero]
    exact Nat.zero_le _
  · rw [totalLength_toNat, zero, List.drop_zero]

/-- Any other `Complete` shortens the buffer. -/
theorem length_lt_of_complete {buffer rest : ByteString} {request : HttpRequest}
    (completed : parse buffer = .complete request rest) (progress : ¬ WrapsToZero buffer) :
    rest.length < buffer.length := by
  obtain ⟨headerEnd, out, bodyLen, found, head, fits, -, rfl⟩ :=
    parse_eq_complete_iff.mp completed
  have nonzero : (headerEnd + 4 + bodyLen.toNat) % 2 ^ 64 ≠ 0 := fun zero =>
    progress ⟨headerEnd, out, bodyLen, found, head, zero⟩
  have long := headerEnd_add_four_le found
  rw [totalLength_toNat] at fits ⊢
  rw [List.length_drop]
  omega

/-- A `Complete` whose sum does not wrap removes at least the four bytes of the
header terminator. -/
theorem four_le_removed {buffer rest : ByteString} {request : HttpRequest} {headerEnd : ℕ}
    {out : HttpRequest} {bodyLen : UInt64} (completed : parse buffer = .complete request rest)
    (found : find buffer headerTerminator = some headerEnd)
    (head : parseHead (buffer.take headerEnd) = some (out, bodyLen))
    (fits : headerEnd + 4 + bodyLen.toNat < 2 ^ 64) : rest.length + 4 ≤ buffer.length := by
  obtain ⟨headerEnd', out', bodyLen', found', head', inside, -, rfl⟩ :=
    parse_eq_complete_iff.mp completed
  cases found.symm.trans found'
  cases head.symm.trans head'
  rw [totalLength_of_lt fits] at inside ⊢
  rw [List.length_drop]
  omega

/-- A loop that ends hands no buffer to `parse` that wraps to zero. -/
theorem not_wrapsToZero_of_drain {buffer : ByteString} {requests : List HttpRequest}
    {ending : Ending} (drain : Drain buffer requests ending) : ¬ WrapsToZero buffer := by
  intro wraps
  obtain ⟨request, stuck⟩ := parse_of_wrapsToZero wraps
  induction drain with
  | needMore more => rw [stuck] at more; cases more
  | error failed => rw [stuck] at failed; cases failed
  | complete completed further ih =>
      rw [stuck] at completed
      cases completed
      exact ih wraps stuck

/-- The loop ends from every buffer it reaches. -/
theorem exists_drain_of_drains {buffer buffer' : ByteString} (reached : Drains buffer buffer')
    (ends : ∃ requests ending, Drain buffer requests ending) :
    ∃ requests ending, Drain buffer' requests ending := by
  induction reached with
  | refl => exact ends
  | tail _ last ih =>
      obtain ⟨request, completed⟩ := last
      obtain ⟨requests, ending, drain⟩ := ih
      cases drain with
      | needMore more => rw [completed] at more; cases more
      | error failed => rw [completed] at failed; cases failed
      | complete completed' further =>
          rw [completed] at completed'
          cases completed'
          exact ⟨_, _, further⟩

/-- **Termination of the draining loop.**  The loop ends on a buffer exactly
when none of the buffers it hands to `parse` wraps to zero, and every `Complete`
on the way whose sum does not wrap removes at least four bytes. -/
theorem drain_terminates_iff (buffer : ByteString) :
    ((∃ requests ending, Drain buffer requests ending) ↔
      ∀ buffer', Drains buffer buffer' → ¬ WrapsToZero buffer') ∧
    (∀ buffer' request rest headerEnd out bodyLen, Drains buffer buffer' →
      parse buffer' = .complete request rest →
      find buffer' headerTerminator = some headerEnd →
      parseHead (buffer'.take headerEnd) = some (out, bodyLen) →
      headerEnd + 4 + bodyLen.toNat < 2 ^ 64 → rest.length + 4 ≤ buffer'.length) := by
  refine ⟨⟨?_, ?_⟩, fun _ _ _ _ _ _ _ completed found head fits =>
    four_le_removed completed found head fits⟩
  · intro ends buffer' reached
    obtain ⟨requests, ending, drain⟩ := exists_drain_of_drains reached ends
    exact not_wrapsToZero_of_drain drain
  · intro progress
    -- Strong induction on the length of the buffer the loop stands at.
    induction length : buffer.length using Nat.strong_induction_on generalizing buffer with
    | _ size ih =>
        cases result : parse buffer with
        | needMore => exact ⟨[], _, .needMore result⟩
        | error => exact ⟨[], _, .error result⟩
        | complete request rest =>
            have shorter := length_lt_of_complete result (progress buffer .refl)
            obtain ⟨requests, ending, drain⟩ := ih rest.length (by omega) rest
              (fun buffer' reached => progress buffer' (.head ⟨request, result⟩ reached)) rfl
            exact ⟨request :: requests, ending, .complete result drain⟩

/-- A request whose declared length is `2^64 - 56`, with a header block of 52
bytes: the body would end at offset zero. -/
def wrappingRequest : ByteString :=
  bytes "GET / HTTP/1.1\r\nContent-Length: 18446744073709551560\r\n\r\n"

/-- The loop never ends on it: every call completes the same request and leaves
the buffer as it was. -/
theorem not_drain_wrappingRequest :
    ¬ ∃ requests ending, Drain wrappingRequest requests ending := by
  rintro ⟨requests, ending, drain⟩
  have found : find wrappingRequest headerTerminator = some 52 := by decide +kernel
  have accepted : (parseHead (wrappingRequest.take 52)).map (fun head => head.2) =
      some 18446744073709551560 := by decide +kernel
  obtain ⟨⟨out, bodyLen⟩, head, rfl⟩ := Option.map_eq_some_iff.mp accepted
  exact not_wrapsToZero_of_drain drain ⟨52, out, _, found, head, by decide⟩

end EdgeCache

import EdgeCache.Forwarding

/-!
# The header lines that reach the origin

`HttpOriginClient::fetch` writes a `Host`, an `X-Forwarded-Proto` and a `Connection` line of its own
and copies the fields of the request between them, except those whose names are spelled as in its
list.  The map of the request compares names without case, and it keeps the spelling that came in.

* `sentLines_eq` — the lines between the request line and the terminator are the forwarded fields:
  no target, name or value the parser lets through brings in another one.
* `upstreamKept_iff` — **a client cannot override the lines of the proxy** exactly if it spells the
  names of the list as the list does.
-/

namespace EdgeCache

open Scan

/-- The name of a header line: what stands before its first colon. -/
def lineName (line : ByteString) : ByteString :=
  match find line [COLON] with
  | none => line
  | some colon => line.take colon

theorem lineName_fieldLine {e : ByteString × ByteString} (noColon : COLON ∉ e.1) :
    lineName (fieldLine e) = e.1 := by
  rw [lineName, find_fieldLine noColon]
  exact take_fieldLine e

namespace HttpOriginClient

/-- The names that a request must not carry to the origin. -/
def heldNames : List ByteString :=
  [bytes "Host", bytes "Connection", bytes "Keep-Alive", bytes "Proxy-Connection",
    bytes "Transfer-Encoding"]

/-- Whether two names are the same without case. -/
def SameName (a b : ByteString) : Prop := lower a = lower b

instance (a b : ByteString) : Decidable (SameName a b) := inferInstanceAs (Decidable (_ = _))

/-- Whether a name is one of these, without case. -/
def Named (names : List ByteString) (name : ByteString) : Prop := ∃ n ∈ names, SameName name n

instance (names : List ByteString) (name : ByteString) : Decidable (Named names name) :=
  inferInstanceAs (Decidable (∃ n ∈ names, SameName name n))

/-- The header lines that `fetch` writes: what is between the request line and the terminator. -/
def sentLines (r : HttpRequest) (host : ByteString) : List ByteString :=
  match find (requestBytes r host) headerTerminator with
  | none => []
  | some headerEnd => ((lines LF ((requestBytes r host).take headerEnd)).map popCR).tail

/-- The lines that `fetch` writes itself. -/
def ownLines (host : ByteString) : List ByteString :=
  [fieldLine (bytes "Host", host), fieldLine (bytes "X-Forwarded-Proto", bytes "http"),
    fieldLine (bytes "Connection", bytes "close")]

/-- **The client cannot override what the proxy sets.**  Besides the lines of the proxy there are
only lines of the client, none of them with a held name, and every header of the client whose name
is neither held nor `Content-Length` is there once, with its value. -/
def UpstreamKept (r : HttpRequest) (host : ByteString) : Prop :=
  ∃ others, (sentLines r host).Perm (ownLines host ++ others) ∧
    (∀ line ∈ others, ¬ Named heldNames (lineName line) ∧
      ∃ e ∈ r.headers.entries, line = fieldLine e) ∧
    (others.filter fun line => ¬ SameName (lineName line) (bytes "Content-Length")).Perm
      ((r.headers.entries.filter fun e =>
        ¬ Named heldNames e.1 ∧ ¬ SameName e.1 (bytes "Content-Length")).map fieldLine)

/-- **The names of the list are spelled as in the list.** -/
def SpelledAsHeld (r : HttpRequest) : Prop :=
  ∀ e ∈ r.headers.entries, ∀ n ∈ heldNames, SameName e.1 n → e.1 = n

instance (r : HttpRequest) : Decidable (SpelledAsHeld r) :=
  inferInstanceAs (Decidable (∀ e ∈ r.headers.entries, ∀ n ∈ heldNames, SameName e.1 n → e.1 = n))

section Lines

variable {r : HttpRequest} {host : ByteString}

/-- **The lines that are sent are the forwarded fields**: nothing the parser lets through brings in
another line. -/
theorem sentLines_eq (accepted : r.Accepted) (hostPlain : LF ∉ host) :
    sentLines r host = (forwardedFields r host).map fieldLine := by
  have bare := forwardedLines_bare accepted hostPlain
  have found : find (requestBytes r host) headerTerminator = some (forwardedBlock r host).length := by
    rw [requestBytes_eq]
    exact find_joinLines bare r.body
  have cut := lines_joinLines bare forwardedLines_last
  simp only [sentLines, found]
  rw [requestBytes_eq, List.take_left, forwardedBlock, cut, List.tail_cons]

/-- No line of the header block has a line feed. -/
theorem noLF_of_mem_sentLines {line : ByteString} (mem : line ∈ sentLines r host) : LF ∉ line := by
  unfold sentLines at mem
  split at mem
  · cases mem
  · obtain ⟨whole, there, rfl⟩ := List.mem_map.mp (List.mem_of_mem_tail mem)
    exact fun here => notMem_of_mem_lines there (mem_of_mem_popCR here)

/-- A dropped field has a held name or is a `Content-Length`. -/
theorem named_of_mem_hopHeaders {name : ByteString} (mem : name ∈ hopHeaders) :
    Named heldNames name ∨ SameName name (bytes "Content-Length") := by
  have all : ∀ name ∈ hopHeaders,
      Named heldNames name ∨ SameName name (bytes "Content-Length") := by decide +kernel
  exact all name mem

theorem mem_hopHeaders_of_mem_heldNames {name : ByteString} (mem : name ∈ heldNames) :
    name ∈ hopHeaders := by
  have all : ∀ name ∈ heldNames, name ∈ hopHeaders := by decide +kernel
  exact all name mem

/-- Of the list, only the name itself is a held name in some spelling. -/
theorem eq_of_mem_hopHeaders {name n : ByteString} (mem : name ∈ hopHeaders) (held : n ∈ heldNames)
    (same : SameName name n) : name = n := by
  have all : ∀ name ∈ hopHeaders, ∀ n ∈ heldNames, SameName name n → name = n := by
    decide +kernel
  exact all name mem n held same

/-- The forwarded fields are those of the proxy and those that are copied. -/
theorem perm_forwardedFields :
    ((forwardedFields r host).map fieldLine).Perm
      (ownLines host ++ (r.headers.entries.filter fun kv => kv.1 ∉ hopHeaders).map fieldLine) := by
  simp only [forwardedFields, ownLines, List.cons_append, List.map_cons, List.map_append,
    List.map_nil, List.nil_append]
  exact (List.perm_append_comm).cons _

/-- Where the names are spelled as in the list, what is copied has other names. -/
theorem not_named_of_copied (spelled : SpelledAsHeld r) {e : ByteString × ByteString}
    (mem : e ∈ r.headers.entries) (copied : e.1 ∉ hopHeaders) : ¬ Named heldNames e.1 := by
  rintro ⟨n, held, same⟩
  rw [spelled e mem n held same] at copied
  exact copied (mem_hopHeaders_of_mem_heldNames held)

theorem upstreamKept_of_spelled (accepted : r.Accepted) (hostPlain : LF ∉ host)
    (spelled : SpelledAsHeld r) : UpstreamKept r host := by
  refine ⟨_, by rw [sentLines_eq accepted hostPlain]; exact perm_forwardedFields, ?_, ?_⟩
  · intro line mem
    obtain ⟨e, there, rfl⟩ := List.mem_map.mp mem
    obtain ⟨field, copied⟩ := List.mem_filter.mp there
    have noColon := (accepted.fields e field).1.noColon
    rw [lineName_fieldLine noColon]
    exact ⟨not_named_of_copied spelled field (by simpa using copied), e, field, rfl⟩
  · rw [List.filter_map, List.filter_filter]
    refine .of_eq (congrArg _ (List.filter_congr fun e mem => ?_))
    have noColon := (accepted.fields e mem).1.noColon
    have same : (¬ SameName e.1 (bytes "Content-Length") ∧ e.1 ∉ hopHeaders) ↔
        (¬ Named heldNames e.1 ∧ ¬ SameName e.1 (bytes "Content-Length")) := by
      constructor
      · rintro ⟨other, copied⟩
        exact ⟨not_named_of_copied spelled mem copied, other⟩
      · rintro ⟨free, other⟩
        exact ⟨other, fun dropped => (named_of_mem_hopHeaders dropped).elim free other⟩
    rw [Function.comp_apply, lineName_fieldLine noColon, ← Bool.decide_and, decide_eq_decide]
    exact same

/-- A field whose name is spelled in another way is copied. -/
theorem spelled_of_upstreamKept (accepted : r.Accepted) (hostPlain : LF ∉ host)
    (kept : UpstreamKept r host) : SpelledAsHeld r := by
  intro e mem n held same
  by_contra other
  have copied : e.1 ∉ hopHeaders := fun dropped => other (eq_of_mem_hopHeaders dropped held same)
  have noColon := (accepted.fields e mem).1.noColon
  obtain ⟨others, perm, clean, -⟩ := kept
  have there : fieldLine e ∈ ownLines host ++ others := by
    rw [← perm.mem_iff, sentLines_eq accepted hostPlain, perm_forwardedFields.mem_iff]
    refine List.mem_append_right _ (List.mem_map_of_mem (List.mem_filter.mpr ⟨mem, ?_⟩))
    simpa using copied
  -- Its line is none of the proxy's own: their names are those of the list, or no held name.
  have apart : ∀ own ∈ [bytes "Host", bytes "X-Forwarded-Proto", bytes "Connection"],
      COLON ∉ own ∧ ∀ n ∈ heldNames, SameName own n → own = n := by decide +kernel
  have ne (own value : ByteString)
      (mem' : own ∈ [bytes "Host", bytes "X-Forwarded-Proto", bytes "Connection"])
      (line : fieldLine e = fieldLine (own, value)) : False := by
    obtain ⟨ownColon, ownSpelled⟩ := apart own mem'
    have names : e.1 = own := by
      have names := congrArg lineName line
      rwa [lineName_fieldLine noColon, lineName_fieldLine ownColon] at names
    rw [names] at same other
    exact other (ownSpelled n held same)
  rcases List.mem_append.mp there with own | later
  · simp only [ownLines, List.mem_cons, List.not_mem_nil, or_false] at own
    rcases own with line | line | line
    · exact ne _ _ (by simp) line
    · exact ne _ _ (by simp) line
    · exact ne _ _ (by simp) line
  · refine (clean _ later).1 ?_
    rw [lineName_fieldLine noColon]
    exact ⟨n, held, same⟩

/-- A host with a line feed in it does not arrive in one line. -/
theorem hostPlain_of_upstreamKept (kept : UpstreamKept r host) : LF ∉ host := by
  obtain ⟨others, perm, -⟩ := kept
  intro broken
  refine noLF_of_mem_sentLines (perm.mem_iff.mpr (List.mem_append_left _ List.mem_cons_self)) ?_
  exact List.mem_append_right _ broken

end Lines

/-- **A client cannot override what the proxy sets exactly if it spells the names of the list as
the list does**, and the host it is configured for has no line feed. -/
theorem upstreamKept_iff {buffer rest : ByteString} {r : HttpRequest}
    (completed : parse buffer = .complete r rest) (host : ByteString) :
    UpstreamKept r host ↔ LF ∉ host ∧ SpelledAsHeld r := by
  have accepted := accepted_of_parse completed
  constructor
  · intro kept
    have hostPlain := hostPlain_of_upstreamKept kept
    exact ⟨hostPlain, spelled_of_upstreamKept accepted hostPlain kept⟩
  · rintro ⟨hostPlain, spelled⟩
    exact upstreamKept_of_spelled accepted hostPlain spelled

/-- A request for `/` that names a host under a spelling of `Host`. -/
def hostRequest (name : ByteString) : HttpRequest where
  method := bytes "GET"
  target := bytes "/"
  version := bytes "HTTP/1.1"
  headers := Headers.ofList [(name, bytes "evil"), (bytes "Accept", bytes "*/*")]
  body := []
  path := bytes "/"
  query := []

/-- Spelled as usual it is dropped. -/
theorem upstreamKept_hostRequest : UpstreamKept (hostRequest (bytes "Host")) (bytes "origin") :=
  (upstreamKept_iff
    (show parse (bytes "GET / HTTP/1.1\r\nHost: evil\r\nAccept: */*\r\n\r\n") =
      .complete (hostRequest (bytes "Host")) [] by decide +kernel) _).mpr (by decide +kernel)

/-- In lower case it goes to the origin as a second `Host`. -/
theorem not_upstreamKept_hostRequest :
    parse (bytes "GET / HTTP/1.1\r\nhost: evil\r\nAccept: */*\r\n\r\n") =
        .complete (hostRequest (bytes "host")) [] ∧
      ¬ UpstreamKept (hostRequest (bytes "host")) (bytes "origin") := by
  have completed : parse (bytes "GET / HTTP/1.1\r\nhost: evil\r\nAccept: */*\r\n\r\n") =
      .complete (hostRequest (bytes "host")) [] := by decide +kernel
  refine ⟨completed, fun kept => ?_⟩
  exact absurd (spelled_of_upstreamKept (accepted_of_parse completed) (by decide +kernel) kept)
    (by decide +kernel)

end HttpOriginClient

end EdgeCache

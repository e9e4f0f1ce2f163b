import EdgeCache.Framing
import EdgeCache.OriginClient
import EdgeCache.PipelinedParsing

/-!
# Forwarding a request

`HttpOriginClient::fetch` writes the request it was given to the origin.  Read with the
grammar of `RequestParser`, what it writes has the method and the target of the request;
its body depends on a `Content-Length` header that is dropped by its exact spelling and
never written again.

* `IsReadName`, `IsReadValue` — what the parser puts into a header map.
* `parseHead_forwardedBlock` — the header block that is sent is accepted, with the length
  that survives (`survivingLength`).
* `forwardsExactly_iff` — **the request arrives exactly when that length is the length of
  the body.**
-/

namespace EdgeCache

open Scan

/-! ## What the parser puts into a header map -/

/-- A name the parser reads: not empty, no colon, no line feed, and trimming it again
changes nothing or leaves nothing. -/
structure IsReadName (s : ByteString) : Prop where
  nonempty : s ≠ []
  noColon : COLON ∉ s
  noLF : LF ∉ s
  again : trim s = s ∨ (trim s = [] ∧ s.head? = some CR)

/-- A value the parser reads: no line feed, and a blank in front of it goes away. -/
structure IsReadValue (s : ByteString) : Prop where
  noLF : LF ∉ s
  again : trim (SP :: s) = s

theorem isRead_of_headerField {line name value : ByteString} (noLF : LF ∉ line)
    (field : headerField line = some (name, value)) : IsReadName name ∧ IsReadValue value := by
  unfold headerField at field
  split at field
  · cases field
  · rename_i colon found
    simp only at field
    split at field
    · cases field
    · rename_i nonempty
      cases field
      refine ⟨⟨nonempty, fun mem => ?_, fun mem => ?_, trim_trim _⟩, fun mem => ?_,
        trim_cons_SP_trim _⟩
      · exact notMem_take_of_find found (mem_of_mem_trim mem)
      · exact noLF (List.mem_of_mem_take (mem_of_mem_trim mem))
      · exact noLF (List.mem_of_mem_drop (mem_of_mem_trim mem))

/-- The header loop on lines without line feeds. -/
theorem isRead_readHeaders {ls : List ByteString} (noLF : ∀ l ∈ ls, LF ∉ l) {headers : Headers}
    (before : ∀ e ∈ headers.entries, IsReadName e.1 ∧ IsReadValue e.2) :
    ∀ e ∈ (readHeaders ls headers).entries, IsReadName e.1 ∧ IsReadValue e.2 := by
  induction ls generalizing headers with
  | nil => exact before
  | cons line rest ih =>
      have later : ∀ l ∈ rest, LF ∉ l := fun l mem => noLF l (List.mem_cons_of_mem _ mem)
      have plain : LF ∉ popCR line := fun mem =>
        noLF line List.mem_cons_self (mem_of_mem_popCR mem)
      rw [readHeaders]
      split
      · exact before
      · split
        · exact ih later before
        · rename_i name value field
          obtain ⟨isName, isValue⟩ := isRead_of_headerField plain field
          refine ih later fun e mem => ?_
          obtain ⟨names, values⟩ := name_value_of_mem_insertEntry mem
          constructor
          · rcases names with new | ⟨old, there, same⟩
            · exact new ▸ isName
            · exact same ▸ (before old there).1
          · rcases values with new | ⟨old, there, same⟩
            · exact new ▸ isValue
            · exact same ▸ (before old there).2

theorem isWord_of_readWord {s word rest : ByteString}
    (read : readWord isspace s = some (word, rest)) : IsWord word := by
  unfold readWord at read
  simp only at read
  split at read
  · cases read
  · rename_i some_
    cases read
    refine ⟨fun none_ => ?_, fun c mem => by simpa using List.mem_takeWhile_imp mem⟩
    have first := List.head?_dropWhile_not isspace s
    cases shape : s.dropWhile isspace with
    | nil => simp [shape] at some_
    | cons c more =>
        rw [shape] at none_ first
        have solid : isspace c = false := first
        rw [List.takeWhile_cons_of_pos (by simp [solid])] at none_
        cases none_

theorem isWord_of_readRequestLine {line method target version : ByteString}
    (read : readRequestLine line = some (method, target, version)) :
    IsWord method ∧ IsWord target := by
  unfold readRequestLine at read
  simp only [bind, Option.bind_eq_some_iff, Prod.exists] at read
  obtain ⟨m, rest, first, t, rest', second, v, rest'', -, same⟩ := read
  cases same
  exact ⟨isWord_of_readWord first, isWord_of_readWord second⟩

/-- **What the parser accepts** is made of words and read fields, without a
`Transfer-Encoding`, and its length is the one its fields declare. -/
structure HttpRequest.Accepted (r : HttpRequest) : Prop where
  methodWord : IsWord r.method
  targetWord : IsWord r.target
  fields : ∀ e ∈ r.headers.entries, IsReadName e.1 ∧ IsReadValue e.2
  noEncoding : r.headers.contains (bytes "Transfer-Encoding") = false
  declares : ∃ bodyLen, bodyLength r.headers = some bodyLen

theorem accepted_of_parse {buffer rest : ByteString} {r : HttpRequest}
    (completed : parse buffer = .complete r rest) : r.Accepted := by
  obtain ⟨headerEnd, out, bodyLen, -, head, -, rfl, -⟩ := parse_eq_complete_iff.mp completed
  obtain ⟨line, ls, cut, words, fields, plain, length, -⟩ := parseHead_eq_some head
  obtain ⟨methodWord, targetWord⟩ := isWord_of_readRequestLine words
  refine ⟨methodWord, targetWord, ?_, plain, bodyLen, length⟩
  change ∀ e ∈ out.headers.entries, _
  rw [fields]
  refine isRead_readHeaders (fun l mem => ?_) fun e mem => by cases mem
  exact notMem_of_mem_lines (cut ▸ List.mem_cons_of_mem line mem)

/-! ## The block that is sent -/

namespace HttpOriginClient

/-- The fields `fetch` writes, in order. -/
def forwardedFields (r : HttpRequest) (host : ByteString) : List (ByteString × ByteString) :=
  (bytes "Host", host) :: (r.headers.entries.filter fun kv => kv.1 ∉ hopHeaders) ++
    [(bytes "X-Forwarded-Proto", bytes "http"), (bytes "Connection", bytes "close")]

/-- The header block `fetch` writes, up to its terminator. -/
def forwardedBlock (r : HttpRequest) (host : ByteString) : ByteString :=
  joinLines (requestLine r.method r.target (bytes "HTTP/1.0") ::
    (forwardedFields r host).map fieldLine)

variable {r : HttpRequest} {host : ByteString}

/-- How the texts that `fetch` writes fall apart into words, names and values. -/
theorem written_texts :
    bytes " HTTP/1.0" = [SP] ++ bytes "HTTP/1.0" ∧
      bytes "Host: " = bytes "Host" ++ [COLON, SP] ∧
      bytes ": " = [COLON, SP] ∧
      bytes "X-Forwarded-Proto: http" =
        bytes "X-Forwarded-Proto" ++ [COLON, SP] ++ bytes "http" ∧
      bytes "Connection: close" = bytes "Connection" ++ [COLON, SP] ++ bytes "close" := by
  decide +kernel

/-- The version `fetch` writes is one word, and its last line does not end in a carriage
return. -/
theorem written_words : IsWord (bytes "HTTP/1.0") ∧
    (fieldLine (bytes "Connection", bytes "close")).getLast? ≠ some CR :=
  ⟨⟨by decide +kernel, by decide +kernel⟩, by decide +kernel⟩

/-- The names and values `fetch` adds can be read back. -/
theorem written_plain :
    ∀ e ∈ [(bytes "X-Forwarded-Proto", bytes "http"), (bytes "Connection", bytes "close"),
        (bytes "Host", [])],
      e.1 ≠ [] ∧ COLON ∉ e.1 ∧ LF ∉ e.1 ∧ LF ∉ e.2 ∧ trim e.1 = e.1 := by
  decide +kernel

/-- The two names that say how long a body is are none of those `fetch` adds. -/
theorem lengthNames_apart :
    ∀ name ∈ [bytes "Transfer-Encoding", bytes "Content-Length"],
      name.head? ≠ some CR ∧ name ≠ [] ∧ lower name ≠ lower (bytes "Host") ∧
        lower name ≠ lower (bytes "X-Forwarded-Proto") ∧
          lower name ≠ lower (bytes "Connection") := by
  decide +kernel

/-- One spelling of `Content-Length` is a hop-by-hop header. -/
theorem mem_hopHeaders_iff {name : ByteString}
    (same : lower name = lower (bytes "Content-Length")) :
    name ∈ hopHeaders ↔ name = bytes "Content-Length" := by
  have only : bytes "Content-Length" ∈ hopHeaders ∧ ∀ n ∈ hopHeaders,
      lower n = lower (bytes "Content-Length") → n = bytes "Content-Length" := by decide +kernel
  exact ⟨fun mem => only.2 name mem same, fun spelled => spelled ▸ only.1⟩

theorem requestBytes_eq :
    requestBytes r host = forwardedBlock r host ++ (headerTerminator ++ r.body) := by
  have join := joinLines_flatMap (requestLine r.method r.target (bytes "HTTP/1.0"))
    ((forwardedFields r host).map fieldLine) ([CR, LF] ++ r.body)
  have front : requestBytes r host = requestLine r.method r.target (bytes "HTTP/1.0") ++
      ([CR, LF] ++ ((((forwardedFields r host).map fieldLine).flatMap fun l => l ++ [CR, LF]) ++
        ([CR, LF] ++ r.body))) := by
    have space : bytes " " = [SP] := by decide
    obtain ⟨version, hostName, colon, proto, close⟩ := written_texts
    simp only [requestBytes, requestLine, forwardedFields, fieldLine, List.flatMap_def, crlf,
      space, version, hostName, colon, proto, close, List.map_cons, List.map_append, List.map_nil,
      List.map_map, List.flatten_cons, List.flatten_append, List.flatten_nil, List.append_assoc,
      List.cons_append, List.nil_append, Function.comp_def, List.append_nil]
  rw [front, join, forwardedBlock]
  rfl

/-- What is needed of the fields to read them back. -/
theorem forwardedFields_plain (accepted : r.Accepted) (hostPlain : LF ∉ host) :
    ∀ e ∈ forwardedFields r host, e.1 ≠ [] ∧ COLON ∉ e.1 ∧ LF ∉ e.1 ∧ LF ∉ e.2 ∧
      (trim e.1 = e.1 ∨ (trim e.1 = [] ∧ e.1.head? = some CR)) := by
  intro e mem
  simp only [forwardedFields, List.cons_append, List.mem_cons, List.mem_append, List.mem_filter,
    List.not_mem_nil, or_false] at mem
  obtain ⟨proto, close, own⟩ : _ ∧ _ ∧ _ := by simpa only [List.forall_mem_cons,
    List.not_mem_nil, false_imp_iff, implies_true, and_true] using written_plain
  rcases mem with rfl | ⟨field, -⟩ | rfl | rfl
  · obtain ⟨nonempty, noColon, noLF, -, again⟩ := own
    exact ⟨nonempty, noColon, noLF, hostPlain, Or.inl again⟩
  · obtain ⟨name, value⟩ := accepted.fields e field
    exact ⟨name.nonempty, name.noColon, name.noLF, value.noLF, name.again⟩
  · obtain ⟨nonempty, noColon, noLF, bare, again⟩ := proto
    exact ⟨nonempty, noColon, noLF, bare, Or.inl again⟩
  · obtain ⟨nonempty, noColon, noLF, bare, again⟩ := close
    exact ⟨nonempty, noColon, noLF, bare, Or.inl again⟩

theorem forwardedLines_bare (accepted : r.Accepted) (hostPlain : LF ∉ host) :
    ∀ l ∈ requestLine r.method r.target (bytes "HTTP/1.0") ::
      (forwardedFields r host).map fieldLine, l ≠ [] ∧ LF ∉ l := by
  intro l mem
  rcases List.mem_cons.mp mem with rfl | field
  · exact (isLine_requestLine accepted.methodWord accepted.targetWord written_words.1).bare
  · obtain ⟨e, there, rfl⟩ := List.mem_map.mp field
    obtain ⟨-, -, name, value, -⟩ := forwardedFields_plain accepted hostPlain e there
    refine ⟨by simp [fieldLine], ?_⟩
    simp only [fieldLine, List.mem_append, name, value, or_false, false_or]
    decide

/-- The last line is `fetch`'s own `Connection: close`. -/
theorem forwardedLines_last :
    ∀ l ∈ (requestLine r.method r.target (bytes "HTTP/1.0") ::
      (forwardedFields r host).map fieldLine).getLast?, l.getLast? ≠ some CR := by
  rw [forwardedFields, List.map_append, ← List.cons_append]
  intro l mem
  rw [List.getLast?_append_of_ne_nil _ (by simp)] at mem
  cases mem
  exact written_words.2

/-- The header loop reads a forwarded line as its field, or not at all. -/
theorem headerField_forwarded {e : ByteString × ByteString} (noColon : COLON ∉ e.1) :
    headerField (fieldLine e) =
      if trim e.1 = [] then none else some (trim e.1, trim (SP :: e.2)) := by
  simp only [headerField, find_fieldLine noColon, take_fieldLine, drop_fieldLine]

/-- A carriage return has no other case. -/
theorem eq_CR_of_tolower {c : UInt8} (lowered : tolower CR = tolower c) : c = CR := by
  have unique : ∀ c : UInt8, tolower CR = tolower c → c = CR := by decide +kernel
  exact unique c lowered

/-- The values under a name that no carriage return starts. -/
theorem fieldValues_forwarded {name : ByteString} (proper : name.head? ≠ some CR)
    (nonempty : name ≠ []) {es : List (ByteString × ByteString)}
    (plain : ∀ e ∈ es, COLON ∉ e.1 ∧ (trim e.1 = e.1 ∨ (trim e.1 = [] ∧ e.1.head? = some CR))) :
    fieldValues name (es.map fieldLine) =
      (es.filter fun e => lower e.1 = lower name).map fun e => trim (SP :: e.2) := by
  induction es with
  | nil => rfl
  | cons e es ih =>
      obtain ⟨noColon, again⟩ := plain e List.mem_cons_self
      have rest := ih fun e' later => plain e' (List.mem_cons_of_mem _ later)
      have field := headerField_forwarded (e := e) noColon
      rw [List.map_cons]
      rcases again with same | ⟨vanishes, starts⟩
      · by_cases blank : e.1 = []
        · have other : ¬ lower e.1 = lower name := fun eq => by
            rw [blank, lower_nil, eq_comm, lower_eq_nil] at eq
            exact nonempty eq
          rw [same, if_pos blank] at field
          rw [fieldValues_cons_none field, rest, List.filter_cons_of_neg (by simpa using other)]
        · rw [same, if_neg blank] at field
          rw [fieldValues_cons_some field, rest, List.filter_cons]
          by_cases here : lower e.1 = lower name <;> simp [here]
      · have other : ¬ lower e.1 = lower name := fun eq => by
          have first := congrArg List.head? eq
          rw [lower, lower, List.head?_map, List.head?_map, starts] at first
          cases name with
          | nil => exact nonempty rfl
          | cons c more =>
              exact proper (congrArg some (eq_CR_of_tolower (Option.some.inj first)))
        rw [vanishes, if_pos rfl] at field
        rw [fieldValues_cons_none field, rest, List.filter_cons_of_neg (by simpa using other)]

/-- The lines of the block, as the parser sees them. -/
theorem visibleLines_forwardedBlock (accepted : r.Accepted) (hostPlain : LF ∉ host) :
    ∃ line rest, lines LF (forwardedBlock r host) = line :: rest ∧
      popCR line = requestLine r.method r.target (bytes "HTTP/1.0") ∧
      visibleLines (forwardedBlock r host) = (forwardedFields r host).map fieldLine := by
  obtain ⟨line, rest, split, first, others⟩ :=
    lines_joinLines_cons (forwardedLines_bare accepted hostPlain) forwardedLines_last
  refine ⟨line, rest, split, first, ?_⟩
  rw [visibleLines, headerLines, forwardedBlock, split, List.tail_cons, others]

/-! ## The length that survives -/

end HttpOriginClient

/-- The length a `Content-Length` field declares that is not spelled exactly so, else `0`. -/
def HttpRequest.survivingLength (r : HttpRequest) : UInt64 :=
  match r.headers.entries.find? fun e => lower e.1 = lower (bytes "Content-Length") with
  | none => 0
  | some e => if e.1 = bytes "Content-Length" then 0 else (stoull e.2).getD 0

/-- A header map has at most one field of a name. -/
theorem Headers.filter_entries (h : Headers) (name : ByteString) :
    (h.entries.filter fun e => lower e.1 = lower name) =
      (h.entries.find? fun e => lower e.1 = lower name).toList := by
  obtain ⟨es, sorted⟩ := h
  induction es with
  | nil => rfl
  | cons e es ih =>
      obtain ⟨less, sorted'⟩ := List.pairwise_cons.mp sorted
      by_cases here : lower e.1 = lower name
      · have others : es.filter (fun e => lower e.1 = lower name) = [] := by
          refine List.filter_eq_nil_iff.mpr fun e' later same => ?_
          have before := less e' later
          rw [CaseInsensitiveLess, here, ← of_decide_eq_true same] at before
          exact List.lt_irrefl _ before
        rw [List.filter_cons_of_pos (by simpa using here), others,
          List.find?_cons_of_pos (by simpa using here)]
        rfl
      · rw [List.filter_cons_of_neg (by simpa using here),
          List.find?_cons_of_neg (by simpa using here)]
        exact ih sorted'

namespace HttpOriginClient

variable {r : HttpRequest} {host : ByteString}

/-- What is forwarded under a name that `fetch` does not write itself. -/
theorem filter_forwardedFields {name : ByteString}
    (own : lower name ≠ lower (bytes "Host") ∧ lower name ≠ lower (bytes "X-Forwarded-Proto") ∧
      lower name ≠ lower (bytes "Connection")) :
    ((forwardedFields r host).filter fun e => lower e.1 = lower name) =
      (r.headers.entries.find? fun e => lower e.1 = lower name).toList.filter
        fun e => e.1 ∉ hopHeaders := by
  rw [← Headers.filter_entries, List.filter_filter, forwardedFields, List.cons_append,
    List.filter_cons_of_neg (by simpa using own.1.symm), List.filter_append, List.filter_filter]
  simp [own.2.1.symm, own.2.2.symm, Bool.and_comm]

/-- No `Transfer-Encoding` is forwarded. -/
theorem noEncoding_forwarded (accepted : r.Accepted) (hostPlain : LF ∉ host) :
    fieldValues (bytes "Transfer-Encoding") (visibleLines (forwardedBlock r host)) = [] := by
  obtain ⟨-, -, -, -, visible⟩ := visibleLines_forwardedBlock accepted hostPlain
  have absent : (r.headers.entries.find? fun e =>
      lower e.1 = lower (bytes "Transfer-Encoding")) = none := by
    have plain := accepted.noEncoding
    rwa [Headers.contains, Headers.find?, Option.isSome_map, Option.isSome_eq_false_iff,
      Option.isNone_iff_eq_none] at plain
  obtain ⟨proper, nonempty, own⟩ := lengthNames_apart _ List.mem_cons_self
  rw [visible, fieldValues_forwarded proper nonempty fun e mem =>
      ⟨(forwardedFields_plain accepted hostPlain e mem).2.1,
        (forwardedFields_plain accepted hostPlain e mem).2.2.2.2⟩,
    filter_forwardedFields own, absent]
  rfl

/-- The length the forwarded block declares is the one that survives. -/
theorem declaredLength_forwardedBlock (accepted : r.Accepted) (hostPlain : LF ∉ host) :
    declaredLength (forwardedBlock r host) = some r.survivingLength := by
  obtain ⟨-, -, -, -, visible⟩ := visibleLines_forwardedBlock accepted hostPlain
  obtain ⟨bodyLen, declares⟩ := accepted.declares
  obtain ⟨proper, nonempty, own⟩ :=
    lengthNames_apart _ (List.mem_cons_of_mem _ List.mem_cons_self)
  rw [declaredLength, effectiveLength, visible,
    fieldValues_forwarded proper nonempty fun e mem =>
      ⟨(forwardedFields_plain accepted hostPlain e mem).2.1,
        (forwardedFields_plain accepted hostPlain e mem).2.2.2.2⟩,
    filter_forwardedFields own, HttpRequest.survivingLength]
  rw [bodyLength, Headers.find?] at declares
  cases found : r.headers.entries.find? fun e => lower e.1 = lower (bytes "Content-Length") with
  | none => rfl
  | some e =>
      have same : lower e.1 = lower (bytes "Content-Length") := by
        simpa using List.find?_some found
      have dropped := mem_hopHeaders_iff same
      by_cases spelled : e.1 = bytes "Content-Length"
      · have inside := dropped.mpr spelled
        rw [Option.toList_some, List.filter_cons_of_neg (by simp [inside])]
        simp [spelled, lengthValue]
      · have read := (accepted.fields e (List.mem_of_find?_eq_some found)).2.again
        rw [found, Option.map_some, lengthValue] at declares
        simp [dropped, spelled, lengthValue, read, declares]

/-- **The forwarded block is accepted**, with the method and the target of the request and
the length that survives. -/
theorem parseHead_forwardedBlock (accepted : r.Accepted) (hostPlain : LF ∉ host) :
    ∃ out, parseHead (forwardedBlock r host) = some (out, r.survivingLength) ∧
      out.method = r.method ∧ out.target = r.target := by
  obtain ⟨line, rest, split, first, -⟩ := visibleLines_forwardedBlock accepted hostPlain
  have words : readRequestLine (requestLine r.method r.target (bytes "HTTP/1.0")) =
      some (r.method, r.target, bytes "HTTP/1.0") :=
    readRequestLine_requestLine accepted.methodWord accepted.targetWord written_words.1
  have declared := declaredLength_forwardedBlock accepted hostPlain
  have taken : ¬ Refused (forwardedBlock r host) := by
    rintro (noRequest | encoding | ⟨value, effective, throws⟩)
    · have failed := noRequest line (by rw [split]; rfl)
      rw [first, words] at failed
      cases failed
    · exact encoding (noEncoding_forwarded accepted hostPlain)
    · rw [declaredLength, effective, lengthValue, throws] at declared
      cases declared
  obtain ⟨⟨out, bodyLen⟩, head⟩ :=
    Option.ne_none_iff_exists'.mp (mt parseHead_eq_none_iff.mp taken)
  obtain ⟨line', rest', split', words', -⟩ := parseHead_eq_some head
  cases split.symm.trans split'
  rw [first, words] at words'
  cases declared.symm.trans (declaredLength_of_accepted head)
  simp only [Option.some.injEq, Prod.mk.injEq] at words'
  exact ⟨out, head, words'.1.symm, words'.2.1.symm⟩

end HttpOriginClient

/-! ## Exact forwarding -/

/-- What is sent to the origin for a request is exactly one request, with its method, its
target and its body. -/
def HttpRequest.ForwardsExactly (r : HttpRequest) (host : ByteString) : Prop :=
  ∃ out, parse (HttpOriginClient.requestBytes r host) = .complete out [] ∧
    out.method = r.method ∧ out.target = r.target ∧ out.body = r.body

/-- **Exact forwarding.**  A request the parser accepted reaches the origin as exactly that
request if and only if the length that survives is the length of its body. -/
theorem forwardsExactly_iff {buffer rest : ByteString} {r : HttpRequest} {host : ByteString}
    (completed : parse buffer = .complete r rest) (hostPlain : LF ∉ host)
    (size : (HttpOriginClient.requestBytes r host).length < 2 ^ 64) :
    r.ForwardsExactly host ↔ r.survivingLength.toNat = r.body.length := by
  have accepted := accepted_of_parse completed
  obtain ⟨out, head, method, target⟩ :=
    HttpOriginClient.parseHead_forwardedBlock accepted hostPlain
  have bare := HttpOriginClient.forwardedLines_bare accepted hostPlain
  set block := HttpOriginClient.forwardedBlock r host with block_eq
  have shape : HttpOriginClient.requestBytes r host = block ++ (headerTerminator ++ r.body) :=
    HttpOriginClient.requestBytes_eq
  have found : find (HttpOriginClient.requestBytes r host) headerTerminator =
      some block.length := by
    rw [shape]
    exact find_joinLines bare r.body
  have front : (HttpOriginClient.requestBytes r host).take block.length = block := by
    rw [shape, List.take_left]
  have behind : (HttpOriginClient.requestBytes r host).drop (block.length + 4) = r.body := by
    rw [shape, ← List.drop_drop, List.drop_left]
    rfl
  have length : (HttpOriginClient.requestBytes r host).length =
      block.length + 4 + r.body.length := by
    rw [shape]
    simp [headerTerminator]
    omega
  have bound := r.survivingLength.toNat_lt
  constructor
  · rintro ⟨got, complete, -, -, -⟩
    obtain ⟨headerEnd, out', bodyLen, found', head', fits, -, left⟩ :=
      parse_eq_complete_iff.mp complete
    cases found.symm.trans found'
    rw [front] at head'
    cases head.symm.trans head'
    -- Nothing is left, so the total is the whole length; the sum cannot have wrapped.
    have used := List.drop_eq_nil_iff.mp left.symm
    rw [totalLength_toNat] at fits used
    omega
  · intro same
    have total : (totalLength block.length r.survivingLength).toNat =
        (HttpOriginClient.requestBytes r host).length := by
      rw [totalLength_of_lt (by omega), same, length]
    refine ⟨_, parse_eq_complete_iff.mpr ⟨block.length, out, r.survivingLength, found,
      by rw [front]; exact head, by omega, rfl, ?_⟩, method, target, ?_⟩
    · rw [total, List.drop_length]
    · change (List.drop _ _).take _ = _
      rw [behind, same, List.take_length]

/-- A `POST` of five bytes whose length is given under the spelling `name`. -/
def fivePost (name : ByteString) : HttpRequest where
  method := bytes "POST"
  target := bytes "/"
  version := bytes "HTTP/1.1"
  headers := Headers.ofList [(name, bytes "5")]
  body := bytes "hello"
  path := bytes "/"
  query := []

/-- In lower case the length is forwarded, and with it the request. -/
theorem forwardsExactly_fivePost : (fivePost (bytes "content-length")).ForwardsExactly (bytes "h") :=
  (forwardsExactly_iff
    (show parse (bytes "POST / HTTP/1.1\r\ncontent-length: 5\r\n\r\nhello") =
      .complete (fivePost (bytes "content-length")) [] by decide +kernel)
    (by decide +kernel) (by decide +kernel)).mpr (by decide +kernel)

/-- In its usual spelling it is dropped: the origin reads a request without a body, and what
was the body stays in its buffer. -/
theorem not_forwardsExactly_fivePost :
    parse (bytes "POST / HTTP/1.1\r\nContent-Length: 5\r\n\r\nhello") =
        .complete (fivePost (bytes "Content-Length")) [] ∧
      ¬ (fivePost (bytes "Content-Length")).ForwardsExactly (bytes "h") := by
  refine ⟨by decide +kernel, ?_⟩
  rintro ⟨out, complete, -⟩
  have leftover : ∀ out rest,
      parse (HttpOriginClient.requestBytes (fivePost (bytes "Content-Length")) (bytes "h")) =
        .complete out rest → rest = bytes "hello" := by
    have result : parse
        (HttpOriginClient.requestBytes (fivePost (bytes "Content-Length")) (bytes "h")) =
          .complete
            { method := bytes "POST", target := bytes "/", version := bytes "HTTP/1.0"
              headers := Headers.ofList [(bytes "Host", bytes "h"),
                (bytes "X-Forwarded-Proto", bytes "http"), (bytes "Connection", bytes "close")]
              body := [], path := bytes "/", query := [] } (bytes "hello") := by
      decide +kernel
    intro out rest complete
    cases result.symm.trans complete
    rfl
  exact absurd (leftover out [] complete) (by decide)

end EdgeCache

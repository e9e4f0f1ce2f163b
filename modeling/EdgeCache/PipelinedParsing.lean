import EdgeCache.RequestParser

/-!
# Parsing undoes rendering

A connection delivers a stream of requests in arbitrary pieces.  `Session` feeds
the pieces to the parser and drains it after each one, as
`EventLoop::onReadable` does over its successive wake-ups.  This module proves
that a stream of requests in canonical wire form comes back as exactly those
requests, however it is cut.

`CanonicalRequest` carries the canonical form as fields.  The proof has two
halves.

* **One request.**  `find_block` locates the first header terminator (it is the
  rendered one, whatever the body contains), `lines_block` recovers the lines and
  `parseHead_block` the fields; so `parse` completes the request and leaves what
  follows (`parse_wire_append`), and asks for more on any proper prefix
  (`parse_proper_prefix`).
* **The stream.**  `drain_stream` drains a prefix of the stream and leaves a
  proper prefix of the next request; `session_stream` is the induction over the
  pieces.
-/

namespace EdgeCache

open Scan

/-! ## Canonical requests -/

/-- A word of the request line: not empty and free of white space. -/
def IsWord (s : ByteString) : Prop := s ≠ [] ∧ ∀ c ∈ s, isspace c = false

/-- A field name the parser reads back: not empty, trimmed, no colon and no line
break. -/
structure IsFieldName (s : ByteString) : Prop where
  nonempty : s ≠ []
  trimmed : Trimmed s
  noColon : COLON ∉ s
  noCR : CR ∉ s
  noLF : LF ∉ s

/-- A field value the parser reads back: trimmed, no line break. -/
structure IsFieldValue (s : ByteString) : Prop where
  trimmed : Trimmed s
  noCR : CR ∉ s
  noLF : LF ∉ s

/-- One header line, without its line end. -/
def fieldLine (e : ByteString × ByteString) : ByteString := e.1 ++ [COLON, SP] ++ e.2

/-- The request line, without its line end. -/
def requestLine (method target version : ByteString) : ByteString :=
  method ++ [SP] ++ target ++ [SP] ++ version

/-- Lines joined by `"\r\n"`, with none after the last. -/
def joinLines : List ByteString → ByteString
  | [] => []
  | [line] => line
  | line :: next :: rest => line ++ CR :: LF :: joinLines (next :: rest)

/-- **A request in canonical wire form.** -/
structure CanonicalRequest where
  method : ByteString
  target : ByteString
  version : ByteString
  headers : List (ByteString × ByteString)
  body : ByteString
  methodWord : IsWord method
  targetWord : IsWord target
  versionWord : IsWord version
  names : ∀ e ∈ headers, IsFieldName e.1
  values : ∀ e ∈ headers, IsFieldValue e.2
  distinct : headers.Pairwise fun a b => lower a.1 ≠ lower b.1
  noEncoding : ∀ e ∈ headers, lower e.1 ≠ lower (bytes "Transfer-Encoding")
  length_eq : ∀ e ∈ headers, lower e.1 = lower (bytes "Content-Length") →
    e.2 = toString body.length
  framed : body ≠ [] → ∃ e ∈ headers, lower e.1 = lower (bytes "Content-Length")
  blockSize :
    (joinLines (requestLine method target version :: headers.map fieldLine)).length + 4 ≤ 64 * 1024
  /-- A `std::string` is shorter than `2^63` bytes. -/
  bodySize : body.length < 2 ^ 63

namespace CanonicalRequest

/-- The header block, up to its terminator. -/
def block (r : CanonicalRequest) : ByteString :=
  joinLines (requestLine r.method r.target r.version :: r.headers.map fieldLine)

/-- The bytes of the request on the wire. -/
def wire (r : CanonicalRequest) : ByteString :=
  requestLine r.method r.target r.version ++ [CR, LF] ++
    (r.headers.flatMap fun e => fieldLine e ++ [CR, LF]) ++ [CR, LF] ++ r.body

/-- The request it stands for. -/
def request (r : CanonicalRequest) : HttpRequest where
  method := r.method
  target := r.target
  version := r.version
  headers := Headers.ofList r.headers
  body := r.body
  path := r.target.takeWhile fun c => c ≠ 63
  query := (r.target.dropWhile fun c => c ≠ 63).tail

end CanonicalRequest

/-! ## Finding the header terminator -/

/-- A header line: not empty and without line breaks. -/
structure IsLine (line : ByteString) : Prop where
  nonempty : line ≠ []
  noCR : CR ∉ line
  noLF : LF ∉ line

theorem IsLine.bare {line : ByteString} (isLine : IsLine line) : line ≠ [] ∧ LF ∉ line :=
  ⟨isLine.nonempty, isLine.noLF⟩

/-- Behind a position in a line comes no line feed: the line has none, and it ends with a
carriage return. -/
theorem getElem?_drop_ne_LF {line : ByteString} (noLF : LF ∉ line) {j : ℕ}
    (inside : j < line.length) (rest : ByteString) :
    ((line ++ CR :: rest).drop j)[1]? ≠ some LF := by
  rw [List.getElem?_drop]
  rcases Nat.lt_or_ge (j + 1) line.length with within | edge
  · rw [List.getElem?_append_left within, List.getElem?_eq_getElem within]
    exact fun here => noLF (Option.some.inj here ▸ List.getElem_mem within)
  · rw [List.getElem?_append_right edge, show j + 1 - line.length = 0 by omega]
    exact fun here => absurd (Option.some.inj here) (by decide)

theorem not_terminator_prefix {line : ByteString} (noLF : LF ∉ line) {j : ℕ}
    (inside : j < line.length) (rest : ByteString) :
    ¬ headerTerminator <+: (line ++ CR :: rest).drop j := by
  rintro ⟨tail, here⟩
  exact getElem?_drop_ne_LF noLF inside rest (here ▸ rfl)

/-- Joined lines start with their first line and its end. -/
theorem joinLines_cons_append (line : ByteString) (more : List ByteString) (rest : ByteString) :
    ∃ tail, joinLines (line :: more) ++ (headerTerminator ++ rest) = line ++ CR :: tail := by
  cases more with
  | nil => exact ⟨_, rfl⟩
  | cons next more => exact ⟨_, List.append_assoc _ _ _⟩

/-- No terminator starts inside joined lines: a line feed ends its line, and no next line is
empty. -/
theorem not_terminator_joinLines {ls : List ByteString}
    (areLines : ∀ l ∈ ls, l ≠ [] ∧ LF ∉ l) {j : ℕ} (inside : j < (joinLines ls).length)
    (rest : ByteString) :
    ¬ headerTerminator <+: (joinLines ls ++ (headerTerminator ++ rest)).drop j := by
  induction ls generalizing j with
  | nil => simp [joinLines] at inside
  | cons line more ih =>
      obtain ⟨-, noLF⟩ := areLines line (by simp)
      cases more with
      | nil => exact not_terminator_prefix noLF inside _
      | cons next more =>
          rw [joinLines, List.append_assoc]
          rcases lt_trichotomy j line.length with short | rfl | long
          · exact not_terminator_prefix noLF short _
          · -- At the line end itself: the next line would have to be empty.
            rintro ⟨tail, here⟩
            obtain ⟨nonempty, nextNoLF⟩ := areLines next (by simp)
            obtain ⟨back, eq⟩ := joinLines_cons_append next more rest
            rw [List.drop_left, List.cons_append, List.cons_append, eq] at here
            refine getElem?_drop_ne_LF nextNoLF (List.length_pos_iff.mpr nonempty) back ?_
            rw [List.drop_zero, ← (List.cons.inj (List.cons.inj here).2).2]
            rfl
          · obtain ⟨k, rfl⟩ : ∃ k, j = line.length + (k + 1) := ⟨j - line.length - 1, by omega⟩
            rw [List.drop_append, List.drop_eq_nil_of_le (by omega), List.nil_append,
              Nat.add_sub_cancel_left, List.cons_append, List.drop_succ_cons]
            cases k with
            | zero =>
                intro here
                rw [headerTerminator, List.drop_zero, List.cons_append,
                  List.cons_prefix_cons] at here
                exact absurd here.1 (by decide)
            | succ k =>
                rw [List.cons_append, List.drop_succ_cons]
                refine ih (fun l mem => areLines l (by simp [mem])) ?_
                simp only [joinLines, List.length_append, List.length_cons] at inside
                omega

/-- **The first terminator is the rendered one**, whatever follows it. -/
theorem find_joinLines {ls : List ByteString} (areLines : ∀ l ∈ ls, l ≠ [] ∧ LF ∉ l)
    (rest : ByteString) :
    find (joinLines ls ++ (headerTerminator ++ rest)) headerTerminator =
      some (joinLines ls).length :=
  find_eq_some_iff.mpr ⟨by simp, by simp,
    fun _ inside => not_terminator_joinLines areLines inside _⟩

/-- Cutting joined lines gives them back, when the last one does not end with a carriage
return. -/
theorem lines_joinLines {ls : List ByteString} (areLines : ∀ l ∈ ls, l ≠ [] ∧ LF ∉ l)
    (last : ∀ l ∈ ls.getLast?, l.getLast? ≠ some CR) :
    (lines LF (joinLines ls)).map popCR = ls := by
  induction ls with
  | nil => rfl
  | cons line more ih =>
      obtain ⟨nonempty, noLF⟩ := areLines line (by simp)
      cases more with
      | nil =>
          rw [joinLines, lines_of_notMem nonempty noLF, List.map_singleton, popCR,
            if_neg (last line (by simp))]
      | cons next more =>
          have split : line ++ CR :: LF :: joinLines (next :: more) =
              (line ++ [CR]) ++ LF :: joinLines (next :: more) := by simp
          have absent : LF ∉ line ++ [CR] := by
            rw [List.mem_append, not_or]
            exact ⟨noLF, by decide⟩
          rw [joinLines, split, lines_append_delim absent, List.map_cons, popCR_append,
            ih (fun l mem => areLines l (by simp [mem])) fun l mem => last l (by simpa using mem)]

/-- The lines behind the first one come back too, and none of them is empty. -/
theorem lines_joinLines_cons {line : ByteString} {ls : List ByteString}
    (areLines : ∀ l ∈ line :: ls, l ≠ [] ∧ LF ∉ l)
    (last : ∀ l ∈ (line :: ls).getLast?, l.getLast? ≠ some CR) :
    ∃ first rest, lines LF (joinLines (line :: ls)) = first :: rest ∧ popCR first = line ∧
      (rest.map popCR).takeWhile (fun l => l ≠ []) = ls := by
  obtain ⟨first, rest, split, popped, others⟩ :=
    List.map_eq_cons_iff.mp (lines_joinLines areLines last)
  refine ⟨first, rest, split, popped, ?_⟩
  rw [others, List.takeWhile_eq_self_iff]
  exact fun l mem => decide_eq_true (areLines l (List.mem_cons_of_mem _ mem)).1

/-- Lines that all have their line end are the joined lines and a line end. -/
theorem joinLines_flatMap (line : ByteString) (ls : List ByteString) (rest : ByteString) :
    line ++ ([CR, LF] ++ ((ls.flatMap fun l => l ++ [CR, LF]) ++ rest)) =
      joinLines (line :: ls) ++ ([CR, LF] ++ rest) := by
  induction ls generalizing line with
  | nil => rfl
  | cons next ls ih =>
      have := ih next
      simp only [List.flatMap_cons, List.append_assoc, joinLines, List.cons_append,
        List.nil_append] at this ⊢
      rw [this]

/-! ## Reading the fields back -/

/-- The first colon of a rendered field line is the one behind the name. -/
theorem find_fieldLine {e : ByteString × ByteString} (noColon : COLON ∉ e.1) :
    find (fieldLine e) [COLON] = some e.1.length := by
  rw [fieldLine, List.append_assoc]
  exact find_singleton_append noColon _

theorem take_fieldLine (e : ByteString × ByteString) : (fieldLine e).take e.1.length = e.1 := by
  rw [fieldLine, List.append_assoc, List.take_left]

theorem drop_fieldLine (e : ByteString × ByteString) :
    (fieldLine e).drop (e.1.length + 1) = SP :: e.2 := by
  rw [fieldLine, List.append_assoc, ← List.drop_drop, List.drop_left]
  rfl

/-- Reading a rendered field line. -/
theorem headerField_fieldLine {e : ByteString × ByteString} (name : IsFieldName e.1)
    (value : IsFieldValue e.2) : headerField (fieldLine e) = some e := by
  have trimmed : trim (SP :: e.2) = e.2 :=
    trim_append_of_trimmed [SP] (by simp [isBlank]) value.trimmed
  simp only [headerField, find_fieldLine name.noColon, take_fieldLine, drop_fieldLine,
    trim_of_trimmed name.trimmed, name.nonempty, if_false, trimmed]

theorem isLine_fieldLine {e : ByteString × ByteString} (name : IsFieldName e.1)
    (value : IsFieldValue e.2) : IsLine (fieldLine e) where
  nonempty := by simp [fieldLine]
  noCR := by simp [fieldLine, name.noCR, value.noCR]; decide
  noLF := by simp [fieldLine, name.noLF, value.noLF]; decide

/-- The header loop on rendered field lines makes their assignments in order. -/
theorem readHeaders_fieldLines {ls : List ByteString} {es : List (ByteString × ByteString)}
    (rendered : ls.map popCR = es.map fieldLine) (names : ∀ e ∈ es, IsFieldName e.1)
    (values : ∀ e ∈ es, IsFieldValue e.2) (headers : Headers) :
    readHeaders ls headers = es.foldl (fun h e => h.insert e.1 e.2) headers := by
  induction es generalizing ls headers with
  | nil =>
      rw [List.map_nil, List.map_eq_nil_iff] at rendered
      subst rendered
      rfl
  | cons e es ih =>
      obtain ⟨line, rest, rfl, same, others⟩ := List.map_eq_cons_iff.mp rendered
      have name := names e (by simp)
      have value := values e (by simp)
      have field : headerField (popCR line) = some (e.1, e.2) := by
        rw [same]; exact headerField_fieldLine name value
      rw [readHeaders, if_neg (by rw [same]; exact (isLine_fieldLine name value).nonempty), field]
      exact ih others (fun e mem => names e (by simp [mem])) (fun e mem => values e (by simp [mem]))
        _

/-- A name no assignment mentions is looked up as before. -/
theorem find?_foldl_insert_of_ne {es : List (ByteString × ByteString)} {name : ByteString}
    (others : ∀ e ∈ es, lower e.1 ≠ lower name) (headers : Headers) :
    (es.foldl (fun h e => h.insert e.1 e.2) headers).find? name = headers.find? name := by
  induction es generalizing headers with
  | nil => rfl
  | cons e es ih =>
      rw [List.foldl_cons, ih fun e mem => others e (by simp [mem]),
        Headers.find?_insert_of_ne _ _ (others e (by simp))]

/-- **The map built from distinct names is the list of pairs**, looked up without
case. -/
theorem find?_foldl_insert_of_mem {es : List (ByteString × ByteString)}
    (distinct : es.Pairwise fun a b => lower a.1 ≠ lower b.1) {e : ByteString × ByteString}
    (mem : e ∈ es) {name : ByteString} (same : lower e.1 = lower name) (headers : Headers) :
    (es.foldl (fun h e => h.insert e.1 e.2) headers).find? name = some e.2 := by
  induction es generalizing headers with
  | nil => cases mem
  | cons first es ih =>
      obtain ⟨firstOther, distinct'⟩ := List.pairwise_cons.mp distinct
      rw [List.foldl_cons]
      rcases List.mem_cons.mp mem with rfl | later
      · rw [find?_foldl_insert_of_ne (fun e' mem' => same ▸ (firstOther e' mem').symm),
          Headers.find?_insert, if_pos same]
      · exact ih distinct' later _

/-- Reading a rendered request line. -/
theorem readRequestLine_requestLine {method target version : ByteString} (m : IsWord method)
    (t : IsWord target) (v : IsWord version) :
    readRequestLine (requestLine method target version) = some (method, target, version) := by
  have first : readWord isspace (requestLine method target version) =
      some (method, SP :: (target ++ SP :: version)) := by
    rw [requestLine, List.append_assoc, List.append_assoc, List.append_assoc]
    exact readWord_append m.1 m.2 (by simp [isspace])
  have second : readWord isspace (SP :: (target ++ SP :: version)) =
      some (target, SP :: version) := by
    rw [readWord_cons_sep (by decide)]
    exact readWord_append t.1 t.2 (by simp [isspace])
  have third : readWord isspace (SP :: version) = some (version, []) := by
    rw [readWord_cons_sep (by decide)]
    have last : readWord isspace (version ++ []) = some (version, []) :=
      readWord_append v.1 v.2 (by simp)
    rwa [List.append_nil] at last
  simp [readRequestLine, first, second, third]

theorem notMem_of_isWord {s : ByteString} (word : IsWord s) {c : UInt8} (blank : isspace c = true) :
    c ∉ s := fun mem => by rw [word.2 c mem] at blank; cases blank

theorem isLine_requestLine {method target version : ByteString} (m : IsWord method)
    (t : IsWord target) (v : IsWord version) : IsLine (requestLine method target version) where
  nonempty := by simp [requestLine]
  noCR := by
    simp [requestLine, notMem_of_isWord m (c := CR) (by decide),
      notMem_of_isWord t (c := CR) (by decide), notMem_of_isWord v (c := CR) (by decide)]
    decide
  noLF := by
    simp [requestLine, notMem_of_isWord m (c := LF) (by decide),
      notMem_of_isWord t (c := LF) (by decide), notMem_of_isWord v (c := LF) (by decide)]
    decide

theorem splitTarget_of_notMem {path : ByteString} (absent : 63 ∉ path) :
    splitTarget path = (path, []) := by
  rw [splitTarget, find_singleton_eq_none_iff.mpr absent]

theorem splitTarget_append {path : ByteString} (absent : 63 ∉ path) (query : ByteString) :
    splitTarget (path ++ 63 :: query) = (path, query) := by
  have back : (path ++ 63 :: query).drop (path.length + 1) = query := by
    rw [← List.drop_drop, List.drop_left]
    rfl
  rw [splitTarget, find_singleton_append absent]
  simp only [List.take_left, back]

/-- `splitTarget` cuts at the first `'?'`. -/
theorem splitTarget_eq (target : ByteString) :
    splitTarget target =
      (target.takeWhile (fun c => c ≠ 63), (target.dropWhile fun c => c ≠ 63).tail) := by
  have absent : 63 ∉ target.takeWhile fun c => c ≠ 63 := fun mem => by
    simpa using List.mem_takeWhile_imp mem
  have whole := List.takeWhile_append_dropWhile (p := fun c : UInt8 => c ≠ 63) (l := target)
  cases rest : target.dropWhile fun c => c ≠ 63 with
  | nil =>
      rw [rest, List.append_nil] at whole
      rw [List.tail_nil, ← splitTarget_of_notMem absent, whole]
  | cons c tail =>
      have mark : c = 63 := by
        have := List.head?_dropWhile_not (fun c : UInt8 => c ≠ 63) target
        rw [rest] at this
        simpa using this
      rw [rest, mark] at whole
      rw [List.tail_cons, ← splitTarget_append absent, whole]

/-! ## One request -/

namespace CanonicalRequest

variable (r : CanonicalRequest)

theorem isLine_of_mem :
    ∀ l ∈ requestLine r.method r.target r.version :: r.headers.map fieldLine, IsLine l := by
  intro l mem
  rcases List.mem_cons.mp mem with rfl | field
  · exact isLine_requestLine r.methodWord r.targetWord r.versionWord
  · obtain ⟨e, here, rfl⟩ := List.mem_map.mp field
    exact isLine_fieldLine (r.names e here) (r.values e here)

/-- The wire form is the joined block, its terminator and the body. -/
theorem wire_eq : r.wire = r.block ++ (headerTerminator ++ r.body) := by
  have join := joinLines_flatMap (requestLine r.method r.target r.version)
    (r.headers.map fieldLine) ([CR, LF] ++ r.body)
  rw [List.flatMap_map] at join
  simp only [wire, block, headerTerminator, List.append_assoc, List.cons_append,
    List.nil_append] at join ⊢
  exact join

theorem length_wire : r.wire.length = r.block.length + 4 + r.body.length := by
  rw [wire_eq]
  simp [headerTerminator]
  omega

/-- The header loop builds the map of the request's fields. -/
theorem bodyLength_headers :
    bodyLength (Headers.ofList r.headers) = some (UInt64.ofNat r.body.length) := by
  by_cases shown : ∃ e ∈ r.headers, lower e.1 = lower (bytes "Content-Length")
  · obtain ⟨e, mem, same⟩ := shown
    have found : (Headers.ofList r.headers).find? (bytes "Content-Length") =
        some (toString r.body.length) := by
      rw [← r.length_eq e mem same]
      exact find?_foldl_insert_of_mem r.distinct mem same _
    have small := r.bodySize
    rw [bodyLength, found]
    exact stoull_toString (by omega)
  · have absent : (Headers.ofList r.headers).find? (bytes "Content-Length") = none :=
      find?_foldl_insert_of_ne (fun e mem same => shown ⟨e, mem, same⟩) _
    have bodyless : r.body = [] := by
      by_contra nonempty
      exact shown (r.framed nonempty)
    rw [bodyLength, absent, bodyless]
    rfl

/-- **The header block is accepted**, with the request's fields and the length of
its body. -/
theorem parseHead_block :
    parseHead r.block = some ({ r.request with body := [] }, UInt64.ofNat r.body.length) := by
  have cut := lines_joinLines (fun l mem => (r.isLine_of_mem l mem).bare) fun l mem last =>
    (r.isLine_of_mem l (List.mem_of_mem_getLast? mem)).noCR (List.mem_of_getLast? last)
  obtain ⟨line, rest, split, first, others⟩ := List.map_eq_cons_iff.mp cut
  have noEncoding : (Headers.ofList r.headers).contains (bytes "Transfer-Encoding") = false := by
    rw [Headers.contains, Headers.ofList, find?_foldl_insert_of_ne r.noEncoding]
    rfl
  have fields : readHeaders rest Headers.empty = Headers.ofList r.headers :=
    readHeaders_fieldLines others r.names r.values _
  have words := readRequestLine_requestLine r.methodWord r.targetWord r.versionWord
  rw [block, parseHead, split]
  simp only [first, words, fields, noEncoding, r.bodyLength_headers, splitTarget_eq,
    Bool.false_eq_true, if_false, Option.map_some]
  rfl

theorem find_block (rest : ByteString) :
    find (r.block ++ (headerTerminator ++ rest)) headerTerminator = some r.block.length :=
  find_joinLines (fun l mem => (r.isLine_of_mem l mem).bare) rest

theorem totalLength_block :
    (totalLength r.block.length (UInt64.ofNat r.body.length)).toNat = r.wire.length := by
  have small := r.bodySize
  have short : r.block.length + 4 ≤ 64 * 1024 := r.blockSize
  have same : (UInt64.ofNat r.body.length).toNat = r.body.length :=
    (UInt64.toNat_ofNat' ..).trans (Nat.mod_eq_of_lt (by omega))
  rw [totalLength_of_lt (by omega), same, length_wire]

/-- **A whole request is completed** and what follows it stays in the buffer. -/
theorem parse_wire_append (rest : ByteString) :
    parse (r.wire ++ rest) = .complete r.request rest := by
  have small := r.bodySize
  have shape : r.wire ++ rest = r.block ++ (headerTerminator ++ (r.body ++ rest)) := by
    rw [wire_eq, List.append_assoc, List.append_assoc]
  refine parse_eq_complete_iff.mpr ⟨r.block.length, { r.request with body := [] },
    UInt64.ofNat r.body.length, ?_, ?_, ?_, ?_, ?_⟩
  · rw [shape]; exact r.find_block _
  · rw [shape, List.take_left]; exact r.parseHead_block
  · rw [totalLength_block, List.length_append]; omega
  · have same : (UInt64.ofNat r.body.length).toNat = r.body.length :=
      (UInt64.toNat_ofNat' ..).trans (Nat.mod_eq_of_lt (by omega))
    have body : ((r.wire ++ rest).drop (r.block.length + 4)).take r.body.length = r.body := by
      rw [shape, ← List.drop_drop, List.drop_left]
      exact List.take_left
    rw [same, body]
    rfl
  · rw [totalLength_block, List.drop_left]

/-- **A proper prefix asks for more**: without the whole terminator it is short
enough, and with it the declared body is missing. -/
theorem parse_proper_prefix {buffer : ByteString} (cut : buffer <+: r.wire)
    (proper : buffer.length < r.wire.length) : parse buffer = .needMore := by
  have whole : find r.wire headerTerminator = some r.block.length := by
    rw [wire_eq]; exact r.find_block _
  cases found : find buffer headerTerminator with
  | none =>
      have short : buffer.length < r.block.length + 4 := by
        by_contra long
        obtain ⟨rest, eq⟩ := cut
        rw [← eq] at whole
        rw [find_of_append whole (by simpa [headerTerminator] using long)] at found
        cases found
      have bound : r.block.length + 4 ≤ 64 * 1024 := r.blockSize
      rw [parse_of_find_none found, if_neg (by omega)]
  | some h =>
      cases find_of_part cut found whole
      have long := headerEnd_add_four_le found
      have front : buffer.take r.block.length = r.block := by
        obtain ⟨rest, eq⟩ := cut
        rw [show buffer.take r.block.length = (buffer ++ rest).take r.block.length from
          (List.take_append_of_le_length (by omega)).symm, eq, wire_eq, List.take_left]
      have head := r.parseHead_block
      rw [← front] at head
      rw [parse_of_accepted found head, if_pos (by rw [totalLength_block]; exact proper)]

end CanonicalRequest

/-! ## The stream -/

/-- **A connection read piece by piece**: the parser is drained after each feed,
and reading stops at the first `Error`. -/
inductive Session : ByteString → List ByteString → List HttpRequest → Ending → Prop where
  | done (buffer : ByteString) : Session buffer [] [] (.needMore buffer)
  | feed {buffer chunk rest : ByteString} {chunks : List ByteString}
      {requests further : List HttpRequest} {ending : Ending}
      (drained : Drain (buffer ++ chunk) requests (.needMore rest))
      (following : Session rest chunks further ending) :
      Session buffer (chunk :: chunks) (requests ++ further) ending
  | stop {buffer chunk : ByteString} {chunks : List ByteString} {requests : List HttpRequest}
      (failed : Drain (buffer ++ chunk) requests .error) :
      Session buffer (chunk :: chunks) requests .error

/-- A session is determined by what is fed. -/
theorem Session.unique {buffer : ByteString} {chunks : List ByteString}
    {requests requests' : List HttpRequest} {ending ending' : Ending}
    (one : Session buffer chunks requests ending)
    (two : Session buffer chunks requests' ending') : requests = requests' ∧ ending = ending' := by
  induction one generalizing requests' ending' with
  | done => cases two; exact ⟨rfl, rfl⟩
  | feed drained _ ih =>
      cases two with
      | feed drained' following' =>
          obtain ⟨rfl, same⟩ := drained.unique drained'
          cases same
          obtain ⟨rfl, rfl⟩ := ih following'
          exact ⟨rfl, rfl⟩
      | stop failed => cases (drained.unique failed).2
  | stop failed =>
      cases two with
      | feed drained' => cases (failed.unique drained').2
      | stop failed' => exact failed.unique failed'

/-- The bytes of a list of requests. -/
def stream (rs : List CanonicalRequest) : ByteString := (rs.map (·.wire)).flatten

/-- The buffer of a drained parser in the middle of a stream: nothing when the
stream is over, and otherwise a part of the next request only. -/
def Pending (rs : List CanonicalRequest) (buffer : ByteString) : Prop :=
  match rs with
  | [] => buffer = []
  | r :: _ => buffer.length < r.wire.length

/-- **Draining a prefix of the stream** completes the requests it holds whole and
keeps the rest. -/
theorem drain_stream (rs : List CanonicalRequest) {buffer more : ByteString}
    (cut : buffer ++ more = stream rs) :
    ∃ front back rest, rs = front ++ back ∧
      Drain buffer (front.map (·.request)) (.needMore rest) ∧ Pending back rest ∧
      rest ++ more = stream back := by
  induction rs generalizing buffer with
  | nil =>
      have empty : buffer = [] := (List.append_eq_nil_iff.mp cut).1
      subst empty
      exact ⟨[], [], [], rfl, .needMore rfl, rfl, cut⟩
  | cons r rs ih =>
      have shape : buffer ++ more = r.wire ++ stream rs := cut
      by_cases whole : r.wire.length ≤ buffer.length
      · obtain ⟨tail, rfl⟩ := List.prefix_of_prefix_length_le (List.prefix_append r.wire (stream rs))
          (shape ▸ List.prefix_append buffer more) whole
        rw [List.append_assoc, List.append_cancel_left_eq] at shape
        obtain ⟨front, back, rest, rfl, drain, pending, left⟩ := ih shape
        exact ⟨r :: front, back, rest, rfl, .complete (r.parse_wire_append tail) drain, pending,
          left⟩
      · have proper : buffer.length < r.wire.length := by omega
        have inside : buffer <+: r.wire :=
          List.prefix_of_prefix_length_le (shape ▸ List.prefix_append buffer more)
            (List.prefix_append r.wire (stream rs)) (by omega)
        exact ⟨[], r :: rs, buffer, rfl, .needMore (r.parse_proper_prefix inside proper), proper,
          cut⟩

/-- The induction over the pieces. -/
theorem session_stream (chunks : List ByteString) (rs : List CanonicalRequest)
    {buffer : ByteString} (pending : Pending rs buffer)
    (cut : buffer ++ chunks.flatten = stream rs) :
    Session buffer chunks (rs.map (·.request)) (.needMore []) := by
  induction chunks generalizing rs buffer with
  | nil =>
      rw [List.flatten_nil, List.append_nil] at cut
      cases rs with
      | nil => cases pending; exact .done []
      | cons r rs =>
          rw [cut, Pending, stream, List.map_cons, List.flatten_cons, List.length_append] at pending
          omega
  | cons chunk chunks ih =>
      rw [List.flatten_cons, ← List.append_assoc] at cut
      obtain ⟨front, back, rest, rfl, drain, pending', left⟩ := drain_stream rs cut
      rw [List.map_append]
      exact .feed drain (ih back pending' left)

/-- **Parsing undoes rendering, under any chunking.**  However the bytes of a
list of canonical requests are cut into feeds, the session completes exactly
those requests in order, meets no error and leaves the buffer empty. -/
theorem session_canonical_iff (rs : List CanonicalRequest) {chunks : List ByteString}
    (cut : chunks.flatten = (rs.map (·.wire)).flatten) (requests : List HttpRequest)
    (ending : Ending) :
    Session [] chunks requests ending ↔
      requests = rs.map (·.request) ∧ ending = .needMore [] := by
  have start : Pending rs [] := by
    cases rs with
    | nil => rfl
    | cons r rs =>
        rw [Pending, r.length_wire, List.length_nil]
        omega
  have session := session_stream chunks rs start cut
  constructor
  · exact fun other => other.unique session
  · rintro ⟨rfl, rfl⟩
    exact session

/-- A request whose body is itself a header terminator. -/
def terminatorPost : CanonicalRequest where
  method := bytes "POST"
  target := bytes "/a?b=1"
  version := bytes "HTTP/1.1"
  headers := [(bytes "content-length", bytes "4")]
  body := headerTerminator
  methodWord := ⟨by decide +kernel, by decide +kernel⟩
  targetWord := ⟨by decide +kernel, by decide +kernel⟩
  versionWord := ⟨by decide +kernel, by decide +kernel⟩
  names := by
    intro e mem
    rw [List.mem_singleton.mp mem]
    exact ⟨by decide +kernel, by decide +kernel, by decide +kernel, by decide +kernel, by decide +kernel⟩
  values := by
    intro e mem
    rw [List.mem_singleton.mp mem]
    exact ⟨by decide +kernel, by decide +kernel, by decide +kernel⟩
  distinct := List.pairwise_singleton _ _
  noEncoding := by decide +kernel
  length_eq := by decide +kernel
  framed := by decide +kernel
  blockSize := by decide +kernel
  bodySize := by decide +kernel

/-- It comes back when cut inside its header terminator and before its body. -/
theorem session_terminatorPost :
    Session [] [terminatorPost.wire.take 44, (terminatorPost.wire.drop 44).take 2,
        (terminatorPost.wire.drop 44).drop 2] [terminatorPost.request] (.needMore []) :=
  (session_canonical_iff [terminatorPost] (by decide +kernel) _ _).mpr ⟨rfl, rfl⟩

end EdgeCache

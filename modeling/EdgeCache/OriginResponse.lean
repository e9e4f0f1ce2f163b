import EdgeCache.Framing
import EdgeCache.OriginClient

/-!
# The answer of the origin

`parseResponse` reads the whole answer of the origin at once: the status line, the header lines up
to the first empty one, and everything behind the header block as the body.  The names are
taken as they stand, the values without the blanks in front of them.

* `headers_of_parseResponse` — **what the map holds**: the lines of the block, without four names
  in their exact spelling, assigned in order.
* `header_of_parseResponse` — so the last line of a name wins.
-/

namespace EdgeCache

open Scan

namespace HttpOriginClient

/-! ## The status line -/

/-- `ls >> status`, and what `std::getline` reads after it: nothing where the stream has failed.
A number that no `int` holds is cut to the nearest one. -/
def readStatus (s : ByteString) : Int32 × ByteString :=
  let text := s.dropWhile isspace
  let negative := text.head? == some 45
  let unsigned := if text.head? = some 45 ∨ text.head? = some 43 then text.tail else text
  let digits := unsigned.takeWhile isdigit
  let n : ℤ := if negative then -decimalValue digits else decimalValue digits
  if digits = [] then (0, [])
  else if n < -2 ^ 31 then (Int32.minValue, [])
  else if 2 ^ 31 ≤ n then (Int32.maxValue, [])
  else (Int32.ofInt n, unsigned.dropWhile isdigit)

/-- The status and the reason of a status line. -/
def readStatusLine (line : ByteString) : Int32 × ByteString :=
  match readWord isspace line with
  | none => (502, [])
  | some (_, rest) =>
      let (status, reason) := readStatus rest
      let reason := if reason.head? = some SP then reason.tail else reason
      (if status = 0 then 502 else status, popCR reason)

/-! ## The header lines -/

/-- The name and the value of one header line, where it has a colon. -/
def responseField (line : ByteString) : Option (ByteString × ByteString) :=
  (find line [COLON]).map fun colon =>
    (line.take colon, (line.drop (colon + 1)).dropWhile isBlank)

/-- The response headers that are not kept, compared with their case. -/
def droppedHeaders : List ByteString :=
  [bytes "Connection", bytes "Transfer-Encoding", bytes "Content-Length", bytes "Keep-Alive"]

/-- The header loop of `parseResponse`. -/
def readResponseHeaders : List ByteString → Headers → Headers
  | [], headers => headers
  | line :: rest, headers =>
      if popCR line = [] then headers
      else
        match responseField (popCR line) with
        | none => readResponseHeaders rest headers
        | some (name, value) =>
            if name ∈ droppedHeaders then readResponseHeaders rest headers
            else readResponseHeaders rest (headers.insert name value)

/-- `parseResponse`; `none` where it answers `false`. -/
def parseResponse (raw : ByteString) : Option HttpResponse :=
  match find raw headerTerminator with
  | none => none
  | some headerEnd =>
      match lines LF (raw.take headerEnd) with
      | [] => none
      | line :: headerLines =>
          some
            { status := (readStatusLine (popCR line)).1
              reason := (readStatusLine (popCR line)).2
              version := bytes "HTTP/1.1"
              headers := readResponseHeaders headerLines Headers.empty
              body := raw.drop (headerEnd + 4) }

/-! ## What an accepted answer says -/

/-- The header block of an answer. -/
def responseBlock (raw : ByteString) : ByteString :=
  raw.take ((find raw headerTerminator).getD 0)

/-- What stands behind the header block. -/
def responseBody (raw : ByteString) : ByteString :=
  raw.drop ((find raw headerTerminator).getD 0 + 4)

/-- The status line of an answer. -/
def statusLine (raw : ByteString) : ByteString :=
  popCR ((lines LF (responseBlock raw)).head?.getD [])

/-- The header lines of an answer up to the first empty one, as names and values. -/
def responseFields (raw : ByteString) : List (ByteString × ByteString) :=
  (visibleLines (responseBlock raw)).filterMap responseField

/-- The header loop assigns the fields it keeps, in order. -/
theorem readResponseHeaders_eq (ls : List ByteString) (headers : Headers) :
    readResponseHeaders ls headers =
      ((((ls.map popCR).takeWhile fun line => line ≠ []).filterMap responseField).filter
        fun field => field.1 ∉ droppedHeaders).foldl (fun h e => h.insert e.1 e.2) headers := by
  induction ls generalizing headers with
  | nil => rfl
  | cons line rest ih =>
      by_cases empty : popCR line = []
      · simp [readResponseHeaders, empty]
      · rw [readResponseHeaders, if_neg empty, List.map_cons,
          List.takeWhile_cons_of_pos (by simpa using empty)]
        cases field : responseField (popCR line) with
        | none => rw [List.filterMap_cons_none field]; exact ih headers
        | some entry =>
            obtain ⟨name, value⟩ := entry
            rw [List.filterMap_cons_some field]
            by_cases kept : name ∈ droppedHeaders
            · rw [List.filter_cons_of_neg (by simpa using kept)]
              simpa only [if_pos kept] using ih headers
            · rw [List.filter_cons_of_pos (by simpa using kept), List.foldl_cons]
              simpa only [if_neg kept] using ih (headers.insert name value)

variable {raw : ByteString} {resp : HttpResponse}

/-- **The parts of an accepted answer.** -/
theorem parseResponse_eq_some (parsed : parseResponse raw = some resp) :
    ∃ line rest, lines LF (responseBlock raw) = line :: rest ∧
      (∃ headerEnd, find raw headerTerminator = some headerEnd) ∧
      resp = { status := (readStatusLine (statusLine raw)).1
               reason := (readStatusLine (statusLine raw)).2
               version := bytes "HTTP/1.1"
               headers := readResponseHeaders rest Headers.empty
               body := responseBody raw } := by
  unfold parseResponse at parsed
  split at parsed
  · cases parsed
  · rename_i headerEnd found
    split at parsed
    · cases parsed
    · rename_i line rest cut
      cases parsed
      have block : responseBlock raw = raw.take headerEnd := by
        rw [responseBlock, found, Option.getD_some]
      refine ⟨line, rest, block ▸ cut, ⟨headerEnd, found⟩, ?_⟩
      rw [statusLine, block, cut, responseBody, found]
      rfl

/-- **What the map holds**: the fields of the block, without the dropped names, assigned in
order. -/
theorem headers_of_parseResponse (parsed : parseResponse raw = some resp) :
    resp.headers =
      Headers.ofList ((responseFields raw).filter fun field => field.1 ∉ droppedHeaders) := by
  obtain ⟨line, rest, cut, -, rfl⟩ := parseResponse_eq_some parsed
  change readResponseHeaders rest Headers.empty = _
  rw [readResponseHeaders_eq, responseFields, visibleLines, headerLines, cut]
  rfl

theorem status_of_parseResponse (parsed : parseResponse raw = some resp) :
    resp.status = (readStatusLine (statusLine raw)).1 := by
  obtain ⟨line, rest, -, -, rfl⟩ := parseResponse_eq_some parsed
  rfl

theorem body_of_parseResponse (parsed : parseResponse raw = some resp) :
    resp.body = responseBody raw := by
  obtain ⟨line, rest, -, -, rfl⟩ := parseResponse_eq_some parsed
  rfl

end HttpOriginClient

/-- The last assignment to a name is what is found under it. -/
theorem Headers.find?_ofList (es : List (ByteString × ByteString)) (name : ByteString) :
    (Headers.ofList es).find? name =
      ((es.filter fun e => lower e.1 = lower name).getLast?).map Prod.snd := by
  suffices general : ∀ headers : Headers,
      (es.foldl (fun h e => h.insert e.1 e.2) headers).find? name =
        (((es.filter fun e => lower e.1 = lower name).getLast?).map Prod.snd).or
          (headers.find? name) by
    rw [Headers.ofList, general, find?_empty, Option.or_none]
  induction es with
  | nil => simp
  | cons e es ih =>
      intro headers
      rw [List.foldl_cons, ih, Headers.find?_insert]
      by_cases same : lower e.1 = lower name
      · rw [if_pos same, List.filter_cons_of_pos (by simpa using same)]
        cases later : es.filter fun e => lower e.1 = lower name with
        | nil => simp
        | cons e' more => simp [List.getLast?_cons]
      · rw [if_neg same, List.filter_cons_of_neg (by simpa using same)]

namespace HttpOriginClient

variable {raw : ByteString} {resp : HttpResponse}

/-- The values of the lines of a name. -/
def valuesOf (raw name : ByteString) : List ByteString :=
  ((responseFields raw).filter fun field => lower field.1 = lower name).map Prod.snd

/-- **The last line of a name wins**, unless the name is one that is dropped. -/
theorem header_of_parseResponse (parsed : parseResponse raw = some resp) {name : ByteString}
    (kept : ∀ dropped ∈ droppedHeaders, lower dropped ≠ lower name) :
    resp.header name = (valuesOf raw name).getLast?.getD [] := by
  have same : (((responseFields raw).filter fun field => field.1 ∉ droppedHeaders).filter
      fun field => lower field.1 = lower name) =
        (responseFields raw).filter fun field => lower field.1 = lower name := by
    rw [List.filter_filter]
    refine List.filter_congr fun field _ => ?_
    by_cases here : lower field.1 = lower name
    · have spared : field.1 ∉ droppedHeaders := fun mem => kept _ mem here
      simp [here, spared]
    · simp [here]
  rw [HttpResponse.header, headers_of_parseResponse parsed, Headers.find?_ofList, same, valuesOf,
    List.getLast?_map]

end HttpOriginClient

end EdgeCache

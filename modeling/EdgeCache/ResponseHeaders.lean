import EdgeCache.NoStore
import EdgeCache.PipelinedParsing
import Mathlib.Data.List.Sort

/-!
# The header lines that reach the client

An answer of the origin passes through a header map on its way: `parseResponse` assigns its lines,
`HttpResponse::serialize` writes the entries of the map, in the order of the map, and adds the
length and the connection itself.

* `Headers.entries_ofList` — **distinct names come back sorted**, and
  `Headers.distinct_of_length_ofList` — names that are not distinct come back as fewer.
* `fieldsRead_serialize` — what a reader of the written bytes finds.
* `survives_iff` — **when every line survives**: exactly if the lines that are to pass have
  distinct names and stay in order when sorted by them, and every line that is not to pass is spelled
  as one of the two lists of names has it.
-/

namespace EdgeCache

open Scan HttpOriginClient

/-! ## What a header map keeps of a list of lines -/

namespace Headers

/-- Assigning a name that is less than all others puts it in front. -/
theorem insertEntry_of_greater {name value : ByteString} {l : List (ByteString × ByteString)}
    (greater : ∀ e ∈ l, CaseInsensitiveLess name e.1) :
    insertEntry name value l = (name, value) :: l := by
  cases l with
  | nil => rfl
  | cons head rest => rw [insertEntry, if_pos (greater head List.mem_cons_self)]

/-- What is kept by its name is kept before an assignment or after it. -/
theorem filter_insertEntry (keep : ByteString → Bool) (name value : ByteString)
    {l : List (ByteString × ByteString)}
    (sorted : l.Pairwise fun a b => CaseInsensitiveLess a.1 b.1) :
    ((insertEntry name value l).filter fun e => keep (lower e.1)) =
      if keep (lower name) then insertEntry name value (l.filter fun e => keep (lower e.1))
      else l.filter fun e => keep (lower e.1) := by
  induction l with
  | nil => cases kept : keep (lower name) <;> simp [insertEntry, kept]
  | cons head rest ih =>
      obtain ⟨n, v⟩ := head
      obtain ⟨less, sorted'⟩ := List.pairwise_cons.mp sorted
      rw [insertEntry]
      split
      · rename_i before
        cases kept : keep (lower name) with
        | false => rw [List.filter_cons_of_neg (by simpa using kept), if_neg (by simp)]
        | true =>
            rw [List.filter_cons_of_pos (by simpa using kept), if_pos rfl, insertEntry_of_greater]
            intro e mem
            rcases List.mem_cons.mp (List.mem_of_mem_filter mem) with rfl | later
            · exact before
            · exact List.lt_trans before (less e later)
      · rename_i notBefore
        split
        · rename_i after
          cases here : keep (lower n) with
          | false =>
              rw [List.filter_cons_of_neg (by simpa using here),
                List.filter_cons_of_neg (by simpa using here), ih sorted']
          | true =>
              rw [List.filter_cons_of_pos (by simpa using here),
                List.filter_cons_of_pos (by simpa using here), ih sorted', insertEntry,
                if_neg notBefore, if_pos after]
              split <;> rfl
        · rename_i notAfter
          have same := lower_eq_of_not_less notBefore notAfter
          cases here : keep (lower n) with
          | false =>
              rw [List.filter_cons_of_neg (by simpa using here),
                List.filter_cons_of_neg (by simpa using here), same, here, if_neg (by simp)]
          | true =>
              rw [List.filter_cons_of_pos (by simpa using here),
                List.filter_cons_of_pos (by simpa using here), same, here, if_pos rfl, insertEntry,
                if_neg notBefore, if_neg notAfter]

/-- **What is kept by its name** is kept before or after the assignments. -/
theorem filter_ofList (keep : ByteString → Bool) (es : List (ByteString × ByteString)) :
    ((ofList es).entries.filter fun e => keep (lower e.1)) =
      (ofList (es.filter fun e => keep (lower e.1))).entries := by
  suffices general : ∀ h h' : Headers,
      (h.entries.filter fun e => keep (lower e.1)) = h'.entries →
        ((es.foldl (fun h e => h.insert e.1 e.2) h).entries.filter fun e => keep (lower e.1)) =
          ((es.filter fun e => keep (lower e.1)).foldl (fun h e => h.insert e.1 e.2) h').entries
    from general empty empty rfl
  induction es with
  | nil => exact fun _ _ start => start
  | cons e es ih =>
      intro h h' start
      have step := filter_insertEntry keep e.1 e.2 h.sorted
      rw [start] at step
      rw [List.foldl_cons]
      cases kept : keep (lower e.1) with
      | false =>
          rw [List.filter_cons_of_neg (by simpa using kept)]
          rw [kept, if_neg (by simp)] at step
          exact ih _ _ step
      | true =>
          rw [List.filter_cons_of_pos (by simpa using kept), List.foldl_cons]
          rw [kept, if_pos rfl] at step
          exact ih _ _ step

/-- Every entry has the name of a line and the value of a line. -/
theorem parts_of_mem_ofList {es : List (ByteString × ByteString)} {e : ByteString × ByteString}
    (mem : e ∈ (ofList es).entries) :
    (∃ line ∈ es, e.1 = line.1) ∧ ∃ line ∈ es, e.2 = line.2 := by
  suffices general : ∀ h : Headers,
      e ∈ (es.foldl (fun h e => h.insert e.1 e.2) h).entries →
        ((∃ line ∈ es, e.1 = line.1) ∨ ∃ old ∈ h.entries, e.1 = old.1) ∧
          ((∃ line ∈ es, e.2 = line.2) ∨ ∃ old ∈ h.entries, e.2 = old.2) by
    obtain ⟨name, value⟩ := general empty mem
    exact ⟨name.resolve_right fun ⟨_, none_, _⟩ => List.not_mem_nil none_,
      value.resolve_right fun ⟨_, none_, _⟩ => List.not_mem_nil none_⟩
  clear mem
  induction es with
  | nil => exact fun h mem => ⟨Or.inr ⟨e, mem, rfl⟩, Or.inr ⟨e, mem, rfl⟩⟩
  | cons first es ih =>
      intro h mem
      obtain ⟨name, value⟩ := ih _ mem
      constructor
      · rcases name with ⟨line, there, same⟩ | ⟨old, there, same⟩
        · exact Or.inl ⟨line, List.mem_cons_of_mem _ there, same⟩
        · rcases (name_value_of_mem_insertEntry there).1 with new | ⟨older, before, names⟩
          · exact Or.inl ⟨first, List.mem_cons_self, same.trans new⟩
          · exact Or.inr ⟨older, before, same.trans names⟩
      · rcases value with ⟨line, there, same⟩ | ⟨old, there, same⟩
        · exact Or.inl ⟨line, List.mem_cons_of_mem _ there, same⟩
        · rcases (name_value_of_mem_insertEntry there).2 with new | ⟨older, before, values⟩
          · exact Or.inl ⟨first, List.mem_cons_self, same.trans new⟩
          · exact Or.inr ⟨older, before, same.trans values⟩

/-- Every line has an entry of its name. -/
theorem exists_mem_ofList {es : List (ByteString × ByteString)} {line : ByteString × ByteString}
    (mem : line ∈ es) : ∃ e ∈ (ofList es).entries, lower e.1 = lower line.1 := by
  have found := find?_ofList es line.1
  cases last : (es.filter fun e => lower e.1 = lower line.1).getLast? with
  | none =>
      have here : line ∈ es.filter fun e => lower e.1 = lower line.1 := by simpa using mem
      rw [List.getLast?_eq_none_iff.mp last] at here
      cases here
  | some e =>
      rw [last, find?, Option.map_some, Option.map_eq_some_iff] at found
      obtain ⟨entry, there, -⟩ := found
      exact ⟨entry, List.mem_of_find?_eq_some there, by simpa using List.find?_some there⟩

theorem perm_insertEntry {name : ByteString} (value : ByteString)
    {l : List (ByteString × ByteString)} (fresh : ∀ e ∈ l, lower e.1 ≠ lower name) :
    (insertEntry name value l).Perm ((name, value) :: l) := by
  induction l with
  | nil => exact List.Perm.refl _
  | cons head rest ih =>
      rw [insertEntry]
      split
      · exact List.Perm.refl _
      · rename_i notBefore
        split
        · exact ((ih fun e mem => fresh e (List.mem_cons_of_mem _ mem)).cons head).trans
            (List.Perm.swap _ _ _)
        · rename_i notAfter
          exact absurd (lower_eq_of_not_less notBefore notAfter).symm
            (fresh head List.mem_cons_self)

/-- Assigning distinct names keeps them all. -/
theorem perm_ofList {es : List (ByteString × ByteString)}
    (distinct : es.Pairwise fun a b => lower a.1 ≠ lower b.1) : (ofList es).entries.Perm es := by
  suffices general : ∀ h : Headers,
      ((h.entries ++ es).Pairwise fun a b => lower a.1 ≠ lower b.1) →
        (es.foldl (fun h e => h.insert e.1 e.2) h).entries.Perm (h.entries ++ es)
    from general empty distinct
  clear distinct
  induction es with
  | nil => exact fun h _ => by rw [List.append_nil]; exact List.Perm.refl _
  | cons e es ih =>
      intro h distinct
      have grown : ((h.insert e.1 e.2).entries ++ es).Perm (h.entries ++ e :: es) := by
        have fresh := perm_insertEntry e.2 fun a mem =>
          (List.pairwise_append.mp distinct).2.2 a mem e List.mem_cons_self
        exact (fresh.append_right es).trans List.perm_middle.symm
      exact (ih _ (grown.symm.pairwise distinct fun ne => ne.symm)).trans grown

/-- Lines in the order of their names, without case. -/
def sortByName (es : List (ByteString × ByteString)) : List (ByteString × ByteString) :=
  es.mergeSort fun a b => decide (lower a.1 ≤ lower b.1)

/-- **Distinct names come back sorted.** -/
theorem entries_ofList {es : List (ByteString × ByteString)}
    (distinct : es.Pairwise fun a b => lower a.1 ≠ lower b.1) :
    (ofList es).entries = sortByName es := by
  have perm : (sortByName es).Perm es := List.mergeSort_perm _ _
  have sorted : (sortByName es).Pairwise fun a b => lower a.1 ≤ lower b.1 := by
    refine (List.pairwise_mergeSort (fun a b c ab bc => ?_) (fun a b => ?_) es).imp
      fun le => of_decide_eq_true le
    · exact decide_eq_true (List.le_trans (of_decide_eq_true ab) (of_decide_eq_true bc))
    · simpa using List.le_total (lower a.1) (lower b.1)
  have strict : (sortByName es).Pairwise fun a b => CaseInsensitiveLess a.1 b.1 :=
    (sorted.and (perm.symm.pairwise distinct fun ne => ne.symm)).imp
      fun both => by_contra fun not => both.2 (List.le_antisymm both.1 (List.not_lt.mp not))
  exact List.Perm.eq_of_pairwise (fun a b _ _ ab ba => absurd ba (List.lt_asymm ab))
    (ofList es).sorted strict ((perm_ofList distinct).trans perm.symm)

/-- **Names that are not distinct come back as fewer.** -/
theorem distinct_of_length_ofList {es : List (ByteString × ByteString)}
    (all : (ofList es).entries.length = es.length) :
    es.Pairwise fun a b => lower a.1 ≠ lower b.1 := by
  have nodup : ((ofList es).entries.map fun e => lower e.1).Nodup :=
    List.pairwise_map.mpr ((ofList es).sorted.imp fun less same => by
      rw [CaseInsensitiveLess, same] at less
      exact List.lt_irrefl _ less)
  have among : ((ofList es).entries.map fun e => lower e.1) ⊆ es.map fun e => lower e.1 := by
    intro name mem
    obtain ⟨e, there, rfl⟩ := List.mem_map.mp mem
    obtain ⟨⟨line, mem', same⟩, -⟩ := parts_of_mem_ofList there
    exact List.mem_map.mpr ⟨line, mem', by rw [same]⟩
  have perm := (nodup.subperm among).perm_of_length_le (by simp [all])
  exact List.pairwise_map.mp (perm.nodup_iff.mp nodup)

end Headers

/-! ## Writing an answer -/

/-- `reasonFor`. -/
def reasonFor (status : Int32) : ByteString :=
  if status = 200 then bytes "OK"
  else if status = 204 then bytes "No Content"
  else if status = 304 then bytes "Not Modified"
  else if status = 400 then bytes "Bad Request"
  else if status = 401 then bytes "Unauthorized"
  else if status = 404 then bytes "Not Found"
  else if status = 500 then bytes "Internal Server Error"
  else if status = 502 then bytes "Bad Gateway"
  else if status = 503 then bytes "Service Unavailable"
  else if status = 504 then bytes "Gateway Timeout"
  else bytes "OK"

/-- The entries that `serialize` leaves out. -/
def skipped (name : ByteString) : Bool :=
  iequals name (bytes "Connection") || iequals name (bytes "Content-Length") ||
    iequals name (bytes "Transfer-Encoding")

/-- `HttpResponse::serialize`. -/
def HttpResponse.serialize (r : HttpResponse) (keepAlive : Bool) : ByteString :=
  r.version ++ bytes " " ++ intToString r.status.toInt ++ bytes " " ++
    (if r.reason = [] then reasonFor r.status else r.reason) ++ crlf ++
    ((r.headers.entries.filter fun kv => !skipped kv.1).map fun kv =>
      kv.1 ++ bytes ": " ++ kv.2 ++ crlf).flatten ++
    bytes "Content-Length: " ++ toString r.body.length ++ crlf ++
    bytes "Connection: " ++ (if keepAlive then bytes "keep-alive" else bytes "close") ++ crlf ++
    crlf ++ r.body

/-! ## The lines of a message, as its reader finds them -/

/-- A line up to the blanks around its name and its value. -/
def stripField (e : ByteString × ByteString) : ByteString × ByteString :=
  (stripBlanks e.1, stripBlanks e.2)

/-- The header lines of a message, up to blanks. -/
def fieldsRead (message : ByteString) : List (ByteString × ByteString) :=
  (responseFields message).map stripField

/-- The lines of a name in lower case, up to blanks. -/
def linesOf (message name : ByteString) : List (ByteString × ByteString) :=
  (fieldsRead message).filter fun e => lower e.1 = name

/-- The names, in lower case, of the lines that are not to pass. -/
def hopNames : List ByteString :=
  [bytes "connection", bytes "keep-alive", bytes "transfer-encoding", bytes "content-length"]

/-- **The lines of an answer survive** in the bytes that the proxy writes. -/
structure Survives (raw written : ByteString) : Prop where
  endToEnd : ∀ name, name ∉ hopNames → linesOf written name = linesOf raw name
  length : (linesOf written (bytes "content-length")).map Prod.snd =
    [toString (responseBody raw).length]
  connection : (linesOf written (bytes "connection")).length = 1
  hop : ∀ name ∈ [bytes "keep-alive", bytes "transfer-encoding"], linesOf written name = []
  body : responseBody written = responseBody raw

/-! ## What is written, line by line -/

/-- The status line that is written. -/
def statusText (r : HttpResponse) : ByteString :=
  r.version ++ bytes " " ++ intToString r.status.toInt ++ bytes " " ++
    if r.reason = [] then reasonFor r.status else r.reason

/-- The lines that are written, in order. -/
def sentFields (r : HttpResponse) (keepAlive : Bool) : List (ByteString × ByteString) :=
  (r.headers.entries.filter fun kv => !skipped kv.1) ++
    [(bytes "Content-Length", toString r.body.length),
      (bytes "Connection", if keepAlive then bytes "keep-alive" else bytes "close")]

/-- How the texts that are written fall apart into names and values. -/
theorem sent_texts : bytes ": " = [COLON, SP] ∧
    bytes "Content-Length: " = bytes "Content-Length" ++ [COLON, SP] ∧
      bytes "Connection: " = bytes "Connection" ++ [COLON, SP] := by
  decide +kernel

/-- The texts that are written are parts of one line, and the last of them ends it. -/
theorem sent_plain :
    (∀ text ∈ [bytes " ", bytes "HTTP/1.1", bytes "Content-Length", bytes "Connection",
        bytes "keep-alive", bytes "close"], LF ∉ text) ∧
      (COLON ∉ bytes "Content-Length" ∧ COLON ∉ bytes "Connection") ∧
      ∀ keepAlive : Bool, (fieldLine (bytes "Connection",
        if keepAlive then bytes "keep-alive" else bytes "close")).getLast? ≠ some CR := by
  decide +kernel

theorem reasonFor_bare (status : Int32) : LF ∉ reasonFor status := by
  unfold reasonFor
  repeat' split
  all_goals decide +kernel

theorem serialize_eq (r : HttpResponse) (keepAlive : Bool) :
    r.serialize keepAlive =
      joinLines (statusText r :: (sentFields r keepAlive).map fieldLine) ++
        (headerTerminator ++ r.body) := by
  have join := joinLines_flatMap (statusText r) ((sentFields r keepAlive).map fieldLine)
    ([CR, LF] ++ r.body)
  have front : r.serialize keepAlive = statusText r ++
      ([CR, LF] ++ ((((sentFields r keepAlive).map fieldLine).flatMap fun l => l ++ [CR, LF]) ++
        ([CR, LF] ++ r.body))) := by
    obtain ⟨colon, length, connection⟩ := sent_texts
    simp only [HttpResponse.serialize, statusText, sentFields, fieldLine, List.flatMap_def, crlf,
      colon, length, connection, List.map_cons, List.map_append, List.map_nil, List.map_map,
      List.flatten_cons, List.flatten_append, List.flatten_nil, List.append_assoc,
      List.cons_append, List.nil_append, Function.comp_def, List.append_nil]
  rw [front, join]
  rfl

/-- Reading a written line. -/
theorem responseField_fieldLine {e : ByteString × ByteString} (noColon : COLON ∉ e.1) :
    responseField (fieldLine e) = some (e.1, e.2.dropWhile isBlank) := by
  rw [responseField, find_fieldLine noColon, Option.map_some, take_fieldLine, drop_fieldLine,
    List.dropWhile_cons_of_pos (by decide)]

/-- A name and a value that a header line can carry. -/
def PlainField (e : ByteString × ByteString) : Prop := COLON ∉ e.1 ∧ LF ∉ e.1 ∧ LF ∉ e.2

theorem plain_of_responseField {line : ByteString} {e : ByteString × ByteString}
    (noLF : LF ∉ line) (field : responseField line = some e) : PlainField e := by
  obtain ⟨colon, found, rfl⟩ := Option.map_eq_some_iff.mp field
  exact ⟨notMem_take_of_find found, fun mem => noLF (List.mem_of_mem_take mem),
    fun mem => noLF (List.mem_of_mem_drop ((List.dropWhile_suffix isBlank).subset mem))⟩

variable {raw : ByteString} {resp : HttpResponse}

/-- The lines of an answer are plain. -/
theorem plain_of_mem_responseFields {e : ByteString × ByteString}
    (mem : e ∈ responseFields raw) : PlainField e := by
  obtain ⟨line, there, field⟩ := List.mem_filterMap.mp mem
  obtain ⟨whole, cut, rfl⟩ := List.mem_map.mp (List.takeWhile_subset _ there)
  exact plain_of_responseField
    (fun here => notMem_of_mem_lines (List.mem_of_mem_tail cut) (mem_of_mem_popCR here)) field

/-- The entries of a parsed answer are plain. -/
theorem plain_of_parseResponse (parsed : parseResponse raw = some resp) :
    ∀ e ∈ resp.headers.entries, PlainField e := by
  intro e mem
  rw [headers_of_parseResponse parsed] at mem
  obtain ⟨⟨line, there, name⟩, ⟨line', there', value⟩⟩ := Headers.parts_of_mem_ofList mem
  obtain ⟨noColon, noLF, -⟩ := plain_of_mem_responseFields (List.mem_of_mem_filter there)
  obtain ⟨-, -, noLF'⟩ := plain_of_mem_responseFields (List.mem_of_mem_filter there')
  exact ⟨name ▸ noColon, name ▸ noLF, value ▸ noLF'⟩

theorem mem_of_mem_readStatus {s : ByteString} {c : UInt8} (mem : c ∈ (readStatus s).2) :
    c ∈ s := by
  have text : s.dropWhile isspace ⊆ s := (List.dropWhile_suffix isspace).subset
  have unsigned : (if (s.dropWhile isspace).head? = some 45 ∨ (s.dropWhile isspace).head? = some 43
      then (s.dropWhile isspace).tail else s.dropWhile isspace) ⊆ s := by
    split
    · exact fun _ mem => text (List.mem_of_mem_tail mem)
    · exact text
  unfold readStatus at mem
  simp only at mem
  generalize (if (s.dropWhile isspace).head? = some 45 ∨ (s.dropWhile isspace).head? = some 43
      then (s.dropWhile isspace).tail else s.dropWhile isspace) = number at mem unsigned
  generalize (if (s.dropWhile isspace).head? == some 45 then _ else _ : ℤ) = n at mem
  split_ifs at mem
  · cases mem
  · cases mem
  · cases mem
  · exact unsigned ((List.dropWhile_suffix isdigit).subset mem)

theorem mem_of_mem_reason {line : ByteString} {c : UInt8} (mem : c ∈ (readStatusLine line).2) :
    c ∈ line := by
  unfold readStatusLine at mem
  split at mem
  · cases mem
  · rename_i word rest read
    have behind : rest ⊆ line := by
      unfold readWord at read
      simp only at read
      split at read
      · cases read
      · cases read
        exact ((List.dropWhile_suffix _).trans (List.dropWhile_suffix _)).subset
    have reason := mem_of_mem_popCR mem
    split at reason
    · exact behind (mem_of_mem_readStatus (List.mem_of_mem_tail reason))
    · exact behind (mem_of_mem_readStatus reason)

/-- The status line that is written is one line. -/
theorem statusText_bare (parsed : parseResponse raw = some resp) :
    statusText resp ≠ [] ∧ LF ∉ statusText resp := by
  obtain ⟨line, rest, cut, -, rfl⟩ := parseResponse_eq_some parsed
  have noLF : LF ∉ statusLine raw := fun mem => by
    rw [statusLine, cut, List.head?_cons, Option.getD_some] at mem
    exact notMem_of_mem_lines (cut ▸ List.mem_cons_self) (mem_of_mem_popCR mem)
  have space : LF ∉ bytes " " := sent_plain.1 _ (by simp)
  have version : LF ∉ bytes "HTTP/1.1" := sent_plain.1 _ (by simp)
  have number (status : Int32) : LF ∉ intToString status.toInt :=
    notMem_intToString (by decide) (by decide)
  constructor
  · simp [statusText, show bytes " " = [SP] from rfl]
  · simp only [statusText, List.mem_append, not_or]
    refine ⟨⟨⟨⟨version, space⟩, number _⟩, space⟩, ?_⟩
    split
    · exact reasonFor_bare _
    · exact fun mem => noLF (mem_of_mem_reason mem)

theorem plain_of_mem_sentFields (parsed : parseResponse raw = some resp) {keepAlive : Bool}
    {e : ByteString × ByteString} (mem : e ∈ sentFields resp keepAlive) : PlainField e := by
  rcases List.mem_append.mp mem with entry | own
  · exact plain_of_parseResponse parsed e (List.mem_of_mem_filter entry)
  · obtain ⟨bare, ⟨length, connection⟩, -⟩ := sent_plain
    rcases List.mem_pair.mp own with rfl | rfl
    · refine ⟨length, bare _ (by simp), ?_⟩
      change LF ∉ toString resp.body.length
      rw [← intToString_natCast]
      exact notMem_intToString (by decide) (by decide)
    · refine ⟨connection, bare _ (by simp), ?_⟩
      cases keepAlive
      · exact bare _ (by simp)
      · exact bare _ (by simp)

/-- What is written is made of lines. -/
theorem sentLines_bare (parsed : parseResponse raw = some resp) (keepAlive : Bool) :
    ∀ l ∈ statusText resp :: (sentFields resp keepAlive).map fieldLine, l ≠ [] ∧ LF ∉ l := by
  intro l mem
  rcases List.mem_cons.mp mem with rfl | field
  · exact statusText_bare parsed
  · obtain ⟨e, there, rfl⟩ := List.mem_map.mp field
    obtain ⟨-, name, value⟩ := plain_of_mem_sentFields parsed there
    refine ⟨by simp [fieldLine], ?_⟩
    simp only [fieldLine, List.mem_append, name, value, or_false, false_or]
    decide

/-- The body comes last. -/
theorem responseBody_serialize (parsed : parseResponse raw = some resp) (keepAlive : Bool) :
    responseBody (resp.serialize keepAlive) = responseBody raw := by
  have found := find_joinLines (sentLines_bare parsed keepAlive) resp.body
  rw [responseBody, serialize_eq, found, Option.getD_some, ← List.drop_drop, List.drop_left,
    body_of_parseResponse parsed]
  rfl

/-- No digit is a blank, and a blank has no other case. -/
theorem isBlank_facts (c : UInt8) :
    (isdigit c = true → isBlank c = false) ∧ isBlank (tolower c) = isBlank c := by
  have all : ∀ c : UInt8, (isdigit c = true → isBlank c = false) ∧
      isBlank (tolower c) = isBlank c := by decide +kernel
  exact all c

theorem stripBlanks_of_isDecimal {s : ByteString} (decimal : IsDecimal s) : stripBlanks s = s := by
  have solid : ∀ c ∈ s, isBlank c = false := fun c mem =>
    (isBlank_facts c).1 (decimal.2 c mem)
  have front : s.dropWhile isBlank = s := by
    cases s with
    | nil => rfl
    | cons c rest => exact List.dropWhile_cons_of_neg (by simp [solid c (by simp)])
  rw [stripBlanks, front, List.rdropWhile_eq_self_iff]
  exact fun nonempty => by simp [solid _ (List.getLast_mem nonempty)]

theorem stripBlanks_dropWhile (s : ByteString) :
    stripBlanks (s.dropWhile isBlank) = stripBlanks s := by
  rw [stripBlanks, stripBlanks, List.dropWhile_idempotent]

/-- **What a reader of the written bytes finds.** -/
theorem fieldsRead_serialize (parsed : parseResponse raw = some resp) (keepAlive : Bool) :
    fieldsRead (resp.serialize keepAlive) = (sentFields resp keepAlive).map stripField := by
  have bare := sentLines_bare parsed keepAlive
  have block : responseBlock (resp.serialize keepAlive) =
      joinLines (statusText resp :: (sentFields resp keepAlive).map fieldLine) := by
    rw [responseBlock, serialize_eq, find_joinLines bare, Option.getD_some, List.take_left]
  obtain ⟨line, rest, split, -, others⟩ := lines_joinLines_cons bare (by
    rw [sentFields, List.map_append, ← List.cons_append]
    intro l mem
    rw [List.getLast?_append_of_ne_nil _ (by simp)] at mem
    change l ∈ some (fieldLine
      (bytes "Connection", if keepAlive then bytes "keep-alive" else bytes "close")) at mem
    cases Option.mem_some.mp mem
    exact sent_plain.2.2 keepAlive)
  have visible : visibleLines (responseBlock (resp.serialize keepAlive)) =
      (sentFields resp keepAlive).map fieldLine := by
    rw [visibleLines, headerLines, block, split, List.tail_cons, others]
  rw [fieldsRead, responseFields, visible, List.filterMap_map, List.map_filterMap,
    ← List.filterMap_eq_map]
  refine List.filterMap_congr fun e mem => ?_
  have read := responseField_fieldLine (plain_of_mem_sentFields parsed mem).1
  rw [Function.comp_apply, read, Option.map_some]
  simp only [Function.comp_apply, stripField, stripBlanks_dropWhile]

/-! ## When every line survives -/

/-- A line's name, up to case and blanks, is a function of the name up to case. -/
theorem lower_stripBlanks (s : ByteString) : lower (stripBlanks s) = stripBlanks (lower s) := by
  have same : isBlank ∘ tolower = isBlank := by
    funext c
    exact (isBlank_facts c).2
  rw [stripBlanks, stripBlanks, List.rdropWhile, List.rdropWhile, lower, lower, List.dropWhile_map,
    same, ← List.map_reverse, List.dropWhile_map, same, List.map_reverse]

theorem skipped_congr {a b : ByteString} (same : lower a = lower b) : skipped a = skipped b := by
  simp only [skipped, iequals, same]

/-- The names that the proxy writes itself, and those that it does not write at all. -/
theorem mem_hopNames_iff {name : ByteString} :
    name ∈ hopNames ↔ name = bytes "connection" ∨ name = bytes "content-length" ∨
      name ∈ [bytes "keep-alive", bytes "transfer-encoding"] := by
  unfold hopNames
  generalize bytes "connection" = connection
  generalize bytes "content-length" = length
  simp only [List.mem_cons, List.not_mem_nil, or_false]
  tauto

/-- What `parseResponse` drops is not to pass. -/
theorem mem_hopNames_of_dropped {name : ByteString} (out : name ∈ droppedHeaders) :
    lower (stripBlanks name) ∈ hopNames := by
  have all : ∀ dropped ∈ droppedHeaders, lower (stripBlanks dropped) ∈ hopNames := by
    decide +kernel
  exact all name out

/-- What `serialize` leaves out is not to pass. -/
theorem mem_hopNames_of_skipped {name : ByteString} (out : skipped name = true) :
    lower (stripBlanks name) ∈ hopNames := by
  rw [lower_stripBlanks]
  simp only [skipped, iequals, Bool.or_eq_true, beq_iff_eq] at out
  rcases out with (same | same) | same
  all_goals
    rw [same, ← lower_stripBlanks]
    exact mem_hopNames_of_dropped (by simp [droppedHeaders])

/-- The lines of a name, as they are spelled. -/
def spelledLines (message name : ByteString) : List (ByteString × ByteString) :=
  (responseFields message).filter fun e => lower (stripBlanks e.1) = name

theorem linesOf_eq (message name : ByteString) :
    linesOf message name = (spelledLines message name).map stripField := by
  rw [linesOf, fieldsRead, List.filter_map]
  rfl

/-- The entries of a name that are written. -/
def writtenEntries (r : HttpResponse) (name : ByteString) : List (ByteString × ByteString) :=
  r.headers.entries.filter fun e => lower (stripBlanks e.1) = name ∧ skipped e.1 = false

/-- The written lines of a name: its entries, and what the proxy adds. -/
theorem linesOf_serialize (parsed : parseResponse raw = some resp) (keepAlive : Bool)
    (name : ByteString) :
    linesOf (resp.serialize keepAlive) name =
      (writtenEntries resp name).map stripField ++
      ([(bytes "Content-Length", toString resp.body.length),
        (bytes "Connection", if keepAlive then bytes "keep-alive" else bytes "close")].filter
          fun e => lower (stripBlanks e.1) = name).map stripField := by
  have own : (fun e => decide (lower e.1 = name)) ∘ stripField =
      fun e => decide (lower (stripBlanks e.1) = name) := rfl
  rw [linesOf, fieldsRead_serialize parsed, List.filter_map, own, sentFields, List.filter_append,
    List.map_append, List.filter_filter, writtenEntries]
  congr 2
  refine List.filter_congr fun e _ => ?_
  cases skipped e.1 <;> simp

/-- **The lines that are to pass** are written as the map keeps them. -/
theorem linesOf_serialize_endToEnd (parsed : parseResponse raw = some resp) (keepAlive : Bool)
    {name : ByteString} (passes : name ∉ hopNames) :
    linesOf (resp.serialize keepAlive) name =
      (Headers.ofList (spelledLines raw name)).entries.map stripField := by
  have none_ : ([(bytes "Content-Length", toString resp.body.length),
      (bytes "Connection", if keepAlive then bytes "keep-alive" else bytes "close")].filter
        fun e => lower (stripBlanks e.1) = name) = [] := by
    have length : lower (stripBlanks (bytes "Content-Length")) ∈ hopNames :=
      mem_hopNames_of_dropped (by simp [droppedHeaders])
    have connection : lower (stripBlanks (bytes "Connection")) ∈ hopNames :=
      mem_hopNames_of_dropped (by simp [droppedHeaders])
    refine List.filter_eq_nil_iff.mpr fun e mem same => ?_
    rw [decide_eq_true_eq] at same
    rcases List.mem_pair.mp mem with rfl | rfl
    · exact passes (same ▸ length)
    · exact passes (same ▸ connection)
  have kept : writtenEntries resp name =
      resp.headers.entries.filter fun e => stripBlanks (lower e.1) = name := by
    refine List.filter_congr fun e _ => ?_
    rw [← lower_stripBlanks]
    by_cases here : lower (stripBlanks e.1) = name
    · have written : skipped e.1 = false := by
        rw [Bool.eq_false_iff]
        exact fun out => passes (here ▸ mem_hopNames_of_skipped out)
      simp [here, written]
    · simp [here]
  have lines : (((responseFields raw).filter fun field => field.1 ∉ droppedHeaders).filter
      fun e => stripBlanks (lower e.1) = name) = spelledLines raw name := by
    rw [List.filter_filter, spelledLines]
    refine List.filter_congr fun e _ => ?_
    rw [← lower_stripBlanks]
    by_cases here : lower (stripBlanks e.1) = name
    · have spared : e.1 ∉ droppedHeaders := fun out =>
        passes (here ▸ mem_hopNames_of_dropped out)
      simp [here, spared]
    · simp [here]
  rw [linesOf_serialize parsed, none_, List.map_nil, List.append_nil, kept,
    headers_of_parseResponse parsed,
    Headers.filter_ofList fun low => decide (stripBlanks low = name), lines]

/-- What the proxy adds is the only line of its name exactly if no entry of a name that is not to
pass is written. -/
theorem hop_lines_iff (parsed : parseResponse raw = some resp) (keepAlive : Bool) :
    ((linesOf (resp.serialize keepAlive) (bytes "content-length")).map Prod.snd =
          [toString (responseBody raw).length] ∧
        (linesOf (resp.serialize keepAlive) (bytes "connection")).length = 1 ∧
        ∀ name ∈ [bytes "keep-alive", bytes "transfer-encoding"],
          linesOf (resp.serialize keepAlive) name = []) ↔
      ∀ name ∈ hopNames, writtenEntries resp name = [] := by
  obtain ⟨length, connection, apart, apart', others⟩ :
      lower (stripBlanks (bytes "Content-Length")) = bytes "content-length" ∧
        lower (stripBlanks (bytes "Connection")) = bytes "connection" ∧
        bytes "content-length" ≠ bytes "connection" ∧ bytes "connection" ≠ bytes "content-length" ∧
        ∀ name ∈ [bytes "keep-alive", bytes "transfer-encoding"],
          bytes "content-length" ≠ name ∧ bytes "connection" ≠ name := by decide +kernel
  have digits : stripBlanks (toString resp.body.length) = toString resp.body.length :=
    stripBlanks_of_isDecimal (isDecimal_toString _)
  have ownLength := linesOf_serialize parsed keepAlive (bytes "content-length")
  rw [List.filter_cons_of_pos (by simp [length]),
    List.filter_cons_of_neg (by simp [connection, apart']), List.filter_nil] at ownLength
  have ownConnection := linesOf_serialize parsed keepAlive (bytes "connection")
  rw [List.filter_cons_of_neg (by simp [length, apart]),
    List.filter_cons_of_pos (by simp [connection]), List.filter_nil] at ownConnection
  have ownNone : ∀ name ∈ [bytes "keep-alive", bytes "transfer-encoding"],
      linesOf (resp.serialize keepAlive) name = (writtenEntries resp name).map stripField := by
    intro name mem
    obtain ⟨one, other⟩ := others name mem
    rw [linesOf_serialize parsed, List.filter_cons_of_neg (by simpa [length] using one),
      List.filter_cons_of_neg (by simpa [connection] using other), List.filter_nil, List.map_nil,
      List.append_nil]
  rw [ownLength, ownConnection, ← body_of_parseResponse parsed]
  constructor
  · rintro ⟨sizes, single, rest⟩ name mem
    rcases mem_hopNames_iff.mp mem with rfl | rfl | other
    · simpa using single
    · have count := congrArg List.length sizes
      simpa using count
    · have empty := rest name other
      rwa [ownNone name other, List.map_eq_nil_iff] at empty
  · intro none_
    refine ⟨?_, ?_, fun name mem => ?_⟩
    · rw [none_ _ (mem_hopNames_iff.mpr (Or.inr (Or.inl rfl)))]
      simp [stripField, digits]
    · rw [none_ _ (mem_hopNames_iff.mpr (Or.inl rfl))]
      rfl
    · rw [ownNone name mem, none_ name (mem_hopNames_iff.mpr (Or.inr (Or.inr mem)))]
      rfl

/-- **The lines of an answer are spelled so that they survive.** -/
structure Orderly (raw : ByteString) : Prop where
  distinct : ((responseFields raw).filter fun e => lower (stripBlanks e.1) ∉ hopNames).Pairwise
    fun a b => lower a.1 ≠ lower b.1
  ordered : ∀ name, name ∉ hopNames →
    (Headers.sortByName (spelledLines raw name)).map stripField =
      (spelledLines raw name).map stripField
  hop : ∀ e ∈ responseFields raw, lower (stripBlanks e.1) ∈ hopNames →
    e.1 ∈ droppedHeaders ∨ skipped e.1 = true

/-- Names are told apart within the lines of one name. -/
theorem distinct_iff :
    (((responseFields raw).filter fun e => lower (stripBlanks e.1) ∉ hopNames).Pairwise
        fun a b => lower a.1 ≠ lower b.1) ↔
      ∀ name, name ∉ hopNames →
        (spelledLines raw name).Pairwise fun a b => lower a.1 ≠ lower b.1 := by
  constructor
  · intro distinct name passes
    refine distinct.sublist ?_
    have same : spelledLines raw name = ((responseFields raw).filter fun e =>
        lower (stripBlanks e.1) ∉ hopNames).filter fun e => lower (stripBlanks e.1) = name := by
      rw [List.filter_filter, spelledLines]
      refine List.filter_congr fun e _ => ?_
      by_cases here : lower (stripBlanks e.1) = name <;> simp [here, passes]
    rw [same]
    exact List.filter_sublist
  · intro apart
    refine List.pairwise_iff_forall_sublist.mpr fun {a b} sub same => ?_
    have name : lower (stripBlanks a.1) = lower (stripBlanks b.1) := by
      rw [lower_stripBlanks, lower_stripBlanks, same]
    have passes : lower (stripBlanks b.1) ∉ hopNames := by
      have mem := sub.subset (List.mem_cons_of_mem _ (List.mem_singleton_self b))
      simpa using (List.mem_filter.mp mem).2
    have both := (sub.trans List.filter_sublist).filter
      fun e => decide (lower (stripBlanks e.1) = lower (stripBlanks b.1))
    rw [List.filter_cons_of_pos (by simpa using name), List.filter_cons_of_pos (by simp),
      List.filter_nil] at both
    exact List.pairwise_iff_forall_sublist.mp (apart _ passes) both same

/-- No entry that is not to pass is written, in terms of the lines of the answer. -/
theorem no_hop_iff (parsed : parseResponse raw = some resp) :
    (∀ name ∈ hopNames, writtenEntries resp name = []) ↔
      ∀ e ∈ responseFields raw, lower (stripBlanks e.1) ∈ hopNames →
        e.1 ∈ droppedHeaders ∨ skipped e.1 = true := by
  have entries := congrArg Headers.entries (headers_of_parseResponse parsed)
  constructor
  · intro none_ line mem hop
    by_cases dropped : line.1 ∈ droppedHeaders
    · exact Or.inl dropped
    · have kept : line ∈ (responseFields raw).filter fun field => field.1 ∉ droppedHeaders :=
        List.mem_filter.mpr ⟨mem, by simpa using dropped⟩
      obtain ⟨e, there, same⟩ := Headers.exists_mem_ofList kept
      rw [← entries] at there
      refine Or.inr (by_contra fun written => ?_)
      have named : lower (stripBlanks e.1) = lower (stripBlanks line.1) := by
        rw [lower_stripBlanks, lower_stripBlanks, same]
      have found : e ∈ writtenEntries resp (lower (stripBlanks line.1)) :=
        List.mem_filter.mpr ⟨there, by simp [named, skipped_congr same, written]⟩
      rw [none_ _ hop] at found
      cases found
  · intro spelled name mem
    refine List.filter_eq_nil_iff.mpr fun e there both => ?_
    obtain ⟨named, written⟩ := of_decide_eq_true both
    rw [entries] at there
    obtain ⟨⟨line, kept, same⟩, -⟩ := Headers.parts_of_mem_ofList there
    obtain ⟨original, spared⟩ := List.mem_filter.mp kept
    rcases spelled line original (by rw [← same, named]; exact mem) with dropped | out
    · simp [dropped] at spared
    · rw [← same, written] at out
      cases out

/-- **When every line survives.** -/
theorem survives_iff (parsed : parseResponse raw = some resp) (keepAlive : Bool) :
    Survives raw (resp.serialize keepAlive) ↔ Orderly raw := by
  constructor
  · rintro ⟨endToEnd, length, connection, hop, -⟩
    have same : ∀ name, name ∉ hopNames →
        (Headers.ofList (spelledLines raw name)).entries.map stripField =
          (spelledLines raw name).map stripField := fun name passes => by
      rw [← linesOf_serialize_endToEnd parsed keepAlive passes, endToEnd name passes, linesOf_eq]
    have apart : ∀ name, name ∉ hopNames →
        (spelledLines raw name).Pairwise fun a b => lower a.1 ≠ lower b.1 := fun name passes =>
      Headers.distinct_of_length_ofList (by simpa using congrArg List.length (same name passes))
    refine ⟨distinct_iff.mpr apart, fun name passes => ?_,
      (no_hop_iff parsed).mp ((hop_lines_iff parsed keepAlive).mp ⟨length, connection, hop⟩)⟩
    rw [← Headers.entries_ofList (apart name passes)]
    exact same name passes
  · rintro ⟨distinct, ordered, spelled⟩
    obtain ⟨length, connection, hop⟩ :=
      (hop_lines_iff parsed keepAlive).mpr ((no_hop_iff parsed).mpr spelled)
    refine ⟨fun name passes => ?_, length, connection, hop,
      responseBody_serialize parsed keepAlive⟩
    rw [linesOf_serialize_endToEnd parsed keepAlive passes,
      Headers.entries_ofList (distinct_iff.mp distinct name passes), ordered name passes,
      linesOf_eq]

/-- Names that differ in more than case and blanks are in order. -/
theorem Orderly.of_distinct
    (distinct : (responseFields raw).Pairwise fun a b =>
      lower (stripBlanks a.1) ≠ lower (stripBlanks b.1))
    (hop : ∀ e ∈ responseFields raw, lower (stripBlanks e.1) ∈ hopNames →
      e.1 ∈ droppedHeaders ∨ skipped e.1 = true) : Orderly raw where
  distinct := (distinct.sublist List.filter_sublist).imp fun apart same => apart <| by
    rw [lower_stripBlanks, lower_stripBlanks, same]
  ordered name _ := by
    have alone : (spelledLines raw name).Pairwise fun a b => lower a.1 ≤ lower b.1 := by
      refine List.Pairwise.imp_of_mem (fun {a b} one other apart => ?_)
        (distinct.sublist List.filter_sublist)
      have first : lower (stripBlanks a.1) = name := of_decide_eq_true (List.mem_filter.mp one).2
      have second : lower (stripBlanks b.1) = name := of_decide_eq_true (List.mem_filter.mp other).2
      exact absurd (first.trans second.symm) apart
    rw [Headers.sortByName, List.mergeSort_of_pairwise (alone.imp fun le => decide_eq_true le)]
  hop := hop

/-! ## Two cookies -/

/-- A page with a few header lines. -/
def pageWith (fields : List (ByteString × ByteString)) : ByteString :=
  joinLines (bytes "HTTP/1.1 200 OK" :: fields.map fieldLine) ++ (headerTerminator ++ bytes "x")

/-- Two lines that set cookies. -/
def twoCookies : List (ByteString × ByteString) :=
  [(bytes "Set-Cookie", bytes "a=1"), (bytes "Set-Cookie", bytes "b=2")]

/-- **The first cookie is lost.** -/
theorem not_survives_twoCookies :
    ∃ resp, parseResponse (pageWith twoCookies) = some resp ∧
      ¬ Survives (pageWith twoCookies) (resp.serialize false) := by
  obtain ⟨resp, parsed, lost⟩ := (Option.any_eq_true _ _).mp
    (show (parseResponse (pageWith twoCookies)).any (fun resp =>
      linesOf (resp.serialize false) (bytes "set-cookie") !=
        linesOf (pageWith twoCookies) (bytes "set-cookie")) = true by decide +kernel)
  refine ⟨resp, parsed, fun survives => ?_⟩
  rw [survives.endToEnd _ (by decide +kernel), bne_self_eq_false] at lost
  cases lost

/-- One cookie, a foreign length and a foreign connection. -/
def oneCookie : List (ByteString × ByteString) :=
  [(bytes "Set-Cookie", bytes "a=1"), (bytes "content-length", bytes "9"),
    (bytes "Connection", bytes "close")]

/-- One cookie survives, and the proxy writes its own length and connection. -/
theorem survives_oneCookie :
    ∃ resp, parseResponse (pageWith oneCookie) = some resp ∧
      Survives (pageWith oneCookie) (resp.serialize true) := by
  obtain ⟨resp, parsed⟩ := Option.isSome_iff_exists.mp
    (show (parseResponse (pageWith oneCookie)).isSome = true by decide +kernel)
  exact ⟨resp, parsed, (survives_iff parsed true).mpr
    (Orderly.of_distinct (by decide +kernel) (by decide +kernel))⟩

end EdgeCache

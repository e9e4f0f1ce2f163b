import EdgeCache.Bytes

/-!
# HTTP messages

The message types of the proxy and the small string functions around them.

`Headers` is the source's `std::map` ordered by `CaseInsensitiveLess`: a list of
name/value pairs whose names strictly increase once lowered, so two spellings of
one name cannot both be present.  The order is a field of the structure; every
header map that can be built is a possible state of the source's map.
Assigning to a present name keeps the stored spelling and replaces the value,
as `operator[]` does.
-/

namespace EdgeCache

/-! ## Header maps -/

/-- `CaseInsensitiveLess`: lexicographic order of the lowered bytes. -/
def CaseInsensitiveLess (a b : ByteString) : Prop := lower a < lower b

instance (a b : ByteString) : Decidable (CaseInsensitiveLess a b) :=
  inferInstanceAs (Decidable (lower a < lower b))

/-- Two names neither of which is less denote the same header. -/
theorem lower_eq_of_not_less {a b : ByteString} (ab : ¬ CaseInsensitiveLess a b)
    (ba : ¬ CaseInsensitiveLess b a) : lower a = lower b :=
  List.le_antisymm (List.not_lt.mp ba) (List.not_lt.mp ab)

/-- `operator[]` assignment on the underlying ordered pairs. -/
def insertEntry (name value : ByteString) :
    List (ByteString × ByteString) → List (ByteString × ByteString)
  | [] => [(name, value)]
  | (n, v) :: rest =>
      if CaseInsensitiveLess name n then (name, value) :: (n, v) :: rest
      else if CaseInsensitiveLess n name then (n, v) :: insertEntry name value rest
      else (n, value) :: rest

theorem mem_insertEntry {name value : ByteString} {l : List (ByteString × ByteString)}
    {e : ByteString × ByteString} (mem : e ∈ insertEntry name value l) :
    (lower e.1 = lower name ∧ e.2 = value) ∨ e ∈ l := by
  induction l with
  | nil => left; simp_all [insertEntry]
  | cons head rest ih =>
      obtain ⟨n, v⟩ := head
      rw [insertEntry] at mem
      split at mem
      · rcases List.mem_cons.mp mem with rfl | old
        · exact Or.inl ⟨rfl, rfl⟩
        · exact Or.inr old
      · rename_i notBefore
        split at mem
        · rcases List.mem_cons.mp mem with rfl | later
          · exact Or.inr (by simp)
          · exact (ih later).imp_right (List.mem_cons_of_mem _)
        · rename_i notAfter
          rcases List.mem_cons.mp mem with rfl | old
          · exact Or.inl ⟨(lower_eq_of_not_less notBefore notAfter).symm, rfl⟩
          · exact Or.inr (List.mem_cons_of_mem _ old)

/-- An assignment brings in its name or keeps one, and brings in its value or keeps one. -/
theorem name_value_of_mem_insertEntry {name value : ByteString}
    {l : List (ByteString × ByteString)} {e : ByteString × ByteString}
    (mem : e ∈ insertEntry name value l) :
    (e.1 = name ∨ ∃ old ∈ l, e.1 = old.1) ∧ (e.2 = value ∨ ∃ old ∈ l, e.2 = old.2) := by
  induction l with
  | nil => simp_all [insertEntry]
  | cons head rest ih =>
      obtain ⟨n, v⟩ := head
      rw [insertEntry] at mem
      split at mem
      · rcases List.mem_cons.mp mem with rfl | old
        · exact ⟨Or.inl rfl, Or.inl rfl⟩
        · exact ⟨Or.inr ⟨e, old, rfl⟩, Or.inr ⟨e, old, rfl⟩⟩
      · split at mem
        · rcases List.mem_cons.mp mem with rfl | later
          · exact ⟨Or.inr ⟨_, List.mem_cons_self, rfl⟩, Or.inr ⟨_, List.mem_cons_self, rfl⟩⟩
          · obtain ⟨names, values⟩ := ih later
            exact ⟨names.imp_right fun ⟨old, there, same⟩ =>
                ⟨old, List.mem_cons_of_mem _ there, same⟩,
              values.imp_right fun ⟨old, there, same⟩ =>
                ⟨old, List.mem_cons_of_mem _ there, same⟩⟩
        · rcases List.mem_cons.mp mem with rfl | old
          · exact ⟨Or.inr ⟨(n, v), List.mem_cons_self, rfl⟩, Or.inl rfl⟩
          · exact ⟨Or.inr ⟨e, List.mem_cons_of_mem _ old, rfl⟩,
              Or.inr ⟨e, List.mem_cons_of_mem _ old, rfl⟩⟩

/-- Assignment keeps the names strictly increasing. -/
theorem insertEntry_sorted (name value : ByteString) {l : List (ByteString × ByteString)}
    (sorted : l.Pairwise fun a b => CaseInsensitiveLess a.1 b.1) :
    (insertEntry name value l).Pairwise fun a b => CaseInsensitiveLess a.1 b.1 := by
  induction l with
  | nil => simp [insertEntry]
  | cons head rest ih =>
      obtain ⟨n, v⟩ := head
      obtain ⟨headLess, restSorted⟩ := List.pairwise_cons.mp sorted
      rw [insertEntry]
      split
      · rename_i before
        refine List.pairwise_cons.mpr ⟨fun e mem => ?_, sorted⟩
        rcases List.mem_cons.mp mem with rfl | later
        · exact before
        · exact List.lt_trans before (headLess e later)
      · rename_i notBefore
        split
        · rename_i after
          refine List.pairwise_cons.mpr ⟨fun e mem => ?_, ih restSorted⟩
          rcases mem_insertEntry mem with ⟨same, -⟩ | old
          · simpa [CaseInsensitiveLess, same] using after
          · exact headLess e old
        · exact List.pairwise_cons.mpr ⟨headLess, restSorted⟩

/-- `Headers`: a map from header names, compared without case, to values. -/
structure Headers where
  entries : List (ByteString × ByteString)
  sorted : entries.Pairwise fun a b => CaseInsensitiveLess a.1 b.1
  deriving DecidableEq

namespace Headers

@[ext] theorem ext {h h' : Headers} (same : h.entries = h'.entries) : h = h' := by
  cases h; cases h'; simp_all

/-- The default-constructed map. -/
def empty : Headers := ⟨[], List.Pairwise.nil⟩

/-- `headers[name] = value`. -/
def insert (h : Headers) (name value : ByteString) : Headers :=
  ⟨insertEntry name value h.entries, insertEntry_sorted name value h.sorted⟩

/-- `headers.find(name)`, answering the value. -/
def find? (h : Headers) (name : ByteString) : Option ByteString :=
  (h.entries.find? fun e => lower e.1 = lower name).map Prod.snd

/-- `headers.count(name) != 0`. -/
def contains (h : Headers) (name : ByteString) : Bool := (h.find? name).isSome

@[simp] theorem find?_empty (name : ByteString) : empty.find? name = none := rfl

theorem find?_insertEntry (name value query : ByteString)
    (l : List (ByteString × ByteString)) :
    ((insertEntry name value l).find? fun e => lower e.1 = lower query).map Prod.snd =
      if lower name = lower query then some value
      else (l.find? fun e => lower e.1 = lower query).map Prod.snd := by
  induction l with
  | nil => by_cases same : lower name = lower query <;> simp [insertEntry, same]
  | cons head rest ih =>
      obtain ⟨n, v⟩ := head
      rw [insertEntry]
      split
      · by_cases same : lower name = lower query <;> simp [same]
      · rename_i notBefore
        split
        · rename_i after
          by_cases here : lower n = lower query
          · have other : lower name ≠ lower query := fun same => by
              rw [CaseInsensitiveLess, here, same] at after
              exact List.lt_irrefl _ after
            simp [here, other]
          · simpa [here] using ih
        · rename_i notAfter
          have same := lower_eq_of_not_less notBefore notAfter
          by_cases here : lower n = lower query <;> simp [same, here]

/-- What a lookup sees after an assignment. -/
theorem find?_insert (h : Headers) (name value query : ByteString) :
    (h.insert name value).find? query =
      if lower name = lower query then some value else h.find? query :=
  find?_insertEntry name value query h.entries

theorem find?_insert_self (h : Headers) (name value : ByteString) :
    (h.insert name value).find? name = some value := by
  rw [find?_insert, if_pos rfl]

theorem find?_insert_of_ne (h : Headers) {name query : ByteString} (value : ByteString)
    (other : lower name ≠ lower query) : (h.insert name value).find? query = h.find? query := by
  rw [find?_insert, if_neg other]

/-- The map a list of assignments builds, in order. -/
def ofList (pairs : List (ByteString × ByteString)) : Headers :=
  pairs.foldl (fun h e => h.insert e.1 e.2) empty

theorem insertEntry_of_less {name value : ByteString} {l : List (ByteString × ByteString)}
    (less : ∀ e ∈ l, CaseInsensitiveLess e.1 name) :
    insertEntry name value l = l ++ [(name, value)] := by
  induction l with
  | nil => rfl
  | cons head rest ih =>
      have first : CaseInsensitiveLess head.1 name := less head List.mem_cons_self
      have notBefore : ¬ CaseInsensitiveLess name head.1 := List.lt_asymm first
      rw [insertEntry, if_neg notBefore, if_pos first,
        ih fun e later => less e (List.mem_cons_of_mem _ later), List.cons_append]

/-- Assigning further names in increasing order appends them. -/
theorem entries_foldl_insert {l : List (ByteString × ByteString)} {h : Headers}
    (sorted : (h.entries ++ l).Pairwise fun a b => CaseInsensitiveLess a.1 b.1) :
    (l.foldl (fun h e => h.insert e.1 e.2) h).entries = h.entries ++ l := by
  induction l generalizing h with
  | nil => simp
  | cons e l ih =>
      have less : ∀ a ∈ h.entries, CaseInsensitiveLess a.1 e.1 := fun a mem =>
        (List.pairwise_append.mp sorted).2.2 a mem e List.mem_cons_self
      have grown : (h.insert e.1 e.2).entries = h.entries ++ [e] := insertEntry_of_less less
      rw [List.foldl_cons, ih (by rwa [grown, List.append_assoc]), grown, List.append_assoc,
        List.singleton_append]

/-- **A map is rebuilt by assigning its entries in order.** -/
theorem ofList_entries (h : Headers) : ofList h.entries = h :=
  Headers.ext (entries_foldl_insert h.sorted)

end Headers

/-! ## String helpers of `Http.cpp` -/

/-- A blank of `find_first_not_of(" \t")`. -/
def isBlank (c : UInt8) : Bool := c == SP || c == TAB

/-- A blank of `find_last_not_of(" \t\r")`. -/
def isBlankCR (c : UInt8) : Bool := isBlank c || c == CR

/-- `trim`: cut blanks in front, blanks and carriage returns behind.

Where every byte after the leading blanks is a blank or a carriage return,
`find_last_not_of` answers `npos` and the length `npos - b + 1` wraps: it is `0`
only for `b = 0`, and otherwise so large that the rest is kept whole. -/
def trim (s : ByteString) : ByteString :=
  let rest := s.dropWhile isBlank
  let core := rest.rdropWhile isBlankCR
  if core = [] then (if rest.length = s.length then [] else rest) else core

/-- `iequals`. -/
def iequals (a b : ByteString) : Bool := lower a == lower b

/-- Drop one trailing carriage return (`line.pop_back()`). -/
def popCR (line : ByteString) : ByteString :=
  if line.getLast? = some CR then line.dropLast else line

/-- A string that starts with no blank and ends with no blank and no carriage
return, as `trim` leaves it. -/
def Trimmed (s : ByteString) : Prop :=
  (∀ c ∈ s.head?, isBlank c = false) ∧ (∀ c ∈ s.getLast?, isBlankCR c = false)

instance (s : ByteString) : Decidable (Trimmed s) :=
  inferInstanceAs (Decidable (_ ∧ _))

/-- A trimmed string is left alone, whatever blanks stand in front of it. -/
theorem trim_append_of_trimmed (blanks : ByteString) {s : ByteString}
    (blank : ∀ c ∈ blanks, isBlank c = true) (trimmed : Trimmed s) :
    trim (blanks ++ s) = s := by
  have front : (blanks ++ s).dropWhile isBlank = s := by
    rw [List.dropWhile_append_of_pos blank]
    cases s with
    | nil => rfl
    | cons c rest => exact List.dropWhile_cons_of_neg (by simp [trimmed.1 c (by simp)])
  have back : s.rdropWhile isBlankCR = s := by
    refine List.rdropWhile_eq_self_iff.mpr fun nonempty => ?_
    simp [trimmed.2 _ (List.getLast?_eq_getLast_of_ne_nil nonempty)]
  by_cases nonempty : s = []
  · subst nonempty
    have : blanks.dropWhile isBlank = [] := by simpa using front
    simp [trim, this]
  · simp [trim, front, back, nonempty]

theorem trim_of_trimmed {s : ByteString} (trimmed : Trimmed s) : trim s = s :=
  trim_append_of_trimmed [] (by simp) trimmed

theorem mem_of_mem_trim {s : ByteString} {c : UInt8} (mem : c ∈ trim s) : c ∈ s := by
  have rest : ∀ c ∈ s.dropWhile isBlank, c ∈ s := fun c mem =>
    (List.dropWhile_suffix isBlank).subset mem
  unfold trim at mem
  simp only at mem
  split at mem
  · split at mem
    · cases mem
    · exact rest c mem
  · exact rest c ((List.rdropWhile_prefix isBlankCR _).subset mem)

/-- What `trim` keeps although all of it is blank: a rest that starts with a carriage
return. -/
structure BlankRest (s : ByteString) : Prop where
  starts : s.head? = some CR
  blank : ∀ c ∈ s, isBlankCR c = true

/-- `trim` leaves a trimmed string or a blank rest. -/
theorem trimmed_or_blankRest (s : ByteString) : Trimmed (trim s) ∨ BlankRest (trim s) := by
  have front : ∀ c ∈ (s.dropWhile isBlank).head?, isBlank c = false := fun c first => by
    have := List.head?_dropWhile_not isBlank s
    rw [Option.mem_def.mp first] at this
    exact this
  by_cases core : (s.dropWhile isBlank).rdropWhile isBlankCR = []
  · have blank := List.rdropWhile_eq_nil_iff.mp core
    by_cases same : (s.dropWhile isBlank).length = s.length
    · simp [trim, core, same, Trimmed]
    · cases rest : s.dropWhile isBlank with
      | nil => simp [trim, rest, Trimmed]
      | cons c more =>
          rw [rest] at front blank same
          have kept : trim s = c :: more := by
            rw [trim, rest, List.rdropWhile_eq_nil_iff.mpr blank, if_pos rfl, if_neg same]
          have first := front c rfl
          have ends := blank c List.mem_cons_self
          rw [isBlankCR, first, Bool.false_or, beq_iff_eq] at ends
          exact Or.inr ⟨by rw [kept, ends]; rfl, by rw [kept]; exact blank⟩
  · left
    have kept : trim s = (s.dropWhile isBlank).rdropWhile isBlankCR := by
      rw [trim, if_neg core]
    rw [kept]
    refine ⟨fun c first => front c ?_, fun c last => ?_⟩
    · obtain ⟨tail, whole⟩ := List.rdropWhile_prefix isBlankCR (s.dropWhile isBlank)
      rw [← whole]
      exact List.head?_append_of_ne_nil _ core ▸ first
    · have := List.rdropWhile_last_not isBlankCR (s.dropWhile isBlank) core
      rw [List.getLast?_eq_getLast_of_ne_nil core] at last
      rw [← Option.some.inj last]
      simpa using this

/-- Blanks in front of a trimmed string go away again. -/
theorem trim_cons_SP_trim (s : ByteString) : trim (SP :: trim s) = trim s := by
  rcases trimmed_or_blankRest s with trimmed | ⟨starts, blank⟩
  · exact trim_append_of_trimmed [SP] (by simp [isBlank]) trimmed
  · obtain ⟨more, rest⟩ := List.head?_eq_some_iff.mp starts
    have front : (SP :: trim s).dropWhile isBlank = trim s := by
      rw [List.dropWhile_cons_of_pos (by decide), rest]
      exact List.dropWhile_cons_of_neg (by decide)
    rw [trim, front, List.rdropWhile_eq_nil_iff.mpr blank, if_pos rfl, if_neg (by simp)]

/-- Trimming twice is trimming once, unless a blank rest vanishes. -/
theorem trim_trim (s : ByteString) :
    trim (trim s) = trim s ∨ (trim (trim s) = [] ∧ (trim s).head? = some CR) := by
  rcases trimmed_or_blankRest s with trimmed | ⟨starts, blank⟩
  · exact Or.inl (trim_of_trimmed trimmed)
  · obtain ⟨more, rest⟩ := List.head?_eq_some_iff.mp starts
    have front : (trim s).dropWhile isBlank = trim s := by
      rw [rest]
      exact List.dropWhile_cons_of_neg (by decide)
    refine Or.inr ⟨?_, starts⟩
    rw [trim, front, List.rdropWhile_eq_nil_iff.mpr blank, if_pos rfl, if_pos rfl]

theorem popCR_append (line : ByteString) : popCR (line ++ [CR]) = line := by
  simp [popCR]

theorem mem_of_mem_popCR {line : ByteString} {c : UInt8} (mem : c ∈ popCR line) : c ∈ line := by
  unfold popCR at mem
  split at mem
  · exact List.mem_of_mem_dropLast mem
  · exact mem

/-! ## Messages -/

/-- `HttpRequest`. -/
structure HttpRequest where
  method : ByteString
  target : ByteString
  version : ByteString
  headers : Headers
  body : ByteString
  path : ByteString
  query : ByteString
  deriving DecidableEq

/-- `HttpRequest::isCacheableMethod`. -/
def HttpRequest.isCacheableMethod (r : HttpRequest) : Bool :=
  r.method == bytes "GET" || r.method == bytes "HEAD"

/-- `HttpResponse`. -/
structure HttpResponse where
  status : Int32
  reason : ByteString
  version : ByteString
  headers : Headers
  body : ByteString
  deriving DecidableEq

namespace HttpResponse

/-- A default-constructed `HttpResponse`: `200 OK` with an empty body. -/
def default : HttpResponse where
  status := 200
  reason := bytes "OK"
  version := bytes "HTTP/1.1"
  headers := Headers.empty
  body := []

/-- `HttpResponse::header`, with the empty default. -/
def header (r : HttpResponse) (name : ByteString) : ByteString :=
  (r.headers.find? name).getD []

/-- `HttpResponse::simple`, for the non-empty reasons the proxy passes. -/
def simple (status : Int32) (reason body : ByteString) : HttpResponse :=
  { default with
    status := status
    reason := reason
    headers := Headers.empty.insert (bytes "Content-Type") (bytes "text/plain")
    body := body }

/-- `resp.headers[name] = value`. -/
def setHeader (r : HttpResponse) (name value : ByteString) : HttpResponse :=
  { r with headers := r.headers.insert name value }

@[simp] theorem setHeader_status (r : HttpResponse) (name value : ByteString) :
    (r.setHeader name value).status = r.status := rfl

@[simp] theorem setHeader_reason (r : HttpResponse) (name value : ByteString) :
    (r.setHeader name value).reason = r.reason := rfl

@[simp] theorem setHeader_body (r : HttpResponse) (name value : ByteString) :
    (r.setHeader name value).body = r.body := rfl

/-- What a header lookup sees after an assignment. -/
theorem header_setHeader (r : HttpResponse) (name value query : ByteString) :
    (r.setHeader name value).header query =
      if lower name = lower query then value else r.header query := by
  rw [header, setHeader, Headers.find?_insert]
  split <;> rfl

end HttpResponse

end EdgeCache

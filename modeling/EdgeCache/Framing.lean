import EdgeCache.RequestParser

/-!
# Request framing

Where the body of a request ends is decided by its `Content-Length` lines.  The
framing law asks that a completed request carries exactly the bytes its header
block declares, in every one of those lines, and that a block whose lines are
malformed or disagree is an error.

`parse` decides the same question with the last line of the name before the
first empty line, with `std::stoull`, and modulo `2^64`.  This module compares
the two: `framing_iff` gives the exact buffers on which the law holds.

* `fieldValues` — the values of all lines of a name, and
  `visibleLines` — the header lines `parse` looks at.
* `find?_readHeaders` — **the last visible line wins**.
* `parseHead_eq_some_iff` — acceptance of a header block in these terms.
-/

namespace EdgeCache

open Scan

/-! ## The lines of a header block -/

/-- The header lines of a block: all lines after the request line. -/
def headerLines (block : ByteString) : List ByteString :=
  ((lines LF block).tail).map popCR

/-- The header lines before the first empty one. -/
def visibleLines (block : ByteString) : List ByteString :=
  (headerLines block).takeWhile fun line => line ≠ []

/-- The values, in order, of the lines that carry the header `name`. -/
def fieldValues (name : ByteString) (headers : List ByteString) : List ByteString :=
  ((headers.filterMap headerField).filter fun field => lower field.1 = lower name).map Prod.snd

theorem fieldValues_cons_none {name line : ByteString} {rest : List ByteString}
    (noField : headerField line = none) :
    fieldValues name (line :: rest) = fieldValues name rest := by
  simp [fieldValues, noField]

theorem fieldValues_cons_some {name line n v : ByteString} {rest : List ByteString}
    (field : headerField line = some (n, v)) :
    fieldValues name (line :: rest) =
      if lower n = lower name then v :: fieldValues name rest else fieldValues name rest := by
  by_cases same : lower n = lower name <;> simp [fieldValues, field, same]

/-- The visible lines are among the lines. -/
theorem visible_subset (name block : ByteString) :
    fieldValues name (visibleLines block) ⊆ fieldValues name (headerLines block) := by
  have cut := List.takeWhile_prefix (l := headerLines block) fun line => line ≠ []
  exact (((cut.sublist.filterMap headerField).filter _).map Prod.snd).subset

/-- **The last visible line wins.**  What the map holds under a name after the
header loop is the value of the last line of that name before the first empty
line, or what it held before. -/
theorem find?_readHeaders (name : ByteString) (block : List ByteString) (headers : Headers) :
    (readHeaders block headers).find? name =
      ((fieldValues name ((block.map popCR).takeWhile fun line => line ≠ [])).getLast?).or
        (headers.find? name) := by
  induction block generalizing headers with
  | nil => simp [readHeaders, fieldValues]
  | cons line rest ih =>
      by_cases empty : popCR line = []
      · simp [readHeaders, empty, fieldValues]
      · rw [readHeaders, if_neg empty, List.map_cons,
          List.takeWhile_cons_of_pos (by simpa using empty)]
        cases field : headerField (popCR line) with
        | none => rw [fieldValues_cons_none field]; exact ih headers
        | some entry =>
            obtain ⟨n, v⟩ := entry
            rw [fieldValues_cons_some field]
            refine (ih _).trans ?_
            rw [Headers.find?_insert]
            by_cases same : lower n = lower name
            · simp only [same, if_true]
              cases fieldValues name ((rest.map popCR).takeWhile fun line => line ≠ []) with
              | nil => rfl
              | cons v' more => simp [List.getLast?_cons]
            · simp only [same, if_false]

/-- The `Content-Length` value `parse` acts on. -/
def effectiveLength (block : ByteString) : Option ByteString :=
  (fieldValues (bytes "Content-Length") (visibleLines block)).getLast?

/-- `parse` refuses the block: it has no request line of three words, it shows a
`Transfer-Encoding` line, or the effective `Content-Length` value makes
`std::stoull` throw. -/
def Refused (block : ByteString) : Prop :=
  (∀ line ∈ (lines LF block).head?, readRequestLine (popCR line) = none) ∨
    fieldValues (bytes "Transfer-Encoding") (visibleLines block) ≠ [] ∨
    ∃ value, effectiveLength block = some value ∧ stoull value = none

/-- The declared body length of an accepted block. -/
def declaredLength (block : ByteString) : Option UInt64 := lengthValue (effectiveLength block)

theorem bodyLength_readHeaders (line : ByteString) (rest : List ByteString) {block : ByteString}
    (split : lines LF block = line :: rest) :
    bodyLength (readHeaders rest Headers.empty) = declaredLength block := by
  have found := find?_readHeaders (bytes "Content-Length") rest Headers.empty
  rw [Headers.find?_empty, Option.or_none] at found
  rw [bodyLength, found, declaredLength, effectiveLength, visibleLines, headerLines, split,
    List.tail_cons]

theorem contains_readHeaders (line : ByteString) (rest : List ByteString) {block : ByteString}
    (split : lines LF block = line :: rest) (name : ByteString) :
    (readHeaders rest Headers.empty).contains name = true ↔
      fieldValues name (visibleLines block) ≠ [] := by
  have found := find?_readHeaders name rest Headers.empty
  rw [Headers.find?_empty, Option.or_none] at found
  rw [Headers.contains, found, visibleLines, headerLines, split, List.tail_cons,
    List.getLast?_isSome]

/-- A block is refused exactly when `parseHead` answers nothing. -/
theorem parseHead_eq_none_iff {block : ByteString} : parseHead block = none ↔ Refused block := by
  cases split : lines LF block with
  | nil => simp [parseHead, Refused, split]
  | cons line rest =>
      have encoding := contains_readHeaders line rest split (bytes "Transfer-Encoding")
      have length := bodyLength_readHeaders line rest split
      have declared : declaredLength block = none ↔
          ∃ value, effectiveLength block = some value ∧ stoull value = none := by
        cases effective : effectiveLength block <;> simp [declaredLength, lengthValue, effective]
      cases request : readRequestLine (popCR line) with
      | none => simp [parseHead, Refused, split, request]
      | some words =>
          obtain ⟨method, target, version⟩ := words
          simp only [parseHead, split, request, Refused, List.head?_cons, Option.mem_some_iff,
            forall_eq', reduceCtorEq, false_or, length]
          by_cases encoded : fieldValues (bytes "Transfer-Encoding") (visibleLines block) ≠ []
          · simp [encoding.mpr encoded, encoded]
          · simp [encoding.not.mpr encoded, encoded, declared]

/-- The body length of an accepted block is the one its effective line declares. -/
theorem declaredLength_of_accepted {block : ByteString} {out : HttpRequest} {bodyLen : UInt64}
    (accepted : parseHead block = some (out, bodyLen)) :
    declaredLength block = some bodyLen := by
  obtain ⟨line, rest, split, -, fields, -, length, -⟩ := parseHead_eq_some accepted
  rw [← bodyLength_readHeaders line rest split, ← fields]
  exact length

/-! ## The framing law -/

/-- The `Content-Length` lines of a block agree on `n`: there is none and `n = 0`,
or every one is a decimal numeral that denotes `n`. -/
def Declares (block : ByteString) (n : ℕ) : Prop :=
  let values := fieldValues (bytes "Content-Length") (headerLines block)
  (values = [] ∧ n = 0) ∨ (values ≠ [] ∧ ∀ value ∈ values, IsDecimal value ∧ decimalValue value = n)

/-- Lines that agree do so on one number. -/
theorem Declares.unique {block : ByteString} {n m : ℕ} (one : Declares block n)
    (two : Declares block m) : n = m := by
  rcases one with ⟨none, rfl⟩ | ⟨some, all⟩
  · rcases two with ⟨-, rfl⟩ | ⟨some, -⟩
    · rfl
    · exact absurd none some
  · rcases two with ⟨none, -⟩ | ⟨-, all'⟩
    · exact absurd none some
    · obtain ⟨value, mem⟩ := List.exists_mem_of_ne_nil _ some
      rw [← (all value mem).2, (all' value mem).2]

/-- **The framing law** for one buffer. -/
def FramesExactly (buffer : ByteString) : Prop :=
  (∀ out rest, parse buffer = .complete out rest →
    ∃ h n, find buffer headerTerminator = some h ∧ Declares (buffer.take h) n ∧
      out.body = (buffer.drop (h + 4)).take n ∧ out.body.length = n ∧
      rest = buffer.drop (h + 4 + n)) ∧
  ∀ h, find buffer headerTerminator = some h → (¬ ∃ n, Declares (buffer.take h) n) →
    parse buffer = .error

/-- The buffers on which `parse` obeys the law: it has no complete header block,
or the block is refused, or its `Content-Length` lines agree on a number `n` whose
offset `h + 4 + n` does not wrap, and a positive `n` is declared before the first
empty line. -/
def FramingSafe (buffer : ByteString) : Prop :=
  ∀ h, find buffer headerTerminator = some h → Refused (buffer.take h) ∨
    ∃ n, Declares (buffer.take h) n ∧ h + 4 + n < 2 ^ 64 ∧
      (n = 0 ∨ effectiveLength (buffer.take h) ≠ none)

/-- On an accepted block whose lines agree on `n`, `parse` uses `n` unless it is
positive and declared only behind an empty line. -/
theorem declaredLength_of_declares {block : ByteString} {n : ℕ} {bodyLen : UInt64}
    (declares : Declares block n) (visible : n = 0 ∨ effectiveLength block ≠ none)
    (declared : declaredLength block = some bodyLen) : bodyLen.toNat = n := by
  cases effective : effectiveLength block with
  | none =>
      have zero : n = 0 := visible.resolve_right fun shown => shown effective
      simp only [declaredLength, lengthValue, effective] at declared
      cases declared
      exact zero.symm
  | some value =>
      have mem : value ∈ fieldValues (bytes "Content-Length") (headerLines block) :=
        visible_subset _ _ (List.mem_of_getLast? effective)
      rcases declares with ⟨none, -⟩ | ⟨-, all⟩
      · rw [none] at mem; cases mem
      · obtain ⟨decimal, rfl⟩ := all value mem
        simp only [declaredLength, lengthValue, effective, stoull_of_isDecimal decimal] at declared
        split at declared
        · rename_i fits
          cases declared
          rw [UInt64.toNat_ofNat', Nat.mod_eq_of_lt fits]
        · cases declared

/-- **Exact framing.**  On a buffer of representable size, `parse` obeys the
framing law exactly when the buffer is `FramingSafe`. -/
theorem framing_iff {buffer : ByteString} (size : buffer.length < 2 ^ 64) :
    FramesExactly buffer ↔ FramingSafe buffer := by
  constructor
  · rintro ⟨exact_, malformed⟩ h found
    by_cases refused : Refused (buffer.take h)
    · exact Or.inl refused
    · right
      have accepted := mt parseHead_eq_none_iff.mp refused
      obtain ⟨⟨out, bodyLen⟩, head⟩ := Option.ne_none_iff_exists'.mp accepted
      have long := headerEnd_add_four_le found
      have declared := declaredLength_of_accepted head
      have agree : ∃ n, Declares (buffer.take h) n := by
        by_contra disagree
        have failed := malformed h found disagree
        rw [parse_of_accepted found head] at failed
        split at failed <;> cases failed
      obtain ⟨n, declares⟩ := agree
      -- Wherever the call completes, the law ties `n` to the bytes cut off.
      have cut : (totalLength h bodyLen).toNat ≤ buffer.length →
          ((buffer.drop (h + 4)).take bodyLen.toNat).length = n := by
        intro fits
        obtain ⟨h', n', found', declares', -, bodySize, -⟩ := exact_ _ _
          (parse_eq_complete_iff.mpr ⟨h, out, bodyLen, found, head, fits, rfl, rfl⟩)
        cases found.symm.trans found'
        rw [declares.unique declares']
        exact bodySize
      rw [List.length_take, List.length_drop, totalLength_toNat] at cut
      have visible : n = 0 ∨ effectiveLength (buffer.take h) ≠ none := by
        by_contra hidden
        obtain ⟨positive, behind⟩ := not_or.mp hidden
        rw [not_not] at behind
        simp only [declaredLength, lengthValue, behind] at declared
        cases declared
        have : (0 : UInt64).toNat = 0 := rfl
        omega
      have same := declaredLength_of_declares declares visible declared
      refine ⟨n, declares, ?_, visible⟩
      have bound := bodyLen.toNat_lt
      by_contra wraps
      omega
  · intro safe
    constructor
    · intro out rest complete
      obtain ⟨h, head, bodyLen, found, accepted, fits, rfl, rfl⟩ :=
        parse_eq_complete_iff.mp complete
      have declared := declaredLength_of_accepted accepted
      rcases safe h found with refused | ⟨n, declares, inside, visible⟩
      · rw [parseHead_eq_none_iff.mpr refused] at accepted
        cases accepted
      · have same := declaredLength_of_declares declares visible declared
        subst same
        rw [totalLength_of_lt inside] at fits ⊢
        refine ⟨h, _, found, declares, rfl, ?_, rfl⟩
        rw [List.length_take, List.length_drop]
        omega
    · intro h found disagree
      rcases safe h found with refused | ⟨n, declares, -⟩
      · exact parse_of_rejected found (parseHead_eq_none_iff.mpr refused)
      · exact absurd ⟨n, declares⟩ disagree

/-- The law at a well-formed length. -/
theorem framing_post_five :
    FramesExactly (bytes "POST / HTTP/1.1\r\nContent-Length: 5\r\n\r\nhello") := by
  refine (framing_iff (by decide +kernel)).mpr fun h found => ?_
  have first : find (bytes "POST / HTTP/1.1\r\nContent-Length: 5\r\n\r\nhello")
      headerTerminator = some 34 := by decide +kernel
  cases first.symm.trans found
  exact Or.inr ⟨5, Or.inr (by decide +kernel), by decide +kernel, Or.inr (by decide +kernel)⟩

/-- Two `Content-Length` lines that disagree: `parse` completes with the last. -/
def disagreeingLengths : ByteString :=
  bytes "POST / HTTP/1.1\r\nContent-Length: 9\r\nContent-Length: 5x\r\n\r\nhelloGET "

/-- The law fails there: the block declares no single length, and the call
completes. -/
theorem not_framesExactly_disagreeingLengths : ¬ FramesExactly disagreeingLengths := by
  rintro ⟨-, malformed⟩
  have found : find disagreeingLengths headerTerminator = some 54 := by decide +kernel
  have failed := malformed 54 found (by
    rintro ⟨n, ⟨none, -⟩ | ⟨-, all⟩⟩
    · exact absurd none (by decide +kernel)
    · exact absurd (all (bytes "5x") (by decide +kernel)).1 (by decide +kernel))
  have completes : parse disagreeingLengths ≠ .error := by decide +kernel
  exact completes failed

end EdgeCache

import Mathlib

/-!
# UTF-8 into UTF-16

How a byte string becomes a string of UTF-16 code units, as a lenient decoder does it:
every ill-formed sequence becomes one replacement character, and a byte that cannot
continue a character is looked at again as the first of one.

* `decode_append` — an ASCII byte is a boundary: what is before it and what is after it
  are decoded apart.
* `mem_of_mem_decode` — the decoder invents no ASCII: overlong sequences are ill-formed.
* `decode_of_ascii` — ASCII decodes to itself.

The way back is `encode`; on ASCII it undoes `decode` (`encode_decode_of_ascii`).  What was
encoded is decoded unit by unit, a surrogate alone to U+FFFD (`decode_encode_append`), so that
a start of the bytes is a start of the units exactly if it is well-formed (`prefix_decode_iff`).
-/

namespace EdgeCache.Utf8

/-- An ASCII byte string. -/
def Ascii (s : List UInt8) : Prop := ∀ b ∈ s, b < 0x80

instance (s : List UInt8) : Decidable (Ascii s) :=
  inferInstanceAs (Decidable (∀ b ∈ s, b < 0x80))

/-- U+FFFD. -/
abbrev REPLACEMENT : UInt16 := 0xFFFD

/-- The code units of a code point. -/
def units (point : ℕ) : List UInt16 :=
  if point < 0x10000 then [point.toUInt16]
  else [(0xD800 + (point - 0x10000) / 0x400 % 0x400).toUInt16,
    (0xDC00 + (point - 0x10000) % 0x400).toUInt16]

/-- The inside of a character: the bits read so far, the range its next byte must be in, and
how many bytes follow that one.  No character that comes out of it is ASCII. -/
structure Pending where
  bits : ℕ
  low : UInt8
  high : UInt8
  more : ℕ
  continues : 0x80 ≤ low.toNat
  large : 0x80 ≤ (bits * 64 + (low.toNat - 0x80)) * 64 ^ more

/-- The first byte of a character. -/
def lead (b : UInt8) : List UInt16 × Option Pending :=
  if b < 0x80 then ([b.toUInt16], none)
  else if two : 0xC2 ≤ b.toNat ∧ b.toNat ≤ 0xDF then
    ([], some ⟨b.toNat - 0xC0, 0x80, 0xBF, 0, by decide, by simp; omega⟩)
  else if b = 0xE0 then ([], some ⟨0, 0xA0, 0xBF, 1, by decide, by decide⟩)
  else if three : 0xE1 ≤ b.toNat ∧ b.toNat ≤ 0xEF then
    ([], some ⟨b.toNat - 0xE0, 0x80, if b = 0xED then 0x9F else 0xBF, 1, by decide,
      by simp; omega⟩)
  else if b = 0xF0 then ([], some ⟨0, 0x90, 0xBF, 2, by decide, by decide⟩)
  else if four : 0xF1 ≤ b.toNat ∧ b.toNat ≤ 0xF4 then
    ([], some ⟨b.toNat - 0xF0, 0x80, if b = 0xF4 then 0x8F else 0xBF, 2, by decide,
      by simp; omega⟩)
  else ([REPLACEMENT], none)

/-- A byte that continues a character. -/
def Pending.take (p : Pending) (b : UInt8) (above : p.low ≤ b) : List UInt16 × Option Pending :=
  match more : p.more with
  | 0 => (units (p.bits * 64 + (b.toNat - 0x80)), none)
  | left + 1 =>
      ([], some ⟨p.bits * 64 + (b.toNat - 0x80), 0x80, 0xBF, left, by decide, by
        have least := p.large
        have bound := UInt8.le_iff_toNat_le.mp above
        rw [more, pow_succ'] at least
        calc 0x80 ≤ (p.bits * 64 + (p.low.toNat - 0x80)) * (64 * 64 ^ left) := least
          _ ≤ (p.bits * 64 + (b.toNat - 0x80)) * (64 * 64 ^ left) := by gcongr
          _ = _ := by simp; ring⟩)

/-- One byte: what comes out, and where it leaves the decoder. -/
def next : Option Pending → UInt8 → List UInt16 × Option Pending
  | none, b => lead b
  | some p, b =>
      if here : p.low ≤ b ∧ b ≤ p.high then p.take b here.1
      else (REPLACEMENT :: (lead b).1, (lead b).2)

/-- Decode from inside a character. -/
def decodeFrom : Option Pending → List UInt8 → List UInt16
  | none, [] => []
  | some _, [] => [REPLACEMENT]
  | q, b :: s => (next q b).1 ++ decodeFrom (next q b).2 s

/-- Decode a byte string. -/
def decode (s : List UInt8) : List UInt16 := decodeFrom none s

/-! ## ASCII bytes are boundaries -/

theorem lead_of_ascii {b : UInt8} (ascii : b < 0x80) : lead b = ([b.toUInt16], none) :=
  if_pos ascii

/-- An ASCII byte ends whatever character is open. -/
theorem next_of_ascii (q : Option Pending) {b : UInt8} (ascii : b < 0x80) :
    next q b = (decodeFrom q [] ++ [b.toUInt16], none) := by
  cases q with
  | none => exact lead_of_ascii ascii
  | some p =>
      have outside : ¬ (p.low ≤ b ∧ b ≤ p.high) := by
        rintro ⟨above, -⟩
        have continues := p.continues
        have small := UInt8.lt_iff_toNat_lt.mp ascii
        have bound := UInt8.le_iff_toNat_le.mp above
        simp only [UInt8.reduceToNat] at small
        omega
      rw [next, dif_neg outside, lead_of_ascii ascii]
      rfl

theorem decodeFrom_cons (q : Option Pending) (b : UInt8) (s : List UInt8) :
    decodeFrom q (b :: s) = (next q b).1 ++ decodeFrom (next q b).2 s := by
  cases q <;> rfl

theorem decodeFrom_append (q : Option Pending) (s : List UInt8) {b : UInt8} (ascii : b < 0x80)
    (t : List UInt8) :
    decodeFrom q (s ++ b :: t) = decodeFrom q s ++ b.toUInt16 :: decode t := by
  induction s generalizing q with
  | nil => simp [decodeFrom_cons, next_of_ascii q ascii, decode]
  | cons a s ih =>
      rw [List.cons_append, decodeFrom_cons, decodeFrom_cons, ih, List.append_assoc]

/-- **An ASCII byte is a boundary.** -/
theorem decode_append (s : List UInt8) {b : UInt8} (ascii : b < 0x80) (t : List UInt8) :
    decode (s ++ b :: t) = decode s ++ b.toUInt16 :: decode t := decodeFrom_append none s ascii t

/-- ASCII in front decodes to itself. -/
theorem decode_ascii_append {s : List UInt8} (ascii : Ascii s) (t : List UInt8) :
    decode (s ++ t) = s.map UInt8.toUInt16 ++ decode t := by
  induction s with
  | nil => rfl
  | cons b s ih =>
      have first : b < 0x80 := ascii b List.mem_cons_self
      rw [List.cons_append, ← List.nil_append (b :: (s ++ t)), decode_append [] first,
        ih fun c mem => ascii c (List.mem_cons_of_mem b mem)]
      rfl

/-- **ASCII decodes to itself.** -/
theorem decode_of_ascii {s : List UInt8} (ascii : Ascii s) :
    decode s = s.map UInt8.toUInt16 := by
  rw [← List.append_nil s, decode_ascii_append ascii]
  simp [decode, decodeFrom]

/-! ## No ASCII is invented -/

/-- A code unit that is not ASCII. -/
def Wide (u : UInt16) : Prop := 0x80 ≤ u.toNat

theorem wide_replacement : Wide REPLACEMENT := by
  unfold Wide
  decide

theorem not_wide_of_ascii {b : UInt8} (ascii : b < 0x80) : ¬ Wide b.toUInt16 := by
  have small := UInt8.lt_iff_toNat_lt.mp ascii
  simp only [UInt8.reduceToNat] at small
  rw [Wide, UInt8.toNat_toUInt16]
  omega

theorem wide_of_mem_units {point : ℕ} (large : 0x80 ≤ point) {u : UInt16}
    (mem : u ∈ units point) : Wide u := by
  unfold units at mem
  unfold Wide
  split at mem
  · rw [List.mem_singleton.mp mem, Nat.toUInt16, UInt16.toNat_ofNat']
    omega
  · rcases List.mem_cons.mp mem with rfl | mem
    · rw [Nat.toUInt16, UInt16.toNat_ofNat']
      omega
    · rw [List.mem_singleton.mp mem, Nat.toUInt16, UInt16.toNat_ofNat']
      omega

theorem wide_of_mem_lead {b : UInt8} {u : UInt16} (mem : u ∈ (lead b).1) :
    Wide u ∨ u = b.toUInt16 := by
  unfold lead at mem
  split at mem
  · exact Or.inr (List.mem_singleton.mp mem)
  · split at mem
    · cases mem
    · split at mem
      · cases mem
      · split at mem
        · cases mem
        · split at mem
          · cases mem
          · split at mem
            · cases mem
            · rw [List.mem_singleton.mp mem]
              exact Or.inl wide_replacement

theorem wide_of_mem_take {p : Pending} {b : UInt8} {above : p.low ≤ b} {u : UInt16}
    (mem : u ∈ (p.take b above).1) : Wide u := by
  have least := p.large
  have bound := UInt8.le_iff_toNat_le.mp above
  unfold Pending.take at mem
  split at mem
  · rename_i last
    rw [last, pow_zero, mul_one] at least
    have large : 0x80 ≤ p.bits * 64 + (b.toNat - 0x80) := by
      refine least.trans ?_
      gcongr
    dsimp only at mem
    exact wide_of_mem_units large mem
  · cases mem

theorem wide_of_mem_next {q : Option Pending} {b : UInt8} {u : UInt16}
    (mem : u ∈ (next q b).1) : Wide u ∨ u = b.toUInt16 := by
  cases q with
  | none => exact wide_of_mem_lead mem
  | some p =>
      rw [next] at mem
      split at mem
      · exact Or.inl (wide_of_mem_take mem)
      · rcases List.mem_cons.mp mem with rfl | mem
        · exact Or.inl wide_replacement
        · exact wide_of_mem_lead mem

/-- **The decoder invents no ASCII.** -/
theorem mem_of_mem_decode {s : List UInt8} {b : UInt8} (ascii : b < 0x80)
    (mem : b.toUInt16 ∈ decode s) : b ∈ s := by
  have narrow := not_wide_of_ascii ascii
  have inside : ∀ q, b.toUInt16 ∈ decodeFrom q s → b ∈ s := by
    clear mem
    intro q mem
    induction s generalizing q with
    | nil =>
        cases q with
        | none => cases mem
        | some p => exact absurd (List.mem_singleton.mp mem ▸ wide_replacement) narrow
    | cons a s ih =>
        rw [decodeFrom_cons, List.mem_append] at mem
        rcases mem with now | later
        · rcases wide_of_mem_next now with wide | same
          · exact absurd wide narrow
          · rw [UInt8.toUInt16_inj.mp same]
            exact List.mem_cons_self
        · exact List.mem_cons_of_mem a (ih _ later)
  exact inside none mem

/-! ## The way back -/

/-- The bytes of a code point. -/
def pointBytes (point : ℕ) : List UInt8 :=
  if point < 0x80 then [point.toUInt8]
  else if point < 0x800 then [(0xC0 + point / 64).toUInt8, (0x80 + point % 64).toUInt8]
  else if point < 0x10000 then
    [(0xE0 + point / 4096).toUInt8, (0x80 + point / 64 % 64).toUInt8, (0x80 + point % 64).toUInt8]
  else
    [(0xF0 + point / 262144).toUInt8, (0x80 + point / 4096 % 64).toUInt8,
      (0x80 + point / 64 % 64).toUInt8, (0x80 + point % 64).toUInt8]

/-- The bytes of a code unit that is not part of a pair: a surrogate alone becomes U+FFFD. -/
def unitBytes (u : UInt16) : List UInt8 :=
  pointBytes (if 0xD800 ≤ u.toNat ∧ u.toNat < 0xE000 then REPLACEMENT.toNat else u.toNat)

/-- The bytes of a string of code units. -/
def encode : List UInt16 → List UInt8
  | [] => []
  | [u] => unitBytes u
  | u :: v :: s =>
      if 0xD800 ≤ u.toNat ∧ u.toNat < 0xDC00 ∧ 0xDC00 ≤ v.toNat ∧ v.toNat < 0xE000 then
        pointBytes (0x10000 + (u.toNat - 0xD800) * 0x400 + (v.toNat - 0xDC00)) ++ encode s
      else unitBytes u ++ encode (v :: s)

theorem encode_cons {u : UInt16} (small : u.toNat < 0x80) (s : List UInt16) :
    encode (u :: s) = u.toUInt8 :: encode s := by
  have alone : unitBytes u = [u.toUInt8] := by
    rw [unitBytes, if_neg (by omega), pointBytes, if_pos small]
    rfl
  cases s with
  | nil => exact alone
  | cons v s => rw [encode, if_neg (by omega), alone]; rfl

/-- ASCII survives the way there and back. -/
theorem encode_decode_of_ascii {s : List UInt8} (ascii : Ascii s) : encode (decode s) = s := by
  rw [decode_of_ascii ascii]
  induction s with
  | nil => rfl
  | cons b s ih =>
      have first := UInt8.lt_iff_toNat_lt.mp (ascii b List.mem_cons_self)
      rw [List.map_cons, encode_cons (by simpa using first),
        ih fun c mem => ascii c (List.mem_cons_of_mem b mem), UInt8.toUInt8_toUInt16]

theorem toNat_toUInt8 {n : ℕ} (small : n < 256) : n.toUInt8.toNat = n := by
  rw [Nat.toUInt8, UInt8.toNat_ofNat']
  omega

theorem toNat_toUInt16 {n : ℕ} (small : n < 65536) : n.toUInt16.toNat = n := by
  rw [Nat.toUInt16, UInt16.toNat_ofNat']
  omega

theorem toUInt8_eq_iff {n : ℕ} (small : n < 256) (b : UInt8) : n.toUInt8 = b ↔ n = b.toNat := by
  rw [← UInt8.toNat_inj, toNat_toUInt8 small]

/-! ## A character that was encoded -/

/-- **Inside a character**: the bits so far, the range of the next byte, and how many bytes follow
it. -/
structure Pending.Is (p : Pending) (bits low high more : ℕ) : Prop where
  bits : p.bits = bits
  low : p.low.toNat = low
  high : p.high.toNat = high
  more : p.more = more

theorem Pending.Is.inside {p : Pending} {bits low high more n : ℕ} (is : p.Is bits low high more)
    (above : low ≤ n) (below : n ≤ high) (small : n < 256) :
    p.low ≤ n.toUInt8 ∧ n.toUInt8 ≤ p.high := by
  rw [UInt8.le_iff_toNat_le, UInt8.le_iff_toNat_le, is.low, is.high, toNat_toUInt8 small]
  exact ⟨above, below⟩

/-- The last byte of a character. -/
theorem decodeFrom_last {p : Pending} {bits low high n : ℕ} (is : p.Is bits low high 0)
    (above : low ≤ n) (below : n ≤ high) (small : n < 256) (s : List UInt8) :
    decodeFrom (some p) (n.toUInt8 :: s) = units (bits * 64 + (n - 0x80)) ++ decode s := by
  rw [decodeFrom_cons, next, dif_pos (is.inside above below small), Pending.take]
  split
  · simp only [is.bits, toNat_toUInt8 small, decode]
  · rename_i more
    rw [is.more] at more
    cases more

/-- A byte in the middle of a character. -/
theorem decodeFrom_more {p : Pending} {bits low high left n : ℕ} (is : p.Is bits low high (left + 1))
    (above : low ≤ n) (below : n ≤ high) (small : n < 256) (s : List UInt8) :
    ∃ p' : Pending, p'.Is (bits * 64 + (n - 0x80)) 0x80 0xBF left ∧
      decodeFrom (some p) (n.toUInt8 :: s) = decodeFrom (some p') s := by
  rw [decodeFrom_cons, next, dif_pos (is.inside above below small), Pending.take]
  split
  · rename_i last
    rw [is.more] at last
    cases last
  · rename_i left' more
    rw [is.more] at more
    cases more
    refine ⟨_, ⟨?_, ?_, ?_, ?_⟩, List.nil_append _⟩
    · simp only [is.bits, toNat_toUInt8 small]
    · rfl
    · rfl
    · rfl

theorem not_ascii {n : ℕ} (large : 0x80 ≤ n) (small : n < 256) : ¬ n.toUInt8 < 0x80 := by
  rw [UInt8.lt_iff_toNat_lt, toNat_toUInt8 small]
  exact not_lt.mpr large

/-- The first byte of a character of two bytes. -/
theorem decode_lead_two {n : ℕ} (low : 0xC2 ≤ n) (high : n ≤ 0xDF) (s : List UInt8) :
    ∃ p : Pending, p.Is (n - 0xC0) 0x80 0xBF 0 ∧ decode (n.toUInt8 :: s) = decodeFrom (some p) s := by
  have small : n < 256 := by omega
  have size := toNat_toUInt8 small
  rw [decode, decodeFrom_cons, next, lead, if_neg (not_ascii (by omega) small),
    dif_pos ⟨by omega, by omega⟩]
  refine ⟨_, ⟨?_, ?_, ?_, ?_⟩, List.nil_append _⟩
  · simp only [size]
  · rfl
  · rfl
  · rfl

/-- The first byte of a character of three bytes. -/
theorem decode_lead_three {n : ℕ} (low : 0xE0 ≤ n) (high : n ≤ 0xEF) (s : List UInt8) :
    ∃ p : Pending, p.Is (n - 0xE0) (if n = 0xE0 then 0xA0 else 0x80)
      (if n = 0xED then 0x9F else 0xBF) 1 ∧ decode (n.toUInt8 :: s) = decodeFrom (some p) s := by
  have small : n < 256 := by omega
  have size := toNat_toUInt8 small
  have first : n.toUInt8 = 0xE0 ↔ n = 0xE0 := toUInt8_eq_iff small _
  have second : n.toUInt8 = 0xED ↔ n = 0xED := toUInt8_eq_iff small _
  rw [decode, decodeFrom_cons, next, lead, if_neg (not_ascii (by omega) small),
    dif_neg (by omega)]
  by_cases least : n = 0xE0
  · rw [if_pos (first.mpr least)]
    refine ⟨_, ⟨?_, ?_, ?_, ?_⟩, List.nil_append _⟩
    · simp only [least]
    · rw [if_pos least]
      rfl
    · rw [if_neg (by omega)]
      rfl
    · rfl
  · rw [if_neg (mt first.mp least), dif_pos ⟨by omega, by omega⟩]
    refine ⟨_, ⟨?_, ?_, ?_, ?_⟩, List.nil_append _⟩
    · simp only [size]
    · rw [if_neg least]
      rfl
    · by_cases surrogate : n = 0xED
      · rw [if_pos surrogate]
        exact congrArg UInt8.toNat (if_pos (second.mpr surrogate))
      · rw [if_neg surrogate]
        exact congrArg UInt8.toNat (if_neg (mt second.mp surrogate))
    · rfl

/-- The first byte of a character of four bytes. -/
theorem decode_lead_four {n : ℕ} (low : 0xF0 ≤ n) (high : n ≤ 0xF4) (s : List UInt8) :
    ∃ p : Pending, p.Is (n - 0xF0) (if n = 0xF0 then 0x90 else 0x80)
      (if n = 0xF4 then 0x8F else 0xBF) 2 ∧ decode (n.toUInt8 :: s) = decodeFrom (some p) s := by
  have small : n < 256 := by omega
  have size := toNat_toUInt8 small
  have other : n.toUInt8 = 0xE0 ↔ n = 0xE0 := toUInt8_eq_iff small _
  have first : n.toUInt8 = 0xF0 ↔ n = 0xF0 := toUInt8_eq_iff small _
  have last : n.toUInt8 = 0xF4 ↔ n = 0xF4 := toUInt8_eq_iff small _
  rw [decode, decodeFrom_cons, next, lead, if_neg (not_ascii (by omega) small),
    dif_neg (by omega), if_neg (mt other.mp (by omega)), dif_neg (by omega)]
  by_cases least : n = 0xF0
  · rw [if_pos (first.mpr least)]
    refine ⟨_, ⟨?_, ?_, ?_, ?_⟩, List.nil_append _⟩
    · simp only [least]
    · rw [if_pos least]
      rfl
    · rw [if_neg (by omega)]
      rfl
    · rfl
  · rw [if_neg (mt first.mp least), dif_pos ⟨by omega, by omega⟩]
    refine ⟨_, ⟨?_, ?_, ?_, ?_⟩, List.nil_append _⟩
    · simp only [size]
    · rw [if_neg least]
      rfl
    · by_cases greatest : n = 0xF4
      · rw [if_pos greatest]
        exact congrArg UInt8.toNat (if_pos (last.mpr greatest))
      · rw [if_neg greatest]
        exact congrArg UInt8.toNat (if_neg (mt last.mp greatest))
    · rfl

/-- **An encoded character is decoded as it was**, whatever follows it. -/
theorem decode_pointBytes {point : ℕ}
    (scalar : point < 0xD800 ∨ 0xE000 ≤ point ∧ point < 0x110000) (s : List UInt8) :
    decode (pointBytes point ++ s) = units point ++ decode s := by
  unfold pointBytes
  split
  · rename_i one
    have ascii : point.toUInt8 < 0x80 := by
      rw [UInt8.lt_iff_toNat_lt, toNat_toUInt8 (by omega)]
      exact one
    have same : point.toUInt8.toUInt16 = point.toUInt16 := by
      rw [← UInt16.toNat_inj, UInt8.toNat_toUInt16, toNat_toUInt8 (by omega),
        toNat_toUInt16 (by omega)]
    rw [List.singleton_append, ← List.nil_append (point.toUInt8 :: s), decode_append [] ascii,
      same, units, if_pos (by omega)]
    rfl
  · split
    · obtain ⟨p, is, eq⟩ := @decode_lead_two (0xC0 + point / 64) (by omega) (by omega)
        ([(0x80 + point % 64).toUInt8] ++ s)
      have bits : (0xC0 + point / 64 - 0xC0) * 64 + (0x80 + point % 64 - 0x80) = point := by omega
      rw [List.cons_append, eq, List.singleton_append,
        decodeFrom_last is (by omega) (by omega) (by omega), bits]
    · split
      · obtain ⟨p, is, eq⟩ := @decode_lead_three (0xE0 + point / 4096) (by omega) (by omega)
          ([(0x80 + point / 64 % 64).toUInt8, (0x80 + point % 64).toUInt8] ++ s)
        obtain ⟨p', is', eq'⟩ := @decodeFrom_more p _ _ _ _ (0x80 + point / 64 % 64) is
          (by split <;> omega) (by split <;> omega) (by omega) ((0x80 + point % 64).toUInt8 :: s)
        have bits : ((0xE0 + point / 4096 - 0xE0) * 64 + (0x80 + point / 64 % 64 - 0x80)) * 64 +
            (0x80 + point % 64 - 0x80) = point := by omega
        rw [List.cons_append, eq, List.cons_append, List.singleton_append, eq',
          decodeFrom_last is' (by omega) (by omega) (by omega), bits]
      · obtain ⟨p, is, eq⟩ := @decode_lead_four (0xF0 + point / 262144) (by omega) (by omega)
          ([(0x80 + point / 4096 % 64).toUInt8, (0x80 + point / 64 % 64).toUInt8,
            (0x80 + point % 64).toUInt8] ++ s)
        obtain ⟨p', is', eq'⟩ := @decodeFrom_more p _ _ _ _ (0x80 + point / 4096 % 64) is
          (by split <;> omega) (by split <;> omega) (by omega)
          ((0x80 + point / 64 % 64).toUInt8 :: (0x80 + point % 64).toUInt8 :: s)
        obtain ⟨p'', is'', eq''⟩ := @decodeFrom_more p' _ _ _ _ (0x80 + point / 64 % 64) is'
          (by omega) (by omega) (by omega) ((0x80 + point % 64).toUInt8 :: s)
        have bits : (((0xF0 + point / 262144 - 0xF0) * 64 + (0x80 + point / 4096 % 64 - 0x80)) * 64 +
            (0x80 + point / 64 % 64 - 0x80)) * 64 + (0x80 + point % 64 - 0x80) = point := by omega
        rw [List.cons_append, eq, List.cons_append, List.cons_append, List.singleton_append, eq',
          eq'', decodeFrom_last is'' (by omega) (by omega) (by omega), bits]

/-! ## What is decoded of an encoded string -/

/-- Each unit is decoded to itself or to U+FFFD, which stands for a surrogate alone. -/
def Scrubbed (q q' : List UInt16) : Prop := List.Forall₂ (fun u v => v = u ∨ v = REPLACEMENT) q q'

theorem decode_unitBytes (u : UInt16) :
    ∃ v, (v = u ∨ v = REPLACEMENT) ∧ ∀ s, decode (unitBytes u ++ s) = v :: decode s := by
  have bound := u.toNat_lt
  unfold unitBytes
  split
  · refine ⟨REPLACEMENT, .inr rfl, fun s => ?_⟩
    rw [decode_pointBytes (.inr (by decide)), units, if_pos (by decide)]
    rfl
  · rename_i scalar
    refine ⟨u, .inl rfl, fun s => ?_⟩
    have same : u.toNat.toUInt16 = u := by
      rw [← UInt16.toNat_inj, toNat_toUInt16 bound]
    rw [decode_pointBytes (by omega), units, if_pos bound, same]
    rfl

theorem units_pair {u v : UInt16} (high : 0xD800 ≤ u.toNat ∧ u.toNat < 0xDC00)
    (low : 0xDC00 ≤ v.toNat ∧ v.toNat < 0xE000) :
    units (0x10000 + (u.toNat - 0xD800) * 0x400 + (v.toNat - 0xDC00)) = [u, v] := by
  generalize point : 0x10000 + (u.toNat - 0xD800) * 0x400 + (v.toNat - 0xDC00) = n
  have first : (0xD800 + (n - 0x10000) / 0x400 % 0x400).toUInt16 = u := by
    rw [← UInt16.toNat_inj, toNat_toUInt16 (by omega)]
    omega
  have second : (0xDC00 + (n - 0x10000) % 0x400).toUInt16 = v := by
    rw [← UInt16.toNat_inj, toNat_toUInt16 (by omega)]
    omega
  rw [units, if_neg (by omega), first, second]

/-- **What was encoded is decoded unit by unit**, whatever follows it. -/
theorem decode_encode_append (q : List UInt16) :
    ∃ q', Scrubbed q q' ∧ ∀ s, decode (encode q ++ s) = q' ++ decode s := by
  fun_induction encode q with
  | case1 => exact ⟨[], .nil, fun s => rfl⟩
  | case2 u =>
      obtain ⟨v, same, eq⟩ := decode_unitBytes u
      exact ⟨[v], .cons same .nil, eq⟩
  | case3 u v q pair ih =>
      obtain ⟨q', scrubbed, eq⟩ := ih
      refine ⟨u :: v :: q', .cons (.inl rfl) (.cons (.inl rfl) scrubbed), fun s => ?_⟩
      have high := pair.1
      rw [List.append_assoc, decode_pointBytes (.inr (by omega)), eq,
        units_pair ⟨pair.1, pair.2.1⟩ pair.2.2]
      rfl
  | case4 u v q alone ih =>
      obtain ⟨w, same, eq'⟩ := decode_unitBytes u
      obtain ⟨q', scrubbed, eq⟩ := ih
      exact ⟨w :: q', .cons same scrubbed, fun s => by rw [List.append_assoc, eq', eq]; rfl⟩

/-- Well-formed UTF-16: no surrogate is alone. -/
def WellFormed (q : List UInt16) : Prop := decode (encode q) = q

instance (q : List UInt16) : Decidable (WellFormed q) := inferInstanceAs (Decidable (_ = _))

/-- Well-formed UTF-8: decoding loses nothing. -/
def Valid (s : List UInt8) : Prop := encode (decode s) = s

instance (s : List UInt8) : Decidable (Valid s) := inferInstanceAs (Decidable (_ = _))

theorem scrubbed_decode_encode (q : List UInt16) : Scrubbed q (decode (encode q)) := by
  obtain ⟨q', scrubbed, eq⟩ := decode_encode_append q
  have whole := eq []
  rw [List.append_nil, show decode [] = [] from rfl, List.append_nil] at whole
  rwa [whole]

/-- What follows an encoded string is decoded apart. -/
theorem decode_encode_append_eq (q : List UInt16) (s : List UInt8) :
    decode (encode q ++ s) = decode (encode q) ++ decode s := by
  obtain ⟨q', -, eq⟩ := decode_encode_append q
  have whole := eq []
  rw [List.append_nil, show decode [] = [] from rfl, List.append_nil] at whole
  rw [whole, eq]

/-- **A start of the bytes is a start of the units exactly if it is well-formed.** -/
theorem prefix_decode_iff {q : List UInt16} {s : List UInt8} (starts : encode q <+: s) :
    q <+: decode s ↔ WellFormed q := by
  obtain ⟨t, rfl⟩ := starts
  have length := (scrubbed_decode_encode q).length_eq
  rw [decode_encode_append_eq, WellFormed]
  constructor
  · intro starts
    have inside := List.prefix_of_prefix_length_le starts (List.prefix_append _ _) length.le
    exact (inside.eq_of_length length).symm
  · intro same
    rw [same]
    exact List.prefix_append _ _

/-- Where nothing was replaced, the string is as it was. -/
theorem Scrubbed.eq_of_notMem {q q' : List UInt16} (scrubbed : Scrubbed q q')
    (absent : REPLACEMENT ∉ q') : q = q' := by
  induction scrubbed with
  | nil => rfl
  | cons same _ ih =>
      rw [List.mem_cons, not_or] at absent
      rw [ih absent.2, same.resolve_right (Ne.symm absent.1)]

/-- **Only ASCII is encoded as ASCII.** -/
theorem eq_of_encode_eq_ascii {q : List UInt16} {s : List UInt8} (ascii : Ascii s)
    (same : encode q = s) : q = s.map UInt8.toUInt16 := by
  have scrubbed := scrubbed_decode_encode q
  rw [same, decode_of_ascii ascii] at scrubbed
  refine scrubbed.eq_of_notMem fun mem => ?_
  obtain ⟨b, there, eq⟩ := List.mem_map.mp mem
  exact not_wide_of_ascii (ascii b there) (eq ▸ wide_replacement)

/-- An ASCII unit is encoded apart from what is before and behind it. -/
theorem encode_append {u : UInt16} (small : u.toNat < 0x80) (front back : List UInt16) :
    encode (front ++ u :: back) = encode front ++ u.toUInt8 :: encode back := by
  fun_induction encode front with
  | case1 => exact encode_cons small back
  | case2 v =>
      rw [List.singleton_append, encode, if_neg (by omega), encode_cons small]
  | case3 v w front pair ih =>
      rw [List.cons_append, List.cons_append, encode, if_pos pair, ih, List.append_assoc]
  | case4 v w front alone ih =>
      rw [List.cons_append, List.cons_append, encode, if_neg alone, ← List.cons_append, ih,
        List.append_assoc]

/-- An ASCII byte at the end of an encoded string is its last unit. -/
theorem getLast?_of_encode {q : List UInt16} {b : UInt8} (ascii : b < 0x80)
    (last : (encode q).getLast? = some b) : q.getLast? = some b.toUInt16 := by
  obtain ⟨front, shape⟩ := List.getLast?_eq_some_iff.mp last
  have scrubbed := scrubbed_decode_encode q
  rw [shape, decode_append front ascii, show decode [] = [] from rfl] at scrubbed
  have turned := List.forall₂_reverse_iff.mpr scrubbed
  rw [List.reverse_append, List.reverse_singleton, List.singleton_append] at turned
  cases rest : q.reverse with
  | nil => rw [rest] at turned; cases turned
  | cons u more =>
      rw [rest] at turned
      obtain ⟨same, -⟩ := List.forall₂_cons.mp turned
      rw [← List.head?_reverse, rest, List.head?_cons]
      refine congrArg some (same.resolve_right fun replaced => ?_).symm
      exact not_wide_of_ascii ascii (replaced ▸ wide_replacement)

/-- A unit that is no surrogate is encoded by itself. -/
theorem encode_cons_of_plain {u : UInt16} (plain : ¬ (0xD800 ≤ u.toNat ∧ u.toNat < 0xE000))
    (q : List UInt16) : encode (u :: q) = unitBytes u ++ encode q := by
  cases q with
  | nil => exact (List.append_nil _).symm
  | cons v q => rw [encode, if_neg (by omega)]

/-- What a unit is decoded to is encoded as the unit. -/
theorem decode_unitBytes_plain (u : UInt16) :
    ∃ v, ¬ (0xD800 ≤ v.toNat ∧ v.toNat < 0xE000) ∧ unitBytes v = unitBytes u ∧
      ∀ s, decode (unitBytes u ++ s) = v :: decode s := by
  have bound := u.toNat_lt
  by_cases surrogate : 0xD800 ≤ u.toNat ∧ u.toNat < 0xE000
  · have replaced : unitBytes REPLACEMENT = unitBytes u := by
      rw [unitBytes, unitBytes, if_neg (by decide), if_pos surrogate]
    refine ⟨REPLACEMENT, by decide, replaced, fun s => ?_⟩
    rw [unitBytes, if_pos surrogate, decode_pointBytes (.inr (by decide)), units,
      if_pos (by decide)]
    rfl
  · refine ⟨u, surrogate, rfl, fun s => ?_⟩
    have same : u.toNat.toUInt16 = u := by rw [← UInt16.toNat_inj, toNat_toUInt16 bound]
    rw [unitBytes, if_neg surrogate, decode_pointBytes (by omega), units, if_pos bound, same]
    rfl

/-- **What has been encoded is well-formed.** -/
theorem valid_encode (q : List UInt16) : Valid (encode q) := by
  unfold Valid
  fun_induction encode q with
  | case1 => rfl
  | case2 u =>
      obtain ⟨v, plain, same, eq⟩ := decode_unitBytes_plain u
      have whole := eq []
      rw [List.append_nil] at whole
      rw [whole, show decode [] = [] from rfl, encode, same]
  | case3 u v q pair ih =>
      rw [decode_pointBytes (.inr (by omega)), units_pair ⟨pair.1, pair.2.1⟩ pair.2.2]
      rw [List.cons_append, List.singleton_append, encode, if_pos pair, ih]
  | case4 u v q alone ih =>
      obtain ⟨w, plain, same, eq⟩ := decode_unitBytes_plain u
      rw [eq, encode_cons_of_plain plain, same, ih]

end EdgeCache.Utf8

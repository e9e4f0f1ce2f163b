import Mathlib
import EdgeCache.Lib.Scan

/-!
# Byte strings and the C library functions on them

`std::string` is a sequence of bytes.  The program reads text with a handful of
standard functions; this module models the ones it uses, in the "C" locale the
process runs in (it never calls `setlocale`).

* `tolower`, `isspace`, `isdigit` — the character classes.
* `toString` — `std::to_string` and `operator<<` of an unsigned integer.
* `stoull` — `std::stoull` in base ten, **with its leniency**: leading white
  space, a sign (a minus sign negates modulo `2^64`) and any trailing text are
  accepted; it throws when there is no digit or the digits exceed `2^64 - 1`.
-/

namespace EdgeCache

/-- `std::string`. -/
abbrev ByteString := List UInt8

-- Named, so that every module decides membership among byte strings by the same term.
instance : LawfulBEq ByteString := inferInstance

/-- The bytes of an ASCII literal of the source. -/
def bytes (s : String) : ByteString := s.toList.map fun c => c.toNat.toUInt8

/-- `'\r'`. -/
abbrev CR : UInt8 := 13
/-- `'\n'`. -/
abbrev LF : UInt8 := 10
/-- `' '`. -/
abbrev SP : UInt8 := 32
/-- `'\t'`. -/
abbrev TAB : UInt8 := 9
/-- `':'`. -/
abbrev COLON : UInt8 := 58

/-! ## Character classes -/

/-- `std::tolower` on an `unsigned char`. -/
def tolower (c : UInt8) : UInt8 := if 65 ≤ c ∧ c ≤ 90 then c + 32 else c

/-- `std::isspace`: space, `\t`, `\n`, `\v`, `\f`, `\r`. -/
def isspace (c : UInt8) : Bool := c == 32 || (9 ≤ c && c ≤ 13)

/-- `std::isdigit`. -/
def isdigit (c : UInt8) : Bool := 48 ≤ c && c ≤ 57

/-- A string with every byte lowered. -/
def lower (s : ByteString) : ByteString := s.map tolower

@[simp] theorem lower_nil : lower [] = [] := rfl

@[simp] theorem lower_eq_nil {s : ByteString} : lower s = [] ↔ s = [] := List.map_eq_nil_iff

/-! ## Decimal numerals -/

/-- The digit byte of a number below ten. -/
def digitByte (d : ℕ) : UInt8 := (48 + d).toUInt8

/-- The number a digit byte stands for. -/
def digitVal (c : UInt8) : ℕ := c.toNat - 48

/-- The number a string of digit bytes denotes, most significant first. -/
def decimalValue (s : ByteString) : ℕ := Nat.ofDigits 10 (s.reverse.map digitVal)

/-- `std::to_string` of an unsigned integer. -/
def toString (n : ℕ) : ByteString :=
  if n = 0 then [48] else (Nat.digits 10 n).reverse.map digitByte

/-- `operator<<` of a signed integer. -/
def intToString (n : ℤ) : ByteString :=
  if n < 0 then 45 :: toString n.natAbs else toString n.natAbs

/-- A non-empty string of decimal digits. -/
def IsDecimal (s : ByteString) : Prop := s ≠ [] ∧ ∀ c ∈ s, isdigit c = true

instance (s : ByteString) : Decidable (IsDecimal s) :=
  inferInstanceAs (Decidable (s ≠ [] ∧ ∀ c ∈ s, isdigit c = true))

theorem digitVal_digitByte {d : ℕ} (small : d < 10) : digitVal (digitByte d) = d := by
  have cases : ∀ d < 10, digitVal (digitByte d) = d := by decide
  exact cases d small

theorem isdigit_digitByte {d : ℕ} (small : d < 10) : isdigit (digitByte d) = true := by
  have cases : ∀ d < 10, isdigit (digitByte d) = true := by decide
  exact cases d small

/-- A printed number is a decimal numeral. -/
theorem isDecimal_toString (n : ℕ) : IsDecimal (toString n) := by
  unfold toString
  split
  · exact ⟨by simp, by simp [isdigit]⟩
  · rename_i nonzero
    refine ⟨by simpa [Nat.digits_ne_nil_iff_ne_zero] using nonzero, fun c mem => ?_⟩
    obtain ⟨d, digit, rfl⟩ := List.mem_map.mp mem
    exact isdigit_digitByte (Nat.digits_lt_base (by decide) (List.mem_reverse.mp digit))

/-- A printed number denotes itself. -/
theorem decimalValue_toString (n : ℕ) : decimalValue (toString n) = n := by
  unfold toString
  split
  · subst n; rfl
  · have back : ((Nat.digits 10 n).map digitByte).map digitVal = Nat.digits 10 n := by
      rw [List.map_map]
      refine (List.map_congr_left fun d digit => ?_).trans (List.map_id _)
      exact digitVal_digitByte (Nat.digits_lt_base (by decide) digit)
    rw [decimalValue, ← List.map_reverse, List.reverse_reverse, back, Nat.ofDigits_digits]

/-! ## `std::stoull` -/

/-- `std::stoull(s)` with base ten; `none` is the exception it throws. -/
def stoull (s : ByteString) : Option UInt64 :=
  let text := s.dropWhile isspace
  let negative := text.head? == some 45
  let unsigned := if text.head? = some 45 ∨ text.head? = some 43 then text.tail else text
  let digits := unsigned.takeWhile isdigit
  if digits = [] then none
  else if decimalValue digits < 2 ^ 64 then
    some (if negative then - UInt64.ofNat (decimalValue digits)
      else UInt64.ofNat (decimalValue digits))
  else none

/-- A digit is no white space and no sign. -/
theorem not_isspace_of_isdigit {c : UInt8} (digit : isdigit c = true) :
    isspace c = false ∧ c ≠ 45 ∧ c ≠ 43 := by
  simp only [isdigit, isspace, Bool.and_eq_true, decide_eq_true_eq, Bool.or_eq_false_iff,
    beq_eq_false_iff_ne, Bool.and_eq_false_iff, decide_eq_false_iff_not, ne_eq,
    UInt8.le_iff_toNat_le, ← UInt8.toNat_inj, UInt8.reduceToNat] at digit ⊢
  omega

/-- On a decimal numeral `stoull` is the number it denotes, when that fits. -/
theorem stoull_of_isDecimal {s : ByteString} (decimal : IsDecimal s) :
    stoull s =
      if decimalValue s < 2 ^ 64 then some (UInt64.ofNat (decimalValue s)) else none := by
  obtain ⟨nonempty, digits⟩ := decimal
  cases s with
  | nil => exact absurd rfl nonempty
  | cons c rest =>
      obtain ⟨solid, notMinus, notPlus⟩ := not_isspace_of_isdigit (digits c (by simp))
      have start : (c :: rest).dropWhile isspace = c :: rest :=
        List.dropWhile_cons_of_neg (by simp [solid])
      have whole : (c :: rest).takeWhile isdigit = c :: rest :=
        List.takeWhile_eq_self_iff.mpr digits
      simp only [stoull, start, List.head?_cons, Option.some.injEq, notMinus, notPlus, or_self,
        if_false, whole, reduceCtorEq, Option.some_beq_some, beq_iff_eq]

/-- **Reading back what was printed.** -/
theorem stoull_toString {n : ℕ} (fits : n < 2 ^ 64) :
    stoull (toString n) = some (UInt64.ofNat n) := by
  rw [stoull_of_isDecimal (isDecimal_toString n), decimalValue_toString, if_pos fits]

/-- Converting a natural number through a signed one changes nothing. -/
theorem ofInt_natCast (n : ℕ) : UInt64.ofInt n = UInt64.ofNat n := by
  refine UInt64.toNat_inj.mp ?_
  rw [UInt64.ofInt, UInt64.toNat_ofNat', UInt64.toNat_ofNat']
  omega

theorem intToString_natCast (n : ℕ) : intToString n = toString n :=
  if_neg (not_lt.mpr (Int.natCast_nonneg n))

/-- A minus sign negates modulo `2^64`. -/
theorem stoull_minus {digits : ByteString} (decimal : IsDecimal digits)
    (fits : decimalValue digits < 2 ^ 64) :
    stoull (45 :: digits) = some (- UInt64.ofNat (decimalValue digits)) := by
  have solid : (45 :: digits).dropWhile isspace = 45 :: digits :=
    List.dropWhile_cons_of_neg (by decide)
  have whole : digits.takeWhile isdigit = digits := List.takeWhile_eq_self_iff.mpr decimal.2
  simp only [stoull, solid, List.head?_cons, true_or, if_true, List.tail_cons, whole,
    if_neg decimal.1, if_pos fits, beq_self_eq_true]

/-- Reading back a printed signed integer, modulo `2^64`. -/
theorem stoull_intToString {n : ℤ} (fits : n.natAbs < 2 ^ 64) :
    stoull (intToString n) = some (UInt64.ofInt n) := by
  unfold intToString
  split
  · rename_i negative
    rw [stoull_minus (isDecimal_toString _) (by rwa [decimalValue_toString]),
      decimalValue_toString]
    refine congrArg some (UInt64.toNat_inj.mp ?_)
    rw [UInt64.toNat_neg, UInt64.toNat_ofNat', UInt64.ofInt, UInt64.toNat_ofNat', UInt64.size]
    omega
  · rename_i nonneg
    rw [stoull_toString fits]
    refine congrArg some (UInt64.toNat_inj.mp ?_)
    rw [UInt64.toNat_ofNat', UInt64.ofInt, UInt64.toNat_ofNat']
    omega

/-! ## `std::strtoll` -/

/-- `std::strtoll(s, nullptr, 10)`: `0` where there is no digit, and the nearest `long long`
where the number is out of range. -/
def strtoll (s : ByteString) : ℤ :=
  let text := s.dropWhile isspace
  let negative := text.head? == some 45
  let unsigned := if text.head? = some 45 ∨ text.head? = some 43 then text.tail else text
  let n : ℤ := decimalValue (unsigned.takeWhile isdigit)
  max (-2 ^ 63) (min (2 ^ 63 - 1) (if negative then -n else n))

/-- Reading back a printed integer that a `long long` holds. -/
theorem strtoll_intToString {n : ℤ} (low : -2 ^ 63 ≤ n) (high : n < 2 ^ 63) :
    strtoll (intToString n) = n := by
  unfold intToString
  have digits := isDecimal_toString n.natAbs
  have whole : (toString n.natAbs).takeWhile isdigit = toString n.natAbs :=
    List.takeWhile_eq_self_iff.mpr digits.2
  split
  · have solid : (45 :: toString n.natAbs).dropWhile isspace = 45 :: toString n.natAbs :=
      List.dropWhile_cons_of_neg (by decide)
    simp only [strtoll, solid, List.head?_cons, true_or, if_true, List.tail_cons, whole,
      decimalValue_toString, beq_self_eq_true]
    omega
  · cases text : toString n.natAbs with
    | nil => exact absurd text digits.1
    | cons c rest =>
        rw [text] at whole digits
        obtain ⟨solid, notMinus, notPlus⟩ := not_isspace_of_isdigit (digits.2 c (by simp))
        have start : (c :: rest).dropWhile isspace = c :: rest :=
          List.dropWhile_cons_of_neg (by simp [solid])
        simp only [strtoll, start, List.head?_cons, Option.some.injEq, notMinus, notPlus, or_self,
          if_false, whole, Option.some_beq_some, beq_iff_eq]
        rw [← text, decimalValue_toString]
        omega

/-- Reading back a printed number. -/
theorem strtoll_toString {n : ℕ} (fits : n < 2 ^ 63) : strtoll (toString n) = n := by
  rw [← intToString_natCast]
  exact strtoll_intToString (by omega) (by exact_mod_cast fits)

/-- No printed number contains a byte that is neither a digit nor a sign. -/
theorem notMem_intToString {n : ℤ} {c : UInt8} (plain : isdigit c = false) (sign : c ≠ 45) :
    c ∉ intToString n := by
  have digits : c ∉ toString n.natAbs := fun mem => by
    rw [(isDecimal_toString _).2 c mem] at plain
    cases plain
  unfold intToString
  split
  · simp [sign, digits]
  · exact digits

/-- The leniency that matters for framing: a sign and trailing text are accepted. -/
example : stoull (bytes " -1x") = some 18446744073709551615 ∧ stoull (bytes "+5 6") = some 5 ∧
    stoull (bytes "x5") = none := by decide

end EdgeCache

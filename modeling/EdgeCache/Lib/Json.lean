import Mathlib

/-!
# JSON

A strict reader of JSON texts, on strings of UTF-16 code units as `JSON.parse` gets them.  A reader
takes what it reads from the front of a text and leaves the rest.  Members are kept in their order,
also those whose names repeat.

* `readString_append` — **a string between quotation marks**: it is read as it stands exactly where
  it is clean, and a reading that goes wrong ends too early or too late.
* `readNumber_append`, `readNumber_intText` — numbers, and what follows them.
* `readMembers_comma`, `readMembers_close` — a list of members, one by one.
* `readValue_fuel` — the bound on the nesting, which is the length of the text, is never reached.
-/

namespace EdgeCache.Json

/-- A JavaScript string: its UTF-16 code units. -/
abbrev Text := List UInt16

/-- What a JSON text stands for; a number is a decimal fraction, `mantissa * 10 ^ exponent`. -/
inductive Value where
  | null
  | bool (b : Bool)
  | number (mantissa exponent : ℤ)
  | string (s : Text)
  | array (elements : List Value)
  | object (members : List (Text × Value))

/-- `"`. -/
abbrev QUOTE : UInt16 := 34
/-- `\`. -/
abbrev BACKSLASH : UInt16 := 92
/-- `,`. -/
abbrev COMMA : UInt16 := 44
/-- `:`. -/
abbrev COLON : UInt16 := 58
/-- The braces and the brackets. -/
abbrev LBRACE : UInt16 := 123
abbrev RBRACE : UInt16 := 125
abbrev LBRACKET : UInt16 := 91
abbrev RBRACKET : UInt16 := 93

/-! ## Reading -/

/-- Space, tab, line feed and carriage return. -/
def isSpace (c : UInt16) : Bool := c = 32 || c = 9 || c = 10 || c = 13

/-- Skip white space. -/
def skip (s : Text) : Text := s.dropWhile isSpace

/-- A digit. -/
def isDigit (c : UInt16) : Bool := 48 ≤ c && c ≤ 57

/-- The value of a hexadecimal digit. -/
def hexDigit (c : UInt16) : Option ℕ :=
  if 48 ≤ c ∧ c ≤ 57 then some (c.toNat - 48)
  else if 97 ≤ c ∧ c ≤ 102 then some (c.toNat - 87)
  else if 65 ≤ c ∧ c ≤ 70 then some (c.toNat - 55)
  else none

/-- The unit four hexadecimal digits stand for. -/
def hexUnit (a b c d : UInt16) : Option UInt16 :=
  (hexDigit a).bind fun a => (hexDigit b).bind fun b => (hexDigit c).bind fun c =>
    (hexDigit d).map fun d => (((a * 16 + b) * 16 + c) * 16 + d).toUInt16

/-- The unit a letter behind a backslash stands for. -/
def unescape (c : UInt16) : Option UInt16 :=
  if c = QUOTE ∨ c = BACKSLASH ∨ c = 47 then some c
  else if c = 98 then some 8
  else if c = 102 then some 12
  else if c = 110 then some 10
  else if c = 114 then some 13
  else if c = 116 then some 9
  else none

/-- Put a unit in front of a string that was read. -/
def push (u : UInt16) (read : Text × Text) : Text × Text := (u :: read.1, read.2)

/-- A string behind its opening quotation mark. -/
def readString : Text → Option (Text × Text)
  | [] => none
  | c :: s =>
      if c = QUOTE then some ([], s)
      else if c = BACKSLASH then
        match s with
        | [] => none
        | e :: s =>
            if e = 117 then
              match s with
              | h₁ :: h₂ :: h₃ :: h₄ :: s =>
                  (hexUnit h₁ h₂ h₃ h₄).bind fun u => (readString s).map (push u)
              | _ => none
            else (unescape e).bind fun u => (readString s).map (push u)
      else if c < 32 then none
      else (readString s).map (push c)

/-- The number a string of digits stands for. -/
def digitsValue (digits : Text) : ℕ := Nat.ofDigits 10 (digits.reverse.map fun d => d.toNat - 48)

/-- A minus sign, if there is one. -/
def readMinus : Text → Bool × Text
  | [] => (false, [])
  | c :: s => if c = 45 then (true, s) else (false, c :: s)

/-- Digits, at least one. -/
def readDigits (s : Text) : Option (Text × Text) :=
  if s.takeWhile isDigit = [] then none else some (s.takeWhile isDigit, s.dropWhile isDigit)

/-- Digits that do not start with a needless zero. -/
def readInteger (s : Text) : Option (Text × Text) :=
  (readDigits s).bind fun (digits, s) =>
    if digits.head? = some 48 ∧ digits ≠ [48] then none else some (digits, s)

/-- A fraction, if there is one. -/
def readFraction : Text → Option (Text × Text)
  | [] => some ([], [])
  | c :: s => if c = 46 then readDigits s else some ([], c :: s)

/-- The exponent behind its letter. -/
def readSigned : Text → Option (ℤ × Text)
  | [] => none
  | c :: s =>
      if c = 43 then (readDigits s).map fun (digits, s) => ((digitsValue digits : ℤ), s)
      else if c = 45 then (readDigits s).map fun (digits, s) => (-(digitsValue digits : ℤ), s)
      else (readDigits (c :: s)).map fun (digits, s) => ((digitsValue digits : ℤ), s)

/-- An exponent, if there is one. -/
def readExponent : Text → Option (ℤ × Text)
  | [] => some (0, [])
  | c :: s => if c = 101 ∨ c = 69 then readSigned s else some (0, c :: s)

/-- A number. -/
def readNumber (s : Text) : Option ((ℤ × ℤ) × Text) :=
  (readInteger (readMinus s).2).bind fun (digits, r) =>
    (readFraction r).bind fun (fraction, r) =>
      (readExponent r).map fun (exponent, r) =>
        (((if (readMinus s).1 then -1 else 1) * (digitsValue (digits ++ fraction) : ℤ),
          exponent - fraction.length), r)

/-- A member of an object; `value` reads its value. -/
def readMember (value : Text → Option (Value × Text)) (s : Text) :
    Option ((Text × Value) × Text) :=
  match skip s with
  | [] => none
  | c :: s =>
      if c = QUOTE then
        (readString s).bind fun (name, s) =>
          match skip s with
          | [] => none
          | c :: s => if c = COLON then (value s).map fun (v, s) => ((name, v), s) else none
      else none

/-- What is separated by commas and closed by `close`, in a round for each item. -/
def readItems {α : Type} (item : Text → Option (α × Text)) (close : UInt16) :
    ℕ → Text → Option (List α × Text)
  | 0, _ => none
  | rounds + 1, s =>
      (item s).bind fun (a, s) =>
        match skip s with
        | [] => none
        | c :: s =>
            if c = COMMA then (readItems item close rounds s).map fun (as, s) => (a :: as, s)
            else if c = close then some ([a], s)
            else none

/-- Items, or the closing at once. -/
def readList {α : Type} (item : Text → Option (α × Text)) (close : UInt16) (rounds : ℕ) (s : Text) :
    Option (List α × Text) :=
  if (skip s).head? = some close then some ([], (skip s).tail)
  else readItems item close rounds s

/-- The names of the constants. -/
def nullText : Text := [110, 117, 108, 108]
def trueText : Text := [116, 114, 117, 101]
def falseText : Text := [102, 97, 108, 115, 101]

/-- A value that is not nested deeper than `fuel`, and has no longer lists. -/
def readValue : ℕ → Text → Option (Value × Text)
  | 0, _ => none
  | fuel + 1, s =>
      match skip s with
      | [] => none
      | c :: s =>
          if c = QUOTE then (readString s).map fun (v, s) => (.string v, s)
          else if c = LBRACE then
            (readList (readMember (readValue fuel)) RBRACE fuel s).map
              fun (ms, s) => (.object ms, s)
          else if c = LBRACKET then
            (readList (readValue fuel) RBRACKET fuel s).map fun (vs, s) => (.array vs, s)
          else if nullText <+: c :: s then some (.null, (c :: s).drop 4)
          else if trueText <+: c :: s then some (.bool true, (c :: s).drop 4)
          else if falseText <+: c :: s then some (.bool false, (c :: s).drop 5)
          else (readNumber (c :: s)).map fun ((m, e), s) => (.number m e, s)

/-- **`JSON.parse`**: a value with nothing but white space around it. -/
def parse (s : Text) : Option Value :=
  (readValue (s.length + 1) s).bind fun (v, rest) => if skip rest = [] then some v else none

/-! ## Strings -/

/-- A string that stands for itself between quotation marks. -/
def Clean (s : Text) : Prop := ∀ u ∈ s, u ≠ QUOTE ∧ u ≠ BACKSLASH ∧ ¬ u < 32

instance (s : Text) : Decidable (Clean s) :=
  inferInstanceAs (Decidable (∀ u ∈ s, u ≠ QUOTE ∧ u ≠ BACKSLASH ∧ ¬ u < 32))

theorem readString_quote (s : Text) : readString (QUOTE :: s) = some ([], s) := by
  rw [readString.eq_def]
  exact if_pos rfl

/-- A unit that stands for itself. -/
theorem readString_cons {u : UInt16} (plain : u ≠ QUOTE ∧ u ≠ BACKSLASH ∧ ¬ u < 32) (s : Text) :
    readString (u :: s) = (readString s).map (push u) := by
  rw [readString.eq_def]
  exact (if_neg plain.1).trans ((if_neg plain.2.1).trans (if_neg plain.2.2))

/-- **A clean string is read as it stands.** -/
theorem readString_of_clean {p : Text} (clean : Clean p) (s : Text) :
    readString (p ++ QUOTE :: s) = some (p, s) := by
  induction p with
  | nil => exact readString_quote s
  | cons u p ih =>
      rw [List.cons_append, readString_cons (clean u List.mem_cons_self),
        ih fun u later => clean u (List.mem_cons_of_mem _ later)]
      rfl

theorem hexUnit_eq_none {a b c d : UInt16} (quote : a = QUOTE ∨ b = QUOTE ∨ c = QUOTE ∨ d = QUOTE) :
    hexUnit a b c d = none := by
  have no : hexDigit QUOTE = none := by decide
  unfold hexUnit
  rcases quote with rfl | rfl | rfl | rfl
  · rw [no]
    rfl
  · cases hexDigit a <;> simp [no]
  · cases hexDigit a <;> cases hexDigit b <;> simp [no]
  · cases hexDigit a <;> cases hexDigit b <;> cases hexDigit c <;> simp [no]

/-- What an escape is read as, and what is read behind it. -/
theorem readString_escape {e : UInt16} {s v r : Text}
    (read : readString (BACKSLASH :: e :: s) = some (v, r)) :
    (∃ u v' h₁ h₂ h₃ h₄ s', e = 117 ∧ s = h₁ :: h₂ :: h₃ :: h₄ :: s' ∧
      hexUnit h₁ h₂ h₃ h₄ ≠ none ∧ readString s' = some (v', r) ∧ v = u :: v') ∨
    ∃ u v', readString s = some (v', r) ∧ v = u :: v' := by
  rw [readString.eq_def] at read
  simp only [show BACKSLASH ≠ QUOTE by decide, if_false, if_true] at read
  split at read
  · rename_i letter
    split at read
    · rename_i h₁ h₂ h₃ h₄ s'
      obtain ⟨u, unit, read⟩ := Option.bind_eq_some_iff.mp read
      obtain ⟨⟨v', r'⟩, behind, same⟩ := Option.map_eq_some_iff.mp read
      cases same
      exact .inl ⟨u, v', h₁, h₂, h₃, h₄, s', letter, rfl, by simp [unit], behind, rfl⟩
    · cases read
  · obtain ⟨u, -, read⟩ := Option.bind_eq_some_iff.mp read
    obtain ⟨⟨v', r'⟩, behind, same⟩ := Option.map_eq_some_iff.mp read
    cases same
    exact .inr ⟨u, v', behind, rfl⟩

/-- **Reading a string that is followed by another one**: it is read as it stands, which makes it
clean, or something shorter is read, or its end is missed and the reading ends where the next string
starts. -/
theorem readString_append {p v r tail : Text}
    (read : readString (p ++ QUOTE :: COMMA :: QUOTE :: tail) = some (v, r)) :
    (Clean p ∧ v = p ∧ r = COMMA :: QUOTE :: tail) ∨ v.length < p.length ∨ r = tail := by
  induction size : p.length using Nat.strong_induction_on generalizing p v with
  | _ n ih =>
      subst size
      -- Behind an escape at least two units have been taken for one.
      have escaped : ∀ {q v' : Text}, q.length + 2 ≤ p.length → v.length = v'.length + 1 →
          readString (q ++ QUOTE :: COMMA :: QUOTE :: tail) = some (v', r) →
          v.length < p.length ∨ r = tail := by
        intro q v' short one read
        rcases ih q.length (by omega) read rfl with ⟨-, rfl, -⟩ | shorter | missed
        · exact .inl (by omega)
        · exact .inl (by omega)
        · exact .inr missed
      cases p with
      | nil =>
          rw [List.nil_append, readString_quote] at read
          cases read
          exact .inl ⟨by simp [Clean], rfl, rfl⟩
      | cons u p =>
          by_cases quote : u = QUOTE
          · rw [quote, List.cons_append, readString_quote] at read
            cases read
            exact .inr (.inl (by simp))
          by_cases backslash : u = BACKSLASH
          · subst backslash
            refine .inr ?_
            cases p with
            | nil =>
                rcases readString_escape read with
                  ⟨_, _, _, _, _, _, _, letter, -⟩ | ⟨u, v', behind, -⟩
                · cases letter
                · rw [readString_cons (by decide), readString_quote] at behind
                  cases behind
                  exact .inr rfl
            | cons e q =>
                rcases readString_escape read with
                  ⟨u, v', h₁, h₂, h₃, h₄, s', -, split, unit, behind, rfl⟩ | ⟨u, v', behind, rfl⟩
                · match q, split with
                  | [], split =>
                      cases split
                      exact absurd (hexUnit_eq_none (.inl rfl)) unit
                  | [_], split =>
                      cases split
                      exact absurd (hexUnit_eq_none (.inr (.inl rfl))) unit
                  | [_, _], split =>
                      cases split
                      exact absurd (hexUnit_eq_none (.inr (.inr (.inl rfl)))) unit
                  | [_, _, _], split =>
                      cases split
                      exact absurd (hexUnit_eq_none (.inr (.inr (.inr rfl)))) unit
                  | _ :: _ :: _ :: _ :: q, split =>
                      cases split
                      exact escaped (by simp) rfl behind
                · exact escaped (by simp) rfl behind
          · by_cases control : u < 32
            · rw [List.cons_append, readString.eq_def] at read
              simp only [quote, backslash, control, if_false, if_true] at read
              cases read
            · rw [List.cons_append, readString_cons ⟨quote, backslash, control⟩] at read
              obtain ⟨⟨v', r'⟩, behind, same⟩ := Option.map_eq_some_iff.mp read
              cases same
              rcases ih p.length (by simp) behind rfl with ⟨clean, rfl, ends⟩ | shorter | missed
              · refine .inl ⟨fun w mem => ?_, rfl, ends⟩
                rcases List.mem_cons.mp mem with rfl | later
                · exact ⟨quote, backslash, control⟩
                · exact clean w later
              · exact .inr (.inl (by simp only [List.length_cons]; omega))
              · exact .inr (.inr missed)

/-! ## Numbers -/

/-- A unit that no number goes on with. -/
structure Ends (c : UInt16) : Prop where
  digit : isDigit c = false
  minus : c ≠ 45
  point : c ≠ 46
  letter : ¬ (c = 101 ∨ c = 69)

theorem ends_comma : Ends COMMA := ⟨by decide, by decide, by decide, by decide⟩

theorem ends_rbrace : Ends RBRACE := ⟨by decide, by decide, by decide, by decide⟩

section Append

variable {c : UInt16} (ends : Ends c) {s r t : Text}

include ends

theorem readMinus_append :
    readMinus (s ++ c :: t) = ((readMinus s).1, (readMinus s).2 ++ c :: t) := by
  cases s with
  | nil => exact if_neg ends.minus
  | cons d s =>
      rw [List.cons_append, readMinus, readMinus]
      split <;> rfl

theorem span_append : (s ++ c :: t).takeWhile isDigit = s.takeWhile isDigit ∧
    (s ++ c :: t).dropWhile isDigit = s.dropWhile isDigit ++ c :: t := by
  induction s with
  | nil => simp [ends.digit]
  | cons d s ih =>
      rw [List.cons_append, List.takeWhile_cons, List.takeWhile_cons, List.dropWhile_cons,
        List.dropWhile_cons, ih.1, ih.2]
      cases isDigit d <;> exact ⟨rfl, rfl⟩

theorem readDigits_append {digits : Text} (read : readDigits s = some (digits, r)) :
    readDigits (s ++ c :: t) = some (digits, r ++ c :: t) := by
  unfold readDigits at read ⊢
  rw [(span_append ends).1, (span_append ends).2]
  split at read
  · cases read
  · rename_i some_
    cases read
    rw [if_neg some_]

theorem readInteger_append {digits : Text} (read : readInteger s = some (digits, r)) :
    readInteger (s ++ c :: t) = some (digits, r ++ c :: t) := by
  unfold readInteger at read ⊢
  obtain ⟨⟨digits', r'⟩, first, read⟩ := Option.bind_eq_some_iff.mp read
  rw [readDigits_append ends first]
  simp only [Option.bind_some] at read ⊢
  split at read
  · cases read
  · rename_i proper
    cases read
    rw [if_neg proper]

theorem readFraction_append {digits : Text} (read : readFraction s = some (digits, r)) :
    readFraction (s ++ c :: t) = some (digits, r ++ c :: t) := by
  cases s with
  | nil =>
      cases read
      exact if_neg ends.point
  | cons d s =>
      rw [readFraction] at read
      rw [List.cons_append, readFraction]
      split at read
      · rename_i point
        rw [if_pos point]
        exact readDigits_append ends read
      · rename_i other
        cases read
        rw [if_neg other]
        rfl

theorem readSigned_append {n : ℤ} (read : readSigned s = some (n, r)) :
    readSigned (s ++ c :: t) = some (n, r ++ c :: t) := by
  cases s with
  | nil => cases read
  | cons d s =>
      rw [readSigned] at read
      rw [List.cons_append, readSigned]
      split at read
      · rename_i plus
        obtain ⟨⟨digits, r'⟩, first, same⟩ := Option.map_eq_some_iff.mp read
        cases same
        rw [if_pos plus, readDigits_append ends first]
        rfl
      · rename_i notPlus
        split at read
        · rename_i minus
          obtain ⟨⟨digits, r'⟩, first, same⟩ := Option.map_eq_some_iff.mp read
          cases same
          rw [if_neg notPlus, if_pos minus, readDigits_append ends first]
          rfl
        · rename_i notMinus
          obtain ⟨⟨digits, r'⟩, first, same⟩ := Option.map_eq_some_iff.mp read
          cases same
          rw [if_neg notPlus, if_neg notMinus, ← List.cons_append, readDigits_append ends first]
          rfl

theorem readExponent_append {n : ℤ} (read : readExponent s = some (n, r)) :
    readExponent (s ++ c :: t) = some (n, r ++ c :: t) := by
  cases s with
  | nil =>
      cases read
      exact if_neg ends.letter
  | cons d s =>
      rw [readExponent] at read
      rw [List.cons_append, readExponent]
      split at read
      · rename_i letter
        rw [if_pos letter]
        exact readSigned_append ends read
      · rename_i other
        cases read
        rw [if_neg other]
        rfl

/-- **A number ends where nothing goes on with it.** -/
theorem readNumber_append {n : ℤ × ℤ} (read : readNumber s = some (n, r)) :
    readNumber (s ++ c :: t) = some (n, r ++ c :: t) := by
  unfold readNumber at read ⊢
  obtain ⟨⟨digits, r₁⟩, first, read⟩ := Option.bind_eq_some_iff.mp read
  obtain ⟨⟨fraction, r₂⟩, second, read⟩ := Option.bind_eq_some_iff.mp read
  obtain ⟨⟨exponent, r₃⟩, third, same⟩ := Option.map_eq_some_iff.mp read
  cases same
  rw [readMinus_append ends, readInteger_append ends first]
  simp only [Option.bind_some]
  rw [readFraction_append ends second]
  simp only [Option.bind_some]
  rw [readExponent_append ends third]
  rfl

end Append

/-- A number is not empty, and starts with a digit or a minus sign. -/
theorem starts_of_readNumber {s r : Text} {n : ℤ × ℤ} (read : readNumber s = some (n, r)) :
    ∃ c t, s = c :: t ∧ (c = 45 ∨ isDigit c = true) := by
  obtain ⟨⟨digits, r'⟩, first, -⟩ := Option.bind_eq_some_iff.mp read
  obtain ⟨⟨digits', r'⟩, second, -⟩ := Option.bind_eq_some_iff.mp first
  cases s with
  | nil => cases second
  | cons c t =>
      refine ⟨c, t, rfl, ?_⟩
      by_cases minus : c = 45
      · exact .inl minus
      · refine .inr (by_contra fun other => ?_)
        rw [readMinus, if_neg minus, readDigits, List.takeWhile_cons_of_neg other, if_pos rfl]
          at second
        cases second

/-- The decimal digits of a number. -/
def natText (n : ℕ) : Text :=
  if n = 0 then [48] else (Nat.digits 10 n).reverse.map fun d => (48 + d).toUInt16

/-- A number as it is printed. -/
def intText (n : ℤ) : Text := if n < 0 then 45 :: natText n.natAbs else natText n.natAbs

theorem isDigit_unit {d : ℕ} (small : d < 10) : isDigit (48 + d).toUInt16 = true := by
  have cases : ∀ d < 10, isDigit (48 + d).toUInt16 = true := by decide
  exact cases d small

theorem isDigit_of_mem_natText {n : ℕ} {u : UInt16} (mem : u ∈ natText n) : isDigit u = true := by
  unfold natText at mem
  split at mem
  · rw [List.mem_singleton.mp mem]
    decide
  · obtain ⟨d, digit, rfl⟩ := List.mem_map.mp mem
    exact isDigit_unit (Nat.digits_lt_base (by decide) (List.mem_reverse.mp digit))

theorem natText_ne_nil (n : ℕ) : natText n ≠ [] := by
  unfold natText
  split
  · exact List.cons_ne_nil _ _
  · rename_i nonzero
    simpa [Nat.digits_ne_nil_iff_ne_zero] using nonzero

/-- A printed number stands for itself. -/
theorem digitsValue_natText (n : ℕ) : digitsValue (natText n) = n := by
  unfold natText
  split
  · rename_i zero
    rw [zero]
    decide
  · have value : ∀ d < 10, (48 + d).toUInt16.toNat - 48 = d := by decide
    have back : (((Nat.digits 10 n).reverse.map fun d => (48 + d).toUInt16).reverse.map
        fun d => d.toNat - 48) = Nat.digits 10 n := by
      rw [← List.map_reverse, List.reverse_reverse, List.map_map]
      refine (List.map_congr_left fun d digit => ?_).trans (List.map_id _)
      exact value d (Nat.digits_lt_base (by decide) digit)
    rw [digitsValue, back, Nat.ofDigits_digits]

/-- A printed number has no needless zero in front. -/
theorem head?_natText {n : ℕ} (zero : (natText n).head? = some 48) : natText n = [48] := by
  unfold natText at zero ⊢
  split
  · rfl
  · rename_i nonzero
    rw [if_neg nonzero, List.head?_map, List.head?_reverse] at zero
    obtain ⟨d, last, same⟩ := Option.map_eq_some_iff.mp zero
    have some_ : Nat.digits 10 n ≠ [] := Nat.digits_ne_nil_iff_ne_zero.mpr nonzero
    rw [List.getLast?_eq_some_getLast some_, Option.some.injEq] at last
    have positive : d ≠ 0 := last ▸ Nat.getLast_digit_ne_zero 10 nonzero
    have small : d < 10 := last ▸ Nat.digits_lt_base (by decide) (List.getLast_mem some_)
    have onlyZero : ∀ d < 10, (48 + d).toUInt16 = 48 → d = 0 := by decide
    exact absurd (onlyZero d small same) positive

theorem readInteger_natText (n : ℕ) : readInteger (natText n) = some (natText n, []) := by
  have all : (natText n).takeWhile isDigit = natText n :=
    List.takeWhile_eq_self_iff.mpr fun u mem => isDigit_of_mem_natText mem
  have none_ : (natText n).dropWhile isDigit = [] :=
    List.dropWhile_eq_nil_iff.mpr fun u mem => isDigit_of_mem_natText mem
  have proper : ¬ ((natText n).head? = some 48 ∧ natText n ≠ [48]) :=
    fun needless => needless.2 (head?_natText needless.1)
  rw [readInteger, readDigits, all, none_, if_neg (natText_ne_nil n), Option.bind_some]
  exact if_neg proper

theorem readMinus_natText (n : ℕ) : readMinus (natText n) = (false, natText n) := by
  cases text : natText n with
  | nil => rfl
  | cons c t =>
      have digit : isDigit c = true := isDigit_of_mem_natText (text ▸ List.mem_cons_self)
      refine if_neg fun minus => ?_
      rw [minus] at digit
      cases digit

/-- **A printed number is read back.** -/
theorem readNumber_intText (n : ℤ) : readNumber (intText n) = some ((n, 0), []) := by
  have plain : readFraction [] = some ([], []) ∧ readExponent [] = some (0, []) := ⟨rfl, rfl⟩
  unfold intText
  split
  · rename_i negative
    have value : (-1 * (n.natAbs : ℤ)) = n := by omega
    have minus : readMinus (45 :: natText n.natAbs) = (true, natText n.natAbs) := by
      rw [readMinus, if_pos rfl]
    simp only [readNumber, minus, readInteger_natText, plain, Option.bind_some, Option.map_some,
      List.append_nil, digitsValue_natText, if_true, value]
    rfl
  · rename_i natural
    have value : (1 * (n.natAbs : ℤ)) = n := by omega
    simp only [readNumber, readMinus_natText, readInteger_natText, plain, Option.bind_some,
      Option.map_some, List.append_nil, digitsValue_natText, Bool.false_eq_true, if_false, value]
    rfl

/-! ## Values and lists -/

section Values

variable {s r : Text} {fuel rounds : ℕ}

theorem skip_cons {c : UInt16} (solid : isSpace c = false) (s : Text) : skip (c :: s) = c :: s :=
  List.dropWhile_cons_of_neg (by simp [solid])

theorem readValue_quote (fuel : ℕ) (s : Text) : readValue (fuel + 1) (QUOTE :: s) =
    (readString s).map fun (v, s) => (.string v, s) := by
  rw [readValue, skip_cons (by decide)]
  exact if_pos rfl

theorem readValue_lbrace (fuel : ℕ) (s : Text) : readValue (fuel + 1) (LBRACE :: s) =
    (readList (readMember (readValue fuel)) RBRACE fuel s).map fun (ms, s) => (.object ms, s) := by
  rw [readValue, skip_cons (by decide)]
  exact (if_neg (by decide)).trans (if_pos rfl)

/-- **A number is a value.** -/
theorem readValue_of_number {m e : ℤ} (read : readNumber s = some ((m, e), r)) :
    readValue (fuel + 1) s = some (.number m e, r) := by
  obtain ⟨c, t, rfl, first⟩ := starts_of_readNumber read
  have other : ∀ d, isDigit d = false → d ≠ 45 → c ≠ d := by
    rintro d notDigit notMinus rfl
    rcases first with minus | digit
    · exact notMinus minus
    · rw [notDigit] at digit
      cases digit
  have solid : isSpace c = false := by
    simp [isSpace, other 32 (by decide) (by decide), other 9 (by decide) (by decide),
      other 10 (by decide) (by decide), other 13 (by decide) (by decide)]
  have word : ∀ d ds, isDigit d = false → d ≠ 45 → ¬ d :: ds <+: c :: t :=
    fun d ds notDigit notMinus starts =>
      other d notDigit notMinus (List.cons_prefix_cons.mp starts).1.symm
  have notNull : ¬ nullText <+: c :: t := word _ _ (by decide) (by decide)
  have notTrue : ¬ trueText <+: c :: t := word _ _ (by decide) (by decide)
  have notFalse : ¬ falseText <+: c :: t := word _ _ (by decide) (by decide)
  rw [readValue, skip_cons solid]
  simp only
  rw [if_neg (other QUOTE (by decide) (by decide)), if_neg (other LBRACE (by decide) (by decide)),
    if_neg (other LBRACKET (by decide) (by decide)), if_neg notNull, if_neg notTrue,
    if_neg notFalse, read]
  rfl

/-- **A member with a clean name.** -/
theorem readMember_of_clean {name : Text} (clean : Clean name)
    (value : Text → Option (Value × Text)) (s : Text) :
    readMember value (QUOTE :: (name ++ QUOTE :: COLON :: s)) =
      (value s).map fun (v, r) => ((name, v), r) := by
  rw [readMember, skip_cons (by decide)]
  simp only [if_true, readString_of_clean clean, Option.bind_some]
  rw [skip_cons (by decide)]
  exact if_pos rfl

variable {α : Type} {item : Text → Option (α × Text)} {close : UInt16} {a : α}

/-- An item before a comma. -/
theorem readItems_comma {s' : Text} (read : item s = some (a, COMMA :: s')) :
    readItems item close (rounds + 1) s =
      (readItems item close rounds s').map fun (as, s) => (a :: as, s) := by
  rw [readItems, read, Option.bind_some]
  simp only
  rw [skip_cons (by decide)]
  exact if_pos rfl

/-- The last item. -/
theorem readItems_close {s' : Text} (apart : close ≠ COMMA) (solid : isSpace close = false)
    (read : item s = some (a, close :: s')) :
    readItems item close (rounds + 1) s = some ([a], s') := by
  rw [readItems, read, Option.bind_some]
  simp only
  rw [skip_cons solid]
  exact (if_neg apart).trans (if_pos rfl)

/-- The first item of a list that was read, and what stands behind it. -/
theorem exists_of_readItems {as : List α} (read : readItems item close rounds s = some (as, r)) :
    ∃ a as' s', item s = some (a, s') ∧ as = a :: as' ∧
      ((skip s').head? = some COMMA ∨ (skip s').head? = some close) := by
  cases rounds with
  | zero => cases read
  | succ rounds =>
      rw [readItems] at read
      obtain ⟨⟨a, s'⟩, first, read⟩ := Option.bind_eq_some_iff.mp read
      simp only at read
      cases behind : skip s' with
      | nil =>
          rw [behind] at read
          cases read
      | cons c t =>
          rw [behind] at read
          simp only at read
          split at read
          · rename_i comma
            obtain ⟨⟨as', r'⟩, -, same⟩ := Option.map_eq_some_iff.mp read
            cases same
            exact ⟨a, as', s', first, rfl, .inl (by rw [behind, comma]; rfl)⟩
          · split at read
            · rename_i closing
              cases read
              exact ⟨a, [], s', first, rfl, .inr (by rw [behind, closing]; rfl)⟩
            · cases read

end Values

/-! ## The bound on the nesting -/

/-- A reader takes something. -/
def Shortens {α : Type} (read : Text → Option (α × Text)) : Prop :=
  ∀ s a r, read s = some (a, r) → r.length < s.length

theorem length_skip_le (s : Text) : (skip s).length ≤ s.length :=
  (List.dropWhile_suffix isSpace).length_le

theorem shortens_readString : Shortens readString := by
  intro s v r read
  induction size : s.length using Nat.strong_induction_on generalizing s v with
  | _ n ih =>
      subst size
      cases s with
      | nil => cases read
      | cons c s =>
          by_cases quote : c = QUOTE
          · rw [quote, readString_quote] at read
            cases read
            simp
          by_cases backslash : c = BACKSLASH
          · subst backslash
            cases s with
            | nil => cases read
            | cons e s =>
                rcases readString_escape read with
                  ⟨u, v', h₁, h₂, h₃, h₄, s', -, rfl, -, behind, -⟩ | ⟨u, v', behind, -⟩
                · have shorter := ih s'.length (by simp; omega) s' v' behind rfl
                  simp only [List.length_cons]
                  omega
                · have shorter := ih s.length (by simp) s v' behind rfl
                  simp only [List.length_cons]
                  omega
          · by_cases control : c < 32
            · rw [readString.eq_def] at read
              simp only [quote, backslash, control, if_false, if_true] at read
              cases read
            · rw [readString_cons ⟨quote, backslash, control⟩] at read
              obtain ⟨⟨v', r'⟩, behind, same⟩ := Option.map_eq_some_iff.mp read
              cases same
              have shorter := ih s.length (by simp) s v' behind rfl
              exact shorter.trans (Nat.lt_succ_self _)

theorem shortens_readDigits : Shortens readDigits := by
  intro s digits r read
  unfold readDigits at read
  split at read
  · cases read
  · rename_i some_
    cases read
    have parts := congrArg List.length (List.takeWhile_append_dropWhile (p := isDigit) (l := s))
    have positive := List.length_pos_iff.mpr some_
    rw [List.length_append] at parts
    omega

theorem shortens_readSigned : Shortens readSigned := by
  intro s n r read
  cases s with
  | nil => cases read
  | cons c s =>
      rw [readSigned] at read
      split at read
      · obtain ⟨⟨digits, r'⟩, taken, same⟩ := Option.map_eq_some_iff.mp read
        cases same
        exact (shortens_readDigits _ _ _ taken).trans (Nat.lt_succ_self _)
      · split at read
        · obtain ⟨⟨digits, r'⟩, taken, same⟩ := Option.map_eq_some_iff.mp read
          cases same
          exact (shortens_readDigits _ _ _ taken).trans (Nat.lt_succ_self _)
        · obtain ⟨⟨digits, r'⟩, taken, same⟩ := Option.map_eq_some_iff.mp read
          cases same
          exact shortens_readDigits _ _ _ taken

theorem length_readMinus_le (s : Text) : (readMinus s).2.length ≤ s.length := by
  cases s with
  | nil => exact le_rfl
  | cons c s =>
      rw [readMinus]
      split <;> simp

theorem length_le_of_readFraction {s digits r : Text} (read : readFraction s = some (digits, r)) :
    r.length ≤ s.length := by
  cases s with
  | nil =>
      cases read
      exact le_rfl
  | cons c s =>
      rw [readFraction] at read
      split at read
      · exact (shortens_readDigits _ _ _ read).le.trans (Nat.le_succ _)
      · cases read
        exact le_rfl

theorem length_le_of_readExponent {s r : Text} {n : ℤ} (read : readExponent s = some (n, r)) :
    r.length ≤ s.length := by
  cases s with
  | nil =>
      cases read
      exact le_rfl
  | cons c s =>
      rw [readExponent] at read
      split at read
      · exact (shortens_readSigned _ _ _ read).le.trans (Nat.le_succ _)
      · cases read
        exact le_rfl

theorem shortens_readNumber : Shortens readNumber := by
  intro s n r read
  obtain ⟨⟨digits, r₁⟩, first, read⟩ := Option.bind_eq_some_iff.mp read
  obtain ⟨⟨fraction, r₂⟩, second, read⟩ := Option.bind_eq_some_iff.mp read
  obtain ⟨⟨exponent, r₃⟩, third, same⟩ := Option.map_eq_some_iff.mp read
  cases same
  have integer : r₁.length < (readMinus s).2.length := by
    obtain ⟨⟨digits', r'⟩, taken, first⟩ := Option.bind_eq_some_iff.mp first
    simp only at first
    split at first
    · cases first
    · cases first
      exact shortens_readDigits _ _ _ taken
  calc r.length ≤ r₂.length := length_le_of_readExponent third
    _ ≤ r₁.length := length_le_of_readFraction second
    _ < (readMinus s).2.length := integer
    _ ≤ s.length := length_readMinus_le s

/-- A member takes more than its value. -/
theorem shortens_readMember {value : Text → Option (Value × Text)} (shortens : Shortens value) :
    Shortens (readMember value) := by
  intro s m r read
  unfold readMember at read
  have skipped := length_skip_le s
  split at read
  · cases read
  · rename_i c t text
    rw [text, List.length_cons] at skipped
    split at read
    · obtain ⟨⟨name, t'⟩, named, read⟩ := Option.bind_eq_some_iff.mp read
      have shorter := shortens_readString _ _ _ named
      have skipped' := length_skip_le t'
      simp only at read
      split at read
      · cases read
      · rename_i d u text'
        rw [text', List.length_cons] at skipped'
        split at read
        · obtain ⟨⟨v, r'⟩, valued, same⟩ := Option.map_eq_some_iff.mp read
          cases same
          have last := shortens _ _ _ valued
          change r'.length < s.length
          omega
        · cases read
    · cases read

section Lists

variable {α : Type} {item item' : Text → Option (α × Text)} {close : UInt16} {s : Text}
  {rounds rounds' : ℕ}

theorem shortens_readItems (shortens : Shortens item) (rounds : ℕ) :
    Shortens (readItems item close rounds) := by
  induction rounds with
  | zero => exact fun _ _ _ read => by cases read
  | succ rounds ih =>
      intro s as r read
      rw [readItems] at read
      obtain ⟨⟨a, t⟩, first, read⟩ := Option.bind_eq_some_iff.mp read
      have shorter := shortens _ _ _ first
      have skipped := length_skip_le t
      simp only at read
      split at read
      · cases read
      · rename_i c u text
        rw [text, List.length_cons] at skipped
        split at read
        · obtain ⟨⟨as', r'⟩, others, same⟩ := Option.map_eq_some_iff.mp read
          cases same
          have last := ih _ _ _ others
          change r'.length < s.length
          omega
        · split at read
          · cases read
            omega
          · cases read

/-- A list takes something, its closing at least. -/
theorem shortens_readList (shortens : Shortens item) (rounds : ℕ) :
    Shortens (readList item close rounds) := by
  intro s as r read
  unfold readList at read
  split at read
  · rename_i closes
    cases read
    have skipped := length_skip_le s
    cases text : skip s with
    | nil =>
        rw [text] at closes
        cases closes
    | cons c t =>
        rw [text, List.length_cons] at skipped
        rw [List.tail_cons]
        omega
  · exact shortens_readItems shortens rounds _ _ _ read

/-- Items are read alike where they are read alike from what is left, in enough rounds. -/
theorem readItems_congr (shortens : Shortens item) (enough : s.length < rounds)
    (enough' : s.length < rounds') (alike : ∀ t, t.length ≤ s.length → item t = item' t) :
    readItems item close rounds s = readItems item' close rounds' s := by
  induction rounds generalizing s rounds' with
  | zero => exact absurd enough (Nat.not_lt_zero _)
  | succ rounds ih =>
      cases rounds' with
      | zero => exact absurd enough' (Nat.not_lt_zero _)
      | succ rounds' =>
          rw [readItems, readItems, ← alike s le_rfl]
          refine Option.bind_congr fun ⟨a, t⟩ first => ?_
          have shorter := shortens _ _ _ first
          have skipped := length_skip_le t
          simp only
          cases text : skip t with
          | nil => rfl
          | cons c u =>
              rw [text, List.length_cons] at skipped
              have others : readItems item close rounds u = readItems item' close rounds' u :=
                ih (by omega) (by omega) fun t' small => alike t' (by omega)
              simp only [others]

theorem readList_congr (shortens : Shortens item) (enough : s.length < rounds)
    (enough' : s.length < rounds') (alike : ∀ t, t.length ≤ s.length → item t = item' t) :
    readList item close rounds s = readList item' close rounds' s := by
  rw [readList, readList, readItems_congr shortens enough enough' alike]

end Lists

/-- Members are read alike where their values are. -/
theorem readMember_congr {value value' : Text → Option (Value × Text)} {s : Text}
    (alike : ∀ t, t.length ≤ s.length → value t = value' t) :
    readMember value s = readMember value' s := by
  unfold readMember
  have skipped := length_skip_le s
  cases text : skip s with
  | nil => rfl
  | cons c t =>
      rw [text, List.length_cons] at skipped
      simp only
      split
      · refine Option.bind_congr fun ⟨name, t'⟩ named => ?_
        have shorter := shortens_readString _ _ _ named
        have skipped' := length_skip_le t'
        simp only
        cases text' : skip t' with
        | nil => rfl
        | cons d u =>
            rw [text', List.length_cons] at skipped'
            have same : value u = value' u := alike u (by omega)
            simp only [same]
      · rfl

theorem shortens_readValue (fuel : ℕ) : Shortens (readValue fuel) := by
  induction fuel with
  | zero => exact fun _ _ _ read => by cases read
  | succ fuel ih =>
      intro s v r read
      rw [readValue] at read
      have skipped := length_skip_le s
      split at read
      · cases read
      · rename_i c t text
        rw [text, List.length_cons] at skipped
        refine lt_of_lt_of_le ?_ skipped
        split at read
        · obtain ⟨⟨v', r'⟩, inner, same⟩ := Option.map_eq_some_iff.mp read
          cases same
          exact (shortens_readString _ _ _ inner).trans (Nat.lt_succ_self _)
        · split at read
          · obtain ⟨⟨ms, r'⟩, inner, same⟩ := Option.map_eq_some_iff.mp read
            cases same
            exact (shortens_readList (shortens_readMember ih) _ _ _ _ inner).trans
              (Nat.lt_succ_self _)
          · split at read
            · obtain ⟨⟨vs, r'⟩, inner, same⟩ := Option.map_eq_some_iff.mp read
              cases same
              exact (shortens_readList ih _ _ _ _ inner).trans (Nat.lt_succ_self _)
            · rw [← List.length_cons]
              split at read
              · cases read
                simp
              · split at read
                · cases read
                  simp
                · split at read
                  · cases read
                    simp
                  · obtain ⟨⟨n, r'⟩, inner, same⟩ := Option.map_eq_some_iff.mp read
                    cases same
                    exact shortens_readNumber _ _ _ inner

/-- **The bound is never reached**: more of it does not change what is read. -/
theorem readValue_fuel {fuel fuel' : ℕ} {s : Text} (enough : s.length < fuel)
    (enough' : s.length < fuel') : readValue fuel s = readValue fuel' s := by
  induction fuel generalizing s fuel' with
  | zero => exact absurd enough (Nat.not_lt_zero _)
  | succ fuel ih =>
      cases fuel' with
      | zero => exact absurd enough' (Nat.not_lt_zero _)
      | succ fuel' =>
          rw [readValue, readValue]
          have skipped := length_skip_le s
          cases text : skip s with
          | nil => rfl
          | cons c t =>
              rw [text, List.length_cons] at skipped
              have alike : ∀ u, u.length ≤ t.length → readValue fuel u = readValue fuel' u :=
                fun u small => ih (by omega) (by omega)
              have objects : readList (readMember (readValue fuel)) RBRACE fuel t =
                  readList (readMember (readValue fuel')) RBRACE fuel' t :=
                readList_congr (shortens_readMember (shortens_readValue fuel)) (by omega)
                  (by omega) fun u small => readMember_congr fun w below =>
                    alike w (below.trans small)
              have arrays : readList (readValue fuel) RBRACKET fuel t =
                  readList (readValue fuel') RBRACKET fuel' t :=
                readList_congr (shortens_readValue fuel) (by omega) (by omega) alike
              simp only [objects, arrays]

/-- **`parse` with any bound that is large enough.** -/
theorem parse_eq {fuel : ℕ} {s : Text} (enough : s.length < fuel) :
    parse s = (readValue fuel s).bind fun (v, rest) => if skip rest = [] then some v else none := by
  rw [parse, readValue_fuel (Nat.lt_succ_self _) enough]

end EdgeCache.Json

import EdgeCache.NoStore

/-!
# A directive, token by token

`hasDirective` searches the `Cache-Control` value for the name of a directive, looks at the bytes on
both sides, and goes on behind the occurrence where they do not fit.  `tokenScan` cuts the value
into tokens and looks at each.

`hasDirective_eq_tokenScan` — **they are the same**, whatever stands in the value.
-/

namespace EdgeCache

open Scan

/-! ## Tokens -/

/-- A comma or a space. -/
def isCut (c : UInt8) : Bool := c == 44 || c == 32

/-- The tokens of a text. -/
def tokens (low : ByteString) : List ByteString := low.splitOnP isCut

/-- A token names a directive: it is the name, or the name with an equals sign or a zero byte
behind it. -/
def names (directive token : ByteString) : Bool :=
  token = directive || (directive ++ [61]).isPrefixOf token || (directive ++ [0]).isPrefixOf token

/-- The number that a token gives a directive: that of all the digits behind an equals sign, if
there are any and it fits in a `long`. -/
def tokenNumber (directive token : ByteString) : Option ℤ :=
  if (directive ++ [61]).isPrefixOf token then
    let digits := (token.drop (directive.length + 1)).takeWhile isdigit
    if digits ≠ [] ∧ decimalValue digits < 2 ^ 63 then some (decimalValue digits) else none
  else none

/-- The first token that names the directive, with its number. -/
def tokenScan (low directive : ByteString) : Option (Option ℤ) :=
  ((tokens low).find? (names directive)).map (tokenNumber directive)

/-- The name of a directive: lower-case letters and hyphens. -/
structure IsDirective (directive : ByteString) : Prop where
  nonempty : directive ≠ []
  letters : ∀ c ∈ directive, (97 ≤ c ∧ c ≤ 122) ∨ c = 45

/-! ## One token -/

variable {low directive : ByteString}

theorem IsDirective.uncut (name : IsDirective directive) : ∀ c ∈ directive, isCut c = false := by
  intro c mem
  have letter := name.letters c mem
  simp only [isCut, Bool.or_eq_false_iff, beq_eq_false_iff_ne]
  constructor <;> rintro rfl <;> revert letter <;> decide

theorem IsDirective.solid (name : IsDirective directive) : 44 ∉ directive ∧ 32 ∉ directive :=
  ⟨fun mem => absurd (name.uncut _ mem) (by decide),
    fun mem => absurd (name.uncut _ mem) (by decide)⟩

/-- What follows the name in the text follows it in the token, up to the cut. -/
theorem pieceAt_of_split (name : IsDirective directive) {p : ℕ} {tail : ByteString}
    (split : directive ++ tail = low.drop p) :
    pieceAt isCut low p = directive ++ tail.takeWhile fun c => !isCut c := by
  rw [pieceAt, ← split]
  exact List.takeWhile_append_of_pos fun c mem => by simp [name.uncut c mem]

/-- The byte behind the name. -/
theorem getElem?_of_split {p : ℕ} {tail : ByteString} (split : directive ++ tail = low.drop p) :
    low[p + directive.length]? = tail.head? := by
  rw [← List.getElem?_drop, ← split, List.getElem?_append_right le_rfl, Nat.sub_self,
    List.head?_eq_getElem?]

theorem startsAt_isCut_iff {p : ℕ} :
    startsAt isCut low p ↔ p = 0 ∨ low[p - 1]? = some 44 ∨ low[p - 1]? = some 32 := by
  unfold startsAt
  cases low[p - 1]? with
  | none => simp
  | some c => simp [isCut]

/-- A token with the name in front names the directive by what follows. -/
theorem names_append_iff {rest : ByteString} :
    names directive (directive ++ rest) ↔ rest = [] ∨ [61] <+: rest ∨ [0] <+: rest := by
  simp only [names, Bool.or_eq_true, decide_eq_true_eq, List.append_right_eq_self,
    List.isPrefixOf_iff_prefix, List.prefix_append_right_inj, or_assoc]

/-- What follows the name up to the cut names the directive exactly if the byte behind the name is
none, a cut, an equals sign or a zero byte. -/
theorem named_iff (tail : ByteString) :
    ((tail.takeWhile fun c => !isCut c) = [] ∨ [61] <+: tail.takeWhile (fun c => !isCut c) ∨
        [0] <+: tail.takeWhile fun c => !isCut c) ↔
      tail.head?.getD 0 = 0 ∨ tail.head?.getD 0 = 44 ∨ tail.head?.getD 0 = 32 ∨
        tail.head?.getD 0 = 61 := by
  cases tail with
  | nil => simp
  | cons c tail =>
      by_cases cut : c = 44 ∨ c = 32
      · rcases cut with rfl | rfl <;> simp [isCut]
      · have inner : (!isCut c) = true := by simpa [isCut, not_or] using cut
        rw [not_or] at cut
        simp only [List.takeWhile_cons, inner, if_true, List.cons_prefix_cons, List.nil_prefix,
          and_true, reduceCtorEq, List.head?_cons, Option.getD_some, cut.1, cut.2, false_or]
        rw [or_comm, eq_comm, @eq_comm _ c 61]

/-- **The name stands at a position exactly if** a token starts there that names the directive. -/
theorem standsAt_iff (name : IsDirective directive) (p : ℕ) :
    StandsAt low directive p ↔
      startsAt isCut low p ∧ names directive (pieceAt isCut low p) := by
  have here_of_names (named : names directive (pieceAt isCut low p) = true) :
      directive <+: low.drop p := by
    have front : directive <+: pieceAt isCut low p := by
      simp only [names, Bool.or_eq_true, decide_eq_true_eq, List.isPrefixOf_iff_prefix] at named
      rcases named with (same | number) | zero
      · rw [same]
      · exact (List.prefix_append _ _).trans number
      · exact (List.prefix_append _ _).trans zero
    exact front.trans (List.takeWhile_prefix _)
  rw [startsAt_isCut_iff]
  constructor
  · rintro ⟨⟨tail, split⟩, before, behind⟩
    refine ⟨before, ?_⟩
    rw [pieceAt_of_split name split, names_append_iff, named_iff]
    rwa [getElem?_of_split split] at behind
  · rintro ⟨before, named⟩
    obtain ⟨tail, split⟩ := here_of_names named
    rw [pieceAt_of_split name split, names_append_iff, named_iff] at named
    refine ⟨⟨tail, split⟩, before, ?_⟩
    rwa [getElem?_of_split split]

/-- Digits are not cut. -/
theorem takeWhile_isdigit (tail : ByteString) :
    (tail.takeWhile fun c => !isCut c).takeWhile isdigit = tail.takeWhile isdigit := by
  have digits : (fun c => decide (isdigit c = true ∧ (!isCut c) = true)) = isdigit := by
    funext c
    cases digit : isdigit c with
    | false => simp
    | true =>
        have inner : isCut c = false := by
          simp only [isCut, Bool.or_eq_false_iff, beq_eq_false_iff_ne]
          constructor <;> rintro rfl <;> revert digit <;> decide
        simp [inner]
  rw [List.takeWhile_takeWhile, digits]

/-- `std::stol` throws where there are no digits, and where there are too many. -/
theorem stol_eq (digits : ByteString) :
    stol digits = if digits ≠ [] ∧ decimalValue digits < 2 ^ 63 then some (decimalValue digits : ℤ)
      else none := by
  unfold stol
  by_cases empty : digits = []
  · simp [empty]
  · simp [empty]

/-- The number that follows the name. -/
theorem tokenNumber_append (rest : ByteString) :
    tokenNumber directive (directive ++ rest) =
      if rest.head? = some 61 then stol ((rest.drop 1).takeWhile isdigit) else none := by
  have front : (directive ++ [61]).isPrefixOf (directive ++ rest) ↔ rest.head? = some 61 := by
    rw [List.isPrefixOf_iff_prefix, List.prefix_append_right_inj]
    cases rest <;> simp [eq_comm]
  have digits : (directive ++ rest).drop (directive.length + 1) = rest.drop 1 := by
    rw [← List.drop_drop, List.drop_left]
  rw [tokenNumber, digits, stol_eq]
  exact if_congr front rfl rfl

/-- The number behind the name is that of the token. -/
theorem numberAt_eq (name : IsDirective directive) {p : ℕ} (stands : StandsAt low directive p) :
    numberAt low directive p = tokenNumber directive (pieceAt isCut low p) := by
  obtain ⟨⟨tail, split⟩, -, -⟩ := stands
  have behind : low.drop (p + directive.length + 1) = tail.drop 1 := by
    rw [← List.drop_drop, ← List.drop_drop, ← split, List.drop_left]
  rw [numberAt, pieceAt_of_split name split, tokenNumber_append, getElem?_of_split split, behind]
  cases tail with
  | nil => rfl
  | cons c tail =>
      rw [List.head?_cons, Option.getD_some]
      by_cases equals : c = 61
      · have kept : (c :: tail).takeWhile (fun c => !isCut c) =
            c :: tail.takeWhile fun c => !isCut c := by
          simp [equals, isCut]
        rw [kept, if_pos equals, List.head?_cons, if_pos (congrArg some equals)]
        exact congrArg stol (takeWhile_isdigit tail).symm
      · have other : ((c :: tail).takeWhile fun c => !isCut c).head? ≠ some 61 := by
          rw [List.head?_takeWhile, List.head?_cons, Ne, Option.filter_eq_some_iff]
          exact fun same => equals (Option.some.inj same.1)
        rw [if_neg equals, if_neg other]

/-! ## The scan -/

/-- **The search is the scan of the tokens**: no occurrence that it skips is a token. -/
theorem hasDirective_eq_tokenScan (cc : ByteString) (name : IsDirective directive) :
    hasDirective cc directive = tokenScan (lower cc) directive := by
  have enough : (lower cc).length < cc.length + 1 + 0 := by simp [lower]
  ext number
  rw [hasDirective, directiveFrom_eq_some_iff name.solid name.nonempty enough, tokenScan,
    Option.map_eq_some_iff]
  constructor
  · rintro ⟨p, ⟨-, stands, first⟩, rfl⟩
    refine ⟨pieceAt isCut (lower cc) p, ?_, (numberAt_eq name stands).symm⟩
    refine find?_splitOnP_eq_some_iff.mpr ⟨p, (standsAt_iff name p).mp stands, ?_, rfl⟩
    exact fun q before there => first q (Nat.zero_le q) before ((standsAt_iff name q).mpr there)
  · rintro ⟨token, found, rfl⟩
    obtain ⟨p, here, first, rfl⟩ := find?_splitOnP_eq_some_iff.mp found
    have stands := (standsAt_iff name p).mpr here
    refine ⟨p, ⟨Nat.zero_le p, stands, fun q _ before there => ?_⟩, (numberAt_eq name stands).symm⟩
    exact first q before ((standsAt_iff name q).mp there)

/-- `*outValue` after `hasDirective`, for a pointer that is not null. -/
def outValue (cc directive : ByteString) (v : ℤ) : ℤ := ((hasDirective cc directive).join).getD v

/-- **`hasDirective` answers whether some token names the directive**, and changes `*outValue` to
the number of the first such token, if it has one. -/
theorem hasDirective_iff (cc : ByteString) (name : IsDirective directive) :
    ((hasDirective cc directive).isSome ↔
        ∃ token ∈ tokens (lower cc), token = directive ∨ directive ++ [61] <+: token ∨
          directive ++ [0] <+: token) ∧
      ∀ v, outValue cc directive v =
        (((tokens (lower cc)).find? (names directive)).bind (tokenNumber directive)).getD v := by
  unfold outValue
  rw [hasDirective_eq_tokenScan cc name, tokenScan]
  refine ⟨?_, fun v => ?_⟩
  · rw [Option.isSome_map, List.find?_isSome]
    simp only [names, Bool.or_eq_true, decide_eq_true_eq, List.isPrefixOf_iff_prefix, or_assoc]
  · cases (tokens (lower cc)).find? (names directive) <;> rfl

/-- A longer word, the directive with a number that does not fit, and with one that does. -/
def exampleControl : ByteString := bytes "xmax-age=1,Max-Age=99999999999999999999, max-age=5"

/-- The first of the two tokens counts, and changes nothing. -/
theorem hasDirective_exampleControl :
    (hasDirective exampleControl (bytes "max-age")).isSome ∧
      outValue exampleControl (bytes "max-age") 7 = 7 := by
  obtain ⟨answer, value⟩ := hasDirective_iff exampleControl
    (show IsDirective (bytes "max-age") from ⟨by decide +kernel, by decide +kernel⟩)
  refine ⟨answer.mpr ⟨bytes "max-age=99999999999999999999", ?_⟩, (value 7).trans ?_⟩
  · decide +kernel
  · decide +kernel

end EdgeCache

import Mathlib

/-!
# Scanning a sequence

Text protocols are read with three primitives: find the first occurrence of a
separator, cut a block into lines, and read one blank-delimited word.  This
module states them over an arbitrary alphabet and proves the laws a parser
proof needs.

* `find` — the position of the first occurrence of a pattern.  It is
  characterised by `find_eq_some_iff`, and it is **stable**: appending input
  after an occurrence does not move it (`find_append`), and an occurrence that
  already fits in a prefix is found there (`find_of_append`).
* `lines` — the pieces between delimiters, as a stream reader sees them: a
  final delimiter does not open an empty last line.
* `splitOnP_eq_map` — the pieces between separators, by the positions where they start.
* `readWord` — skip separators, then take the longest separator-free run.
-/

namespace EdgeCache.Scan

universe u

variable {α : Type u} [DecidableEq α]

/-! ## First occurrence -/

/-- The position of the first occurrence of `pat` in `xs`. -/
def find (xs pat : List α) : Option ℕ :=
  (xs.dropInfix? pat).map fun split => split.1.length

/-- `find` is the *first* position at which the pattern can be read. -/
theorem find_eq_some_iff {xs pat : List α} {h : ℕ} :
    find xs pat = some h ↔
      h ≤ xs.length ∧ pat <+: xs.drop h ∧ ∀ j < h, ¬ pat <+: xs.drop j := by
  simp only [find, Option.map_eq_some_iff, Prod.exists, List.dropInfix?_eq_some_iff, beq_iff_eq]
  constructor
  · rintro ⟨front, back, ⟨⟨_, rfl, rfl⟩, first⟩, rfl⟩
    refine ⟨by simp, by simp, fun j before here => ?_⟩
    obtain ⟨tail, split⟩ := here
    have short := first (List.take j _) _ tail
      (by rw [List.append_assoc _ _ tail, split, List.take_append_drop]) rfl
    rw [List.length_take] at short
    omega
  · rintro ⟨inside, ⟨tail, split⟩, first⟩
    refine ⟨xs.take h, tail, ⟨⟨pat, ?_, rfl⟩, ?_⟩, List.length_take_of_le inside⟩
    · rw [List.append_assoc, split, List.take_append_drop]
    · rintro front _ back rfl rfl
      by_contra early
      refine first front.length ?_ (by simp)
      simp only [List.length_take] at early
      omega

/-- The pattern fits in the sequence where it is found. -/
theorem find_add_length_le {xs pat : List α} {h : ℕ} (found : find xs pat = some h) :
    h + pat.length ≤ xs.length := by
  rw [find_eq_some_iff] at found
  obtain ⟨inside, here, -⟩ := found
  have fits := here.length_le
  rw [List.length_drop] at fits
  omega

/-- `find` fails exactly when the pattern is nowhere. -/
theorem find_eq_none_iff {xs pat : List α} :
    find xs pat = none ↔ ∀ j ≤ xs.length, ¬ pat <+: xs.drop j := by
  constructor
  · intro missing j inside here
    have occurs : ∃ j, j ≤ xs.length ∧ pat <+: xs.drop j := ⟨j, inside, here⟩
    have found : find xs pat = some (Nat.find occurs) := by
      rw [find_eq_some_iff]
      refine ⟨(Nat.find_spec occurs).1, (Nat.find_spec occurs).2, fun k before there => ?_⟩
      have within := (Nat.find_spec occurs).1
      exact Nat.find_min occurs before ⟨by omega, there⟩
    rw [missing] at found
    cases found
  · intro nowhere
    cases found : find xs pat with
    | none => rfl
    | some h =>
        rw [find_eq_some_iff] at found
        exact absurd found.2.1 (nowhere h found.1)

omit [DecidableEq α] in
/-- A prefix of a drop of `xs ++ ys` that fits in `xs` is one of a drop of `xs`. -/
theorem prefix_drop_append_iff {xs ys pat : List α} {j : ℕ}
    (fits : j + pat.length ≤ xs.length) :
    pat <+: (xs ++ ys).drop j ↔ pat <+: xs.drop j := by
  rw [List.drop_append_of_le_length (by omega)]
  constructor
  · intro here
    exact List.prefix_of_prefix_length_le here (List.prefix_append _ _)
      (by rw [List.length_drop]; omega)
  · intro here
    exact here.trans (List.prefix_append _ _)

/-- **Stability.**  More input after an occurrence does not move it. -/
theorem find_append {xs pat : List α} {h : ℕ} (ys : List α)
    (found : find xs pat = some h) : find (xs ++ ys) pat = some h := by
  have fits := find_add_length_le found
  rw [find_eq_some_iff] at found ⊢
  obtain ⟨inside, here, first⟩ := found
  refine ⟨by simp; omega, (prefix_drop_append_iff fits).mpr here, ?_⟩
  intro j before there
  exact first j before ((prefix_drop_append_iff (by omega)).mp there)

/-- An occurrence that ends inside a prefix of the input is found in the prefix. -/
theorem find_of_append {xs ys pat : List α} {h : ℕ}
    (found : find (xs ++ ys) pat = some h) (fits : h + pat.length ≤ xs.length) :
    find xs pat = some h := by
  rw [find_eq_some_iff] at found ⊢
  obtain ⟨-, here, first⟩ := found
  refine ⟨by omega, (prefix_drop_append_iff fits).mp here, ?_⟩
  intro j before there
  exact first j before ((prefix_drop_append_iff (by omega)).mpr there)

/-- The two stability laws together: whether a prefix of the input already
shows the occurrence depends only on where it ends. -/
theorem find_of_part {xs zs pat : List α} {h k : ℕ} (cut : xs <+: zs)
    (found : find xs pat = some h) (whole : find zs pat = some k) : h = k := by
  obtain ⟨ys, rfl⟩ := cut
  have := find_append ys found
  rw [whole] at this
  exact (Option.some.inj this).symm

/-- The first occurrence of a pattern whose first symbol is absent from what precedes. -/
theorem find_append_of_notMem {xs : List α} {c : α} {pat : List α} (absent : c ∉ xs)
    (ys : List α) : find (xs ++ (c :: pat ++ ys)) (c :: pat) = some xs.length := by
  rw [find_eq_some_iff]
  refine ⟨by simp, by simp, fun j before here => absent ?_⟩
  rw [List.drop_append_of_le_length (by omega), List.drop_eq_getElem_cons before,
    List.cons_append, List.cons_prefix_cons] at here
  exact here.1 ▸ List.getElem_mem before

/-- The first occurrence of one symbol, when it is absent from what precedes. -/
theorem find_singleton_append {xs : List α} {c : α} (absent : c ∉ xs) (ys : List α) :
    find (xs ++ c :: ys) [c] = some xs.length := find_append_of_notMem absent ys

theorem find_singleton_eq_none_iff {xs : List α} {c : α} :
    find xs [c] = none ↔ c ∉ xs := by
  constructor
  · intro missing mem
    obtain ⟨front, back, rfl, absent⟩ := List.eq_append_cons_of_mem mem
    rw [find_singleton_append absent] at missing
    cases missing
  · intro absent
    rw [find_eq_none_iff]
    refine fun j _ here => absent ?_
    exact List.mem_of_mem_drop (here.subset (List.mem_singleton_self c))

/-- Where a front is comparable with the pattern nowhere, the pattern is found behind it. -/
theorem find_append_of_apart {front pat back : List α} {h : ℕ}
    (apart : ∀ j < front.length, ¬ pat <+: front.drop j ∧ ¬ front.drop j <+: pat)
    (found : find back pat = some h) : find (front ++ back) pat = some (front.length + h) := by
  rw [find_eq_some_iff] at found ⊢
  obtain ⟨inside, here, first⟩ := found
  refine ⟨by simp [inside], ?_, fun j before there => ?_⟩
  · rwa [← List.drop_drop, List.drop_left]
  · rcases Nat.lt_or_ge j front.length with within | behind
    · rw [List.drop_append_of_le_length within.le] at there
      rcases List.prefix_or_prefix_of_prefix there (List.prefix_append _ back) with short | long
      · exact (apart j within).1 short
      · exact (apart j within).2 long
    · rw [List.drop_append, List.drop_eq_nil_of_le behind, List.nil_append] at there
      exact first (j - front.length) (by omega) there

/-- The symbol that was found does not stand before the place where it was found. -/
theorem notMem_take_of_find {xs : List α} {c : α} {h : ℕ} (found : find xs [c] = some h) :
    c ∉ xs.take h := by
  rw [find_eq_some_iff] at found
  obtain ⟨-, -, first⟩ := found
  intro mem
  obtain ⟨j, inside, here⟩ := List.mem_iff_getElem.mp mem
  rw [List.length_take] at inside
  refine first j (by omega) ?_
  rw [List.getElem_take] at here
  rw [List.drop_eq_getElem_cons (by omega), here]
  exact List.prefix_append [c] _

/-! ## Lines -/

/-- The lines of a block, cut at the delimiter `d`.  A delimiter ends a line,
so a final one does not open an empty last line, and the empty block has no
line at all. -/
def lines (d : α) : List α → List (List α)
  | [] => []
  | c :: rest =>
      if c = d then [] :: lines d rest
      else
        match lines d rest with
        | [] => [[c]]
        | line :: more => (c :: line) :: more

@[simp] theorem lines_nil (d : α) : lines d [] = [] := rfl

theorem lines_cons_delim (d : α) (rest : List α) :
    lines d (d :: rest) = [] :: lines d rest := by simp [lines]

/-- A delimited line in front of a block is its first line. -/
theorem lines_append_delim {d : α} {line : List α} (absent : d ∉ line) (rest : List α) :
    lines d (line ++ d :: rest) = line :: lines d rest := by
  induction line with
  | nil => exact lines_cons_delim d rest
  | cons c line ih =>
      rw [List.mem_cons, not_or] at absent
      rw [List.cons_append, lines, if_neg (Ne.symm absent.1), ih absent.2]

/-- The last line needs no delimiter. -/
theorem lines_of_notMem {d : α} {line : List α} (nonempty : line ≠ []) (absent : d ∉ line) :
    lines d line = [line] := by
  induction line with
  | nil => exact absurd rfl nonempty
  | cons c line ih =>
      rw [List.mem_cons, not_or] at absent
      rw [lines, if_neg (Ne.symm absent.1)]
      cases line with
      | nil => rfl
      | cons c' line => rw [ih (by simp) absent.2]

/-- Cut at every delimiter, a block shows its lines, and possibly an empty piece after the
last of them. -/
theorem splitOn_eq_lines (d : α) (xs : List α) :
    xs.splitOn d = lines d xs ∨ xs.splitOn d = lines d xs ++ [[]] := by
  induction xs with
  | nil => exact Or.inr (List.splitOn_nil d)
  | cons c xs ih =>
      rw [List.splitOn_cons_eq_if_modifyHead, lines]
      by_cases here : c = d
      · rw [if_pos (beq_iff_eq.mpr here), if_pos here]
        exact ih.imp (congrArg _) fun open_ => by rw [open_, List.cons_append]
      · rw [if_neg (by simpa using here), if_neg here]
        have some_ := List.splitOn_ne_nil d xs
        cases cut : lines d xs with
        | nil =>
            rw [cut] at ih
            have blank : xs.splitOn d = [[]] := ih.resolve_left some_
            exact Or.inl (by rw [blank, List.modifyHead_cons])
        | cons line more =>
            rw [cut] at ih
            exact ih.imp (fun same => by rw [same, List.modifyHead_cons])
              fun same => by rw [same, List.cons_append, List.modifyHead_cons, List.cons_append]

/-- No piece between delimiters contains one. -/
theorem notMem_of_mem_splitOn {d : α} {xs piece : List α} (mem : piece ∈ xs.splitOn d) :
    d ∉ piece := by
  induction xs generalizing piece with
  | nil =>
      rw [List.splitOn_nil, List.mem_singleton] at mem
      simp [mem]
  | cons c xs ih =>
      rw [List.splitOn_cons_eq_if_modifyHead] at mem
      obtain ⟨first, more, cut⟩ := List.exists_cons_of_ne_nil (List.splitOn_ne_nil d xs)
      rw [cut] at mem ih
      split at mem
      · rcases List.mem_cons.mp mem with rfl | later
        · simp
        · exact ih later
      · rename_i here
        rw [List.modifyHead_cons] at mem
        rcases List.mem_cons.mp mem with rfl | later
        · rw [List.mem_cons, not_or]
          exact ⟨fun same => here (by simp [same]), ih (List.mem_cons_self)⟩
        · exact ih (List.mem_cons_of_mem _ later)

/-- Where the pieces between delimiters stand: the first at the start, each other one behind a
delimiter, and a delimiter or the end behind each. -/
theorem splitOn_split {d : α} {xs piece : List α} {more : List (List α)}
    (cut : xs.splitOn d = piece :: more) :
    (∃ back, xs = piece ++ back ∧ ∀ c ∈ back.head?, c = d) ∧
      ∀ later ∈ more, ∃ front back, xs = front ++ d :: (later ++ back) ∧ ∀ c ∈ back.head?, c = d := by
  induction xs generalizing piece more with
  | nil =>
      rw [List.splitOn_nil] at cut
      cases cut
      exact ⟨⟨[], rfl, by simp⟩, by simp⟩
  | cons c xs ih =>
      rw [List.splitOn_cons_eq_if_modifyHead] at cut
      obtain ⟨first, others, rest⟩ := List.exists_cons_of_ne_nil (List.splitOn_ne_nil d xs)
      obtain ⟨⟨back, whole, ends⟩, behind⟩ := ih rest
      rw [rest] at cut
      split at cut
      · rename_i here
        rw [beq_iff_eq] at here
        cases cut
        refine ⟨⟨c :: xs, rfl, by simp [here]⟩, fun later mem => ?_⟩
        rcases List.mem_cons.mp mem with rfl | further
        · exact ⟨[], back, by rw [here, whole]; rfl, ends⟩
        · obtain ⟨front, back, whole, ends⟩ := behind later further
          exact ⟨c :: front, back, by rw [whole]; rfl, ends⟩
      · rw [List.modifyHead_cons] at cut
        cases cut
        refine ⟨⟨back, by rw [whole]; rfl, ends⟩, fun later mem => ?_⟩
        obtain ⟨front, back, whole, ends⟩ := behind later mem
        exact ⟨c :: front, back, by rw [whole]; rfl, ends⟩

/-- A piece between delimiters stands between two of them, or at an end. -/
theorem split_of_mem_splitOn {d : α} {xs piece : List α} (mem : piece ∈ xs.splitOn d) :
    ∃ front back, xs = front ++ (piece ++ back) ∧ (∀ c ∈ front.getLast?, c = d) ∧
      ∀ c ∈ back.head?, c = d := by
  obtain ⟨first, more, cut⟩ := List.exists_cons_of_ne_nil (List.splitOn_ne_nil d xs)
  obtain ⟨⟨back, whole, ends⟩, behind⟩ := splitOn_split cut
  rw [cut] at mem
  rcases List.mem_cons.mp mem with rfl | later
  · exact ⟨[], back, whole, by simp, ends⟩
  · obtain ⟨front, back, whole, ends⟩ := behind piece later
    exact ⟨front ++ [d], back, by rw [whole]; simp, by simp, ends⟩

/-- No line contains a delimiter. -/
theorem notMem_of_mem_lines {d : α} {xs line : List α} (mem : line ∈ lines d xs) :
    d ∉ line := by
  have piece : line ∈ xs.splitOn d := by
    rcases splitOn_eq_lines d xs with same | same
    · rwa [same]
    · rw [same]
      exact List.mem_append_left _ mem
  exact notMem_of_mem_splitOn piece

/-- The lines and the pieces between delimiters differ by empty ones only. -/
theorem filter_lines (d : α) (xs : List α) :
    (lines d xs).filter (· ≠ []) = (xs.splitOn d).filter (· ≠ []) := by
  rcases splitOn_eq_lines d xs with same | same
  · rw [same]
  · rw [same, List.filter_append]
    simp

/-! ## Words -/

omit [DecidableEq α]

/-- Read one word: skip separators, then take the longest run without one.
There is no word when only separators are left. -/
def readWord (sep : α → Bool) (xs : List α) : Option (List α × List α) :=
  let rest := xs.dropWhile sep
  if rest.isEmpty then none
  else some (rest.takeWhile fun c => !sep c, rest.dropWhile fun c => !sep c)

/-- A separator-free word that ends the input or is followed by a separator is
read whole. -/
theorem readWord_append {sep : α → Bool} {word rest : List α} (nonempty : word ≠ [])
    (solid : ∀ c ∈ word, sep c = false) (ends : ∀ c ∈ rest.head?, sep c = true) :
    readWord sep (word ++ rest) = some (word, rest) := by
  have keep : (word ++ rest).dropWhile sep = word ++ rest := by
    cases word with
    | nil => exact absurd rfl nonempty
    | cons c word =>
        exact List.dropWhile_cons_of_neg (by simp [solid c (by simp)])
  have stop : rest.takeWhile (fun c => !sep c) = [] ∧
      rest.dropWhile (fun c => !sep c) = rest := by
    cases rest with
    | nil => simp
    | cons c rest => simp [ends c (by simp)]
  have whole : ∀ c ∈ word, (!sep c) = true := fun c mem => by simp [solid c mem]
  simp only [readWord, keep, List.isEmpty_iff, List.append_eq_nil_iff, nonempty,
    false_and, if_false]
  rw [List.takeWhile_append_of_pos whole, List.dropWhile_append_of_pos whole, stop.1, stop.2,
    List.append_nil]

/-- Separators in front of a word are skipped. -/
theorem readWord_cons_sep {sep : α → Bool} {c : α} (blank : sep c = true) (xs : List α) :
    readWord sep (c :: xs) = readWord sep xs := by
  simp [readWord, List.dropWhile_cons_of_pos blank]

/-! ## Pieces and where they start -/

/-- A piece starts at the beginning, and behind every separator. -/
def startsAt (sep : α → Bool) (xs : List α) (i : ℕ) : Bool := i == 0 || xs[i - 1]?.any sep

/-- The piece that starts at a position. -/
def pieceAt (sep : α → Bool) (xs : List α) (i : ℕ) : List α :=
  (xs.drop i).takeWhile fun c => !sep c

/-- The starts of a sequence with one more symbol in front. -/
theorem starts_cons (sep : α → Bool) (c : α) (xs : List α) :
    (List.range (xs.length + 1)).filter (startsAt sep (c :: xs) ∘ Nat.succ) =
      if sep c then (List.range (xs.length + 1)).filter (startsAt sep xs)
      else ((List.range xs.length).map Nat.succ).filter (startsAt sep xs) := by
  have later : ((List.range xs.length).map Nat.succ).filter (startsAt sep (c :: xs) ∘ Nat.succ) =
      ((List.range xs.length).map Nat.succ).filter (startsAt sep xs) := by
    refine List.filter_congr fun i mem => ?_
    obtain ⟨j, -, rfl⟩ := List.mem_map.mp mem
    rfl
  rw [List.range_succ_eq_map, List.filter_cons, later]
  exact if_congr Iff.rfl rfl rfl

/-- **The pieces between separators are those at the starts.** -/
theorem splitOnP_eq_map (sep : α → Bool) (xs : List α) :
    xs.splitOnP sep =
      ((List.range (xs.length + 1)).filter (startsAt sep xs)).map (pieceAt sep xs) := by
  induction xs with
  | nil => simp [startsAt, pieceAt]
  | cons c xs ih =>
      have whole : (List.range ((c :: xs).length + 1)).filter (startsAt sep (c :: xs)) =
          0 :: ((List.range (xs.length + 1)).filter (startsAt sep (c :: xs) ∘ Nat.succ)).map
            Nat.succ := by
        rw [List.length_cons, List.range_succ_eq_map, List.filter_cons_of_pos (by rfl),
          List.filter_map]
      have first : (List.range (xs.length + 1)).filter (startsAt sep xs) =
          0 :: ((List.range xs.length).map Nat.succ).filter (startsAt sep xs) := by
        rw [List.range_succ_eq_map, List.filter_cons_of_pos (by rfl)]
      have behind : pieceAt sep (c :: xs) ∘ Nat.succ = pieceAt sep xs := rfl
      rw [List.splitOnP_cons_eq_if_modifyHead, ih, whole, starts_cons, List.map_cons, List.map_map,
        behind]
      cases here : sep c with
      | true => simp [pieceAt, here]
      | false => simp [first, pieceAt, here]

/-- **The first piece with a property** is the one at the first start that has it. -/
theorem find?_splitOnP_eq_some_iff {sep : α → Bool} {xs : List α} {good : List α → Bool}
    {piece : List α} :
    (xs.splitOnP sep).find? good = some piece ↔
      ∃ i, (startsAt sep xs i ∧ good (pieceAt sep xs i)) ∧
        (∀ j < i, ¬ (startsAt sep xs j ∧ good (pieceAt sep xs j))) ∧ piece = pieceAt sep xs i := by
  rw [splitOnP_eq_map, List.find?_map, List.find?_filter, Option.map_eq_some_iff]
  constructor
  · rintro ⟨i, found, rfl⟩
    rw [List.find?_range_eq_some] at found
    obtain ⟨here, -, first⟩ := found
    refine ⟨i, of_decide_eq_true here, fun j before => ?_, rfl⟩
    simpa only [Bool.not_eq_true', decide_eq_false_iff_not, Function.comp_apply] using
      first j before
  · rintro ⟨i, here, first, rfl⟩
    refine ⟨i, ?_, rfl⟩
    have inside : i < xs.length + 1 := by
      by_contra outside
      have beyond : xs[i - 1]? = none := List.getElem?_eq_none (by omega)
      have start := here.1
      simp only [startsAt, beyond, Option.any_none, Bool.or_false, beq_iff_eq] at start
      omega
    rw [List.find?_range_eq_some]
    refine ⟨decide_eq_true here, List.mem_range.mpr inside, fun j before => ?_⟩
    simpa only [Bool.not_eq_true', decide_eq_false_iff_not, Function.comp_apply] using
      first j before

end EdgeCache.Scan

import EdgeCache.CachePolicy
import EdgeCache.OriginResponse

/-!
# Answers that must not be stored

`HeaderBasedPolicy` looks for `no-store`, `private` and `no-cache` in the `Cache-Control` value it
finds in the header map.  That is the value of the last such line, and a directive counts only
between a comma, a space or the start of the value on one side, and a comma, a space, an equals
sign or the end on the other.

* `isSome_hasDirective_iff` — what the search finds.
* `not_cacheable_iff` — **when the policy refuses** an answer of the origin.
* `honoured_iff` — **on which answers it refuses all that the origin forbids to store.**
-/

namespace EdgeCache

open Scan

/-! ## The search for a directive -/

/-- The directive stands in the text at the position `p`, between the boundaries the search
knows. -/
def StandsAt (low directive : ByteString) (p : ℕ) : Prop :=
  directive <+: low.drop p ∧ (p = 0 ∨ low[p - 1]? = some 44 ∨ low[p - 1]? = some 32) ∧
    (low[p + directive.length]?.getD 0 = 0 ∨ low[p + directive.length]?.getD 0 = 44 ∨
      low[p + directive.length]?.getD 0 = 32 ∨ low[p + directive.length]?.getD 0 = 61)

/-- The directive stands somewhere in the text. -/
def Stands (low directive : ByteString) : Prop := ∃ p, StandsAt low directive p

/-- A directive that stands in the text has no boundary inside it. -/
theorem StandsAt.not_inside {low directive : ByteString} {p q : ℕ} (stands : StandsAt low directive q)
    (solid : 44 ∉ directive ∧ 32 ∉ directive) (here : directive <+: low.drop p) (after : p < q) :
    p + directive.length ≤ q := by
  by_contra inside
  have letter : low[q - 1]? = directive[q - 1 - p]? := by
    obtain ⟨tail, split⟩ := here
    have position : low[q - 1]? = (low.drop p)[q - 1 - p]? := by
      rw [List.getElem?_drop, show p + (q - 1 - p) = q - 1 by omega]
    rw [position, ← split, List.getElem?_append_left (by omega)]
  rcases stands.2.1 with start | comma | space
  · omega
  · exact solid.1 (List.mem_of_getElem? (letter ▸ comma))
  · exact solid.2 (List.mem_of_getElem? (letter ▸ space))

/-- The first position where the directive stands, from a position on. -/
structure FirstStandsAt (low directive : ByteString) (pos p : ℕ) : Prop where
  behind : pos ≤ p
  stands : StandsAt low directive p
  first : ∀ q, pos ≤ q → q < p → ¬ StandsAt low directive q

/-- What lies before every position where the directive stands can be skipped. -/
theorem firstStandsAt_skip {low directive : ByteString} {pos next p : ℕ} (le : pos ≤ next)
    (skipped : ∀ q, pos ≤ q → StandsAt low directive q → next ≤ q) :
    FirstStandsAt low directive pos p ↔ FirstStandsAt low directive next p := by
  constructor
  · rintro ⟨behind, stands, first⟩
    exact ⟨skipped p behind stands, stands, fun q after => first q (le.trans after)⟩
  · rintro ⟨behind, stands, first⟩
    exact ⟨le.trans behind, stands,
      fun q after before there => first q (skipped q after there) before there⟩

/-- The number behind the directive, where an equals sign and digits follow it. -/
def numberAt (low directive : ByteString) (p : ℕ) : Option ℤ :=
  if low[p + directive.length]?.getD 0 = 61 then
    stol ((low.drop (p + directive.length + 1)).takeWhile isdigit)
  else none

/-- **The search finds the first place where the directive stands**, behind the position it starts
from, and the number there. -/
theorem directiveFrom_eq_some_iff {low directive : ByteString}
    (solid : 44 ∉ directive ∧ 32 ∉ directive) (nonempty : directive ≠ []) {fuel pos : ℕ}
    (enough : low.length < fuel + pos) {number : Option ℤ} :
    directiveFrom low directive fuel pos = some number ↔
      ∃ p, FirstStandsAt low directive pos p ∧ number = numberAt low directive p := by
  have size : 0 < directive.length := List.length_pos_iff.mpr nonempty
  have inside : ∀ {p}, directive <+: low.drop p → p < low.length := by
    intro p here
    have fits := here.length_le
    rw [List.length_drop] at fits
    omega
  induction fuel generalizing pos with
  | zero =>
      refine iff_of_false (by simp [directiveFrom]) ?_
      rintro ⟨p, ⟨behind, stands, -⟩, -⟩
      have := inside stands.1
      omega
  | succ fuel ih =>
      unfold directiveFrom
      cases found : find (low.drop pos) directive with
      | none =>
          refine iff_of_false (by simp) ?_
          rintro ⟨p, ⟨behind, stands, -⟩, -⟩
          have before := inside stands.1
          rw [find_eq_none_iff] at found
          refine found (p - pos) (by rw [List.length_drop]; omega) ?_
          rw [List.drop_drop, show pos + (p - pos) = p by omega]
          exact stands.1
      | some offset =>
          rw [find_eq_some_iff] at found
          obtain ⟨-, here, earliest⟩ := found
          rw [List.drop_drop] at here
          have least : ∀ p, pos ≤ p → StandsAt low directive p → pos + offset ≤ p := by
            intro p behind stands
            by_contra early
            refine earliest (p - pos) (by omega) ?_
            rw [List.drop_drop, show pos + (p - pos) = p by omega]
            exact stands.1
          have fits := inside here
          simp only
          split
          · rename_i bounded
            have stands : StandsAt low directive (pos + offset) := ⟨here, bounded.1, bounded.2⟩
            rw [Option.some.injEq]
            constructor
            · rintro rfl
              refine ⟨pos + offset, ⟨by omega, stands, fun q behind before there => ?_⟩, rfl⟩
              have := least q behind there
              omega
            · rintro ⟨p, ⟨behind, there, first⟩, rfl⟩
              have atLeast := least p behind there
              have atMost : p ≤ pos + offset := by
                by_contra later
                exact first _ (Nat.le_add_right _ _) (by omega) stands
              obtain rfl : p = pos + offset := Nat.le_antisymm atMost atLeast
              rfl
          · rename_i unbounded
            have skipped : ∀ q, pos ≤ q → StandsAt low directive q →
                pos + offset + directive.length ≤ q := by
              intro q behind stands
              rcases Nat.eq_or_lt_of_le (least q behind stands) with rfl | later
              · exact absurd ⟨stands.2.1, stands.2.2⟩ unbounded
              · exact stands.not_inside solid here later
            have rest := ih (show low.length < fuel + (pos + offset + directive.length) by omega)
            refine rest.trans ?_
            simp only [firstStandsAt_skip (by omega) skipped]

/-- **The search finds the directive wherever it stands**, behind the position it starts from. -/
theorem isSome_directiveFrom_iff {low directive : ByteString} (solid : 44 ∉ directive ∧ 32 ∉ directive)
    (nonempty : directive ≠ []) {fuel pos : ℕ} (enough : low.length < fuel + pos) :
    (directiveFrom low directive fuel pos).isSome ↔ ∃ p, pos ≤ p ∧ StandsAt low directive p := by
  rw [Option.isSome_iff_exists]
  simp only [directiveFrom_eq_some_iff solid nonempty enough]
  constructor
  · rintro ⟨-, p, ⟨behind, stands, -⟩, -⟩
    exact ⟨p, behind, stands⟩
  · intro somewhere
    classical
    obtain ⟨behind, stands⟩ := Nat.find_spec somewhere
    exact ⟨_, Nat.find somewhere, ⟨behind, stands,
      fun q after before there => Nat.find_min somewhere before ⟨after, there⟩⟩, rfl⟩

/-- **What `hasDirective` answers.** -/
theorem isSome_hasDirective_iff {cc directive : ByteString} (solid : 44 ∉ directive ∧ 32 ∉ directive)
    (nonempty : directive ≠ []) :
    (hasDirective cc directive).isSome ↔ Stands (lower cc) directive := by
  rw [hasDirective, isSome_directiveFrom_iff solid nonempty (by simp [lower])]
  simp [Stands]

/-! ## When the policy refuses -/

/-- The directives that forbid to store an answer. -/
def refusals : List ByteString := [bytes "no-store", bytes "private", bytes "no-cache"]

theorem solid_of_mem_refusals {directive : ByteString} (mem : directive ∈ refusals) :
    (44 ∉ directive ∧ 32 ∉ directive) ∧ directive ≠ [] := by
  revert directive
  decide +kernel

/-- **When the header policy refuses a response.** -/
theorem not_cacheable_iff (defaultTtl : UInt64) (path : ByteString) (resp : HttpResponse) :
    (HeaderBasedPolicy.decide defaultTtl path resp).cacheable = false ↔
      statusCacheable resp.status = false ∨
        (∃ directive ∈ refusals,
          Stands (lower (resp.header (bytes "Cache-Control"))) directive) ∨
        headerTtl (resp.header (bytes "Cache-Control")) = 0 := by
  have found : ∀ directive ∈ refusals,
      ((hasDirective (resp.header (bytes "Cache-Control")) directive).isSome ↔
        Stands (lower (resp.header (bytes "Cache-Control"))) directive) := by
    intro directive mem
    obtain ⟨solid, nonempty⟩ := solid_of_mem_refusals mem
    exact isSome_hasDirective_iff solid nonempty
  have searched : (∃ directive ∈ refusals,
      Stands (lower (resp.header (bytes "Cache-Control"))) directive) ↔
        (hasDirective (resp.header (bytes "Cache-Control")) (bytes "no-store")).isSome ∨
          (hasDirective (resp.header (bytes "Cache-Control")) (bytes "private")).isSome ∨
            (hasDirective (resp.header (bytes "Cache-Control")) (bytes "no-cache")).isSome := by
    rw [found _ (by simp [refusals]), found _ (by simp [refusals]), found _ (by simp [refusals])]
    simp [refusals]
  rw [searched]
  unfold HeaderBasedPolicy.decide
  simp only
  generalize resp.header (bytes "Cache-Control") = cc
  by_cases status : statusCacheable resp.status = false
  · simp [status, CacheDecision.refuse]
  · by_cases store : (hasDirective cc (bytes "no-store")).isSome
    · simp [status, store, CacheDecision.refuse]
    · by_cases shared : (hasDirective cc (bytes "private")).isSome
      · simp [status, store, shared, CacheDecision.refuse]
      · by_cases cache : (hasDirective cc (bytes "no-cache")).isSome
        · simp [status, store, shared, cache, CacheDecision.refuse]
        · rcases lt_trichotomy (headerTtl cc) 0 with negative | zero | positive
          · simp [status, store, shared, cache, negative, negative.ne]
          · simp [status, store, shared, cache, zero, CacheDecision.refuse]
          · simp [status, store, shared, cache, positive.ne', not_lt.mpr positive.le]

/-! ## What the origin forbids -/

/-- A text without the blanks around it. -/
def stripBlanks (s : ByteString) : ByteString := (s.dropWhile isBlank).rdropWhile isBlank

/-- An element of a `Cache-Control` value that forbids to store the answer. -/
def Forbids (element : ByteString) : Prop :=
  ∃ directive ∈ refusals, lower (stripBlanks element) = directive ∨
    directive ++ [61] <+: lower (stripBlanks element)

/-- **The origin forbids to store the answer**: an element of one of its `Cache-Control` lines
does. -/
def ForbidsStoring (raw : ByteString) : Prop :=
  ∃ value ∈ HttpOriginClient.valuesOf raw (bytes "Cache-Control"),
    ∃ element ∈ value.splitOn 44, Forbids element

/-- The `Cache-Control` value that the policy reads. -/
def lastControl (raw : ByteString) : ByteString :=
  (HttpOriginClient.valuesOf raw (bytes "Cache-Control")).getLast?.getD []

/-- **What the origin forbids to store is refused exactly if** the status is not cached anyway, the
last `Cache-Control` line refuses it in the eyes of the search, or that line gives it no
lifetime. -/
theorem honoured_iff {raw : ByteString} {resp : HttpResponse}
    (parsed : HttpOriginClient.parseResponse raw = some resp) (defaultTtl : UInt64)
    (path : ByteString) :
    (ForbidsStoring raw → (HeaderBasedPolicy.decide defaultTtl path resp).cacheable = false) ↔
      ForbidsStoring raw →
        statusCacheable (HttpOriginClient.readStatusLine (HttpOriginClient.statusLine raw)).1 =
            false ∨
          (∃ directive ∈ refusals, Stands (lower (lastControl raw)) directive) ∨
          headerTtl (lastControl raw) = 0 := by
  have last : resp.header (bytes "Cache-Control") = lastControl raw :=
    HttpOriginClient.header_of_parseResponse parsed (by decide +kernel)
  rw [not_cacheable_iff, HttpOriginClient.status_of_parseResponse parsed, last]

/-! ## Where the search is right -/

theorem stripBlanks_split (s : ByteString) : ∃ front back, s = front ++ (stripBlanks s ++ back) ∧
    (∀ c ∈ front, isBlank c = true) ∧ ∀ c ∈ back, isBlank c = true := by
  refine ⟨s.takeWhile isBlank, (s.dropWhile isBlank).rtakeWhile isBlank, ?_,
    fun c mem => List.mem_takeWhile_imp mem, fun c mem => List.mem_rtakeWhile_imp mem⟩
  rw [stripBlanks, List.rdropWhile_append_rtakeWhile, List.takeWhile_append_dropWhile]

/-- A directive between two boundaries stands in the text. -/
theorem standsAt_of_split {front core back directive : ByteString}
    (before : ∀ c ∈ front.getLast?, c = 44 ∨ c = 32) (behind : ∀ c ∈ back.head?, c = 44 ∨ c = 32)
    (is : core = directive ∨ directive ++ [61] <+: core) :
    StandsAt (front ++ (core ++ back)) directive front.length := by
  refine ⟨?_, ?_, ?_⟩
  · rw [List.drop_left]
    rcases is with rfl | ⟨value, rfl⟩
    · exact List.prefix_append _ _
    · rw [List.append_assoc, List.append_assoc]
      exact List.prefix_append _ _
  · rcases List.eq_nil_or_concat' front with rfl | ⟨init, c, rfl⟩
    · exact Or.inl rfl
    · have last := before c (by simp)
      refine Or.inr ?_
      rw [List.length_append, List.length_singleton, Nat.add_sub_cancel,
        List.getElem?_append_left (by simp), List.getElem?_append_right (le_refl _)]
      simpa using last
  · rw [List.getElem?_append_right (by omega), Nat.add_sub_cancel_left]
    rcases is with rfl | ⟨value, rfl⟩
    · rw [List.getElem?_append_right (le_refl _), Nat.sub_self]
      cases back with
      | nil => exact Or.inl rfl
      | cons c back =>
          rcases behind c rfl with rfl | rfl
          · exact Or.inr (Or.inl rfl)
          · exact Or.inr (Or.inr (Or.inl rfl))
    · rw [List.append_assoc, List.append_assoc, List.getElem?_append_right (le_refl _),
        Nat.sub_self]
      exact Or.inr (Or.inr (Or.inr rfl))

/-- **Where no tab stands in the value, the search finds what an element forbids.** -/
theorem exists_stands_of_forbids {value element : ByteString} (noTab : TAB ∉ value)
    (mem : element ∈ value.splitOn 44) (forbids : Forbids element) :
    ∃ directive ∈ refusals, Stands (lower value) directive := by
  obtain ⟨directive, listed, is⟩ := forbids
  obtain ⟨front, back, whole, before, behind⟩ := split_of_mem_splitOn mem
  obtain ⟨blanks, blanks', inside, blank, blank'⟩ := stripBlanks_split element
  have space : ∀ c ∈ value, isBlank c = true → c = 32 := by
    intro c there blank
    rw [isBlank, Bool.or_eq_true, beq_iff_eq, beq_iff_eq] at blank
    exact blank.resolve_right fun tab => noTab (tab ▸ there)
  have split : lower value =
      lower (front ++ blanks) ++ (lower (stripBlanks element) ++ lower (blanks' ++ back)) := by
    rw [whole]
    conv_lhs => rw [inside]
    simp only [lower, List.map_append, List.append_assoc]
  refine ⟨directive, listed, _, split ▸ standsAt_of_split ?_ ?_ is⟩
  · intro c last
    rw [lower, List.getLast?_map, Option.mem_def, Option.map_eq_some_iff] at last
    obtain ⟨b, last, rfl⟩ := last
    have boundary : b = 44 ∨ b = 32 := by
      rcases List.eq_nil_or_concat' blanks with none | ⟨init, d, some⟩
      · rw [none, List.append_nil] at last
        exact Or.inl (before b last)
      · rw [some, ← List.append_assoc, List.getLast?_concat, Option.some.injEq] at last
        subst last
        refine Or.inr (space d ?_ (blank d (by simp [some])))
        rw [whole, inside, some]
        simp
    rcases boundary with rfl | rfl
    · exact Or.inl (by decide)
    · exact Or.inr (by decide)
  · intro c first
    rw [lower, List.head?_map, Option.mem_def, Option.map_eq_some_iff] at first
    obtain ⟨b, first, rfl⟩ := first
    have boundary : b = 44 ∨ b = 32 := by
      cases some : blanks' with
      | nil =>
          rw [some, List.nil_append] at first
          exact Or.inl (behind b first)
      | cons d more =>
          rw [some, List.cons_append, List.head?_cons, Option.some.injEq] at first
          subst first
          refine Or.inr (space d ?_ (blank' d (by simp [some])))
          rw [whole, inside, some]
          simp
    rcases boundary with rfl | rfl
    · exact Or.inl (by decide)
    · exact Or.inr (by decide)

/-- An answer with one `Cache-Control` line, without a tab in it, is refused where that line
forbids to store it. -/
theorem not_cacheable_of_single {raw value : ByteString} {resp : HttpResponse}
    (parsed : HttpOriginClient.parseResponse raw = some resp) (defaultTtl : UInt64)
    (path : ByteString) (single : HttpOriginClient.valuesOf raw (bytes "Cache-Control") = [value])
    (noTab : TAB ∉ value) (forbids : ForbidsStoring raw) :
    (HeaderBasedPolicy.decide defaultTtl path resp).cacheable = false := by
  have last : resp.header (bytes "Cache-Control") = value := by
    rw [HttpOriginClient.header_of_parseResponse parsed (by decide +kernel), single]
    rfl
  obtain ⟨value', there, element, mem, forbids⟩ := forbids
  rw [single, List.mem_singleton] at there
  subst there
  rw [not_cacheable_iff, last]
  exact Or.inr (Or.inl (exists_stands_of_forbids noTab mem forbids))

/-! ## An answer that is stored all the same -/

/-- The header block of a page with two `Cache-Control` lines. -/
def twoControls (first second : String) : ByteString :=
  bytes "HTTP/1.1 200 OK" ++ [CR, LF] ++ bytes "Cache-Control: " ++ bytes first ++ [CR, LF] ++
    bytes "Cache-Control: " ++ bytes second ++ headerTerminator ++ bytes "x"

instance (element : ByteString) : Decidable (Forbids element) :=
  inferInstanceAs (Decidable (∃ directive ∈ refusals, lower (stripBlanks element) = directive ∨
    directive ++ [61] <+: lower (stripBlanks element)))

instance (raw : ByteString) : Decidable (ForbidsStoring raw) :=
  inferInstanceAs (Decidable (∃ value ∈ HttpOriginClient.valuesOf raw (bytes "Cache-Control"),
    ∃ element ∈ value.splitOn 44, Forbids element))

/-- **An earlier line is lost**: the page may not be stored, and is, for a minute. -/
theorem not_honoured_twoControls :
    ∃ resp, HttpOriginClient.parseResponse (twoControls "no-store" "max-age=60") = some resp ∧
      ForbidsStoring (twoControls "no-store" "max-age=60") ∧
      ¬ (HeaderBasedPolicy.decide 30 (bytes "/a") resp).cacheable = false := by
  obtain ⟨resp, parsed, stored⟩ := (Option.any_eq_true _ _).mp
    (show (HttpOriginClient.parseResponse (twoControls "no-store" "max-age=60")).any
      (fun resp => (HeaderBasedPolicy.decide 30 (bytes "/a") resp).cacheable) = true by
        decide +kernel)
  exact ⟨resp, parsed, by decide +kernel, by simp [stored]⟩

/-- The last line is heard. -/
theorem honoured_twoControls :
    ∃ resp, HttpOriginClient.parseResponse (twoControls "max-age=60" "a, No-Store") = some resp ∧
      ForbidsStoring (twoControls "max-age=60" "a, No-Store") ∧
      (HeaderBasedPolicy.decide 30 (bytes "/a") resp).cacheable = false := by
  have accepted : (HttpOriginClient.parseResponse
      (twoControls "max-age=60" "a, No-Store")).isSome = true := by decide +kernel
  obtain ⟨resp, parsed⟩ := Option.isSome_iff_exists.mp accepted
  have forbids : ForbidsStoring (twoControls "max-age=60" "a, No-Store") := by decide +kernel
  have stands : StandsAt (lower (lastControl (twoControls "max-age=60" "a, No-Store")))
      (bytes "no-store") 3 := by
    unfold StandsAt
    decide +kernel
  exact ⟨resp, parsed, forbids, (honoured_iff parsed 30 (bytes "/a")).mpr
    (fun _ => Or.inr (Or.inl ⟨_, by decide +kernel, 3, stands⟩)) forbids⟩

end EdgeCache

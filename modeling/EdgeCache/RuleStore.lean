import EdgeCache.CachePolicy
import Mathlib.Data.List.Sort

/-!
# The rule store

`RuleStore::replaceAll` sorts the rules it is given by the length of their patterns, longest first,
and `match` returns the first one whose pattern matches.  `std::sort` is not stable and Redis lists
a hash in no particular order, so of the stored vector only two things are known: it is a
permutation, and no rule stands in front of one with a longer pattern (`Replaced`).

* `longest_match` — **the longest rule wins**, and the header policy decides where none matches.
* `agree_iff` — replicas that load one set of rules agree on a path, **exactly if no two rules tie**
  for the longest match.  Ties exist: an exact pattern and a wildcard of its length
  (`tied_iff_of_slash`).
-/

namespace EdgeCache

open RuleStore

/-- What `RuleStore::replaceAll` may store: a permutation, ordered by its comparator. -/
structure RuleStore.Replaced (rules stored : List Rule) : Prop where
  perm : stored.Perm rules
  sorted : stored.Pairwise fun a b => b.pathPattern.length ≤ a.pathPattern.length

/-- The sort of `RuleStore::replaceAll`: longer patterns first. -/
def RuleStore.Sorts (sort : List Rule → List Rule) : Prop :=
  ∀ rules, (sort rules).Perm rules ∧
    (sort rules).Pairwise fun a b => b.pathPattern.length ≤ a.pathPattern.length

theorem RuleStore.Sorts.replaced {sort : List Rule → List Rule} (sorts : Sorts sort)
    (rules : List Rule) : Replaced rules (sort rules) :=
  ⟨(sorts rules).1, (sorts rules).2⟩

/-! ## What a pattern matches -/

/-- **The paths of a pattern**: all of them, those that start in a certain way, or one. -/
inductive RuleStore.Covers : ByteString → ByteString → Prop where
  | all {path : ByteString} : Covers [42] path
  | allSlash {path : ByteString} : Covers (bytes "/*") path
  | under {start path : ByteString} (starts : start <+: path) : Covers (start ++ [42]) path
  | exactly {path : ByteString} : Covers path path

/-- **`patternMatches` decides what a pattern covers.** -/
theorem RuleStore.patternMatches_iff {pattern path : ByteString} :
    patternMatches pattern path = true ↔ Covers pattern path := by
  unfold patternMatches
  constructor
  · intro hit
    split at hit
    · rename_i all
      rcases all with rfl | rfl
      · exact .all
      · exact .allSlash
    · split at hit
      · rename_i star
        rw [← List.dropLast_append_getLast? 42 star]
        exact .under (List.isPrefixOf_iff_prefix.mp hit)
      · rw [eq_of_beq hit]
        exact .exactly
  · intro covers
    cases covers with
    | all => exact if_pos (.inl rfl)
    | allSlash => exact if_pos (.inr rfl)
    | under starts =>
        split
        · rfl
        · rw [if_pos List.getLast?_concat, List.dropLast_concat]
          exact List.isPrefixOf_iff_prefix.mpr starts
    | exactly =>
        split
        · rfl
        · split
          · exact List.isPrefixOf_iff_prefix.mpr (List.dropLast_prefix pattern)
          · exact beq_self_eq_true pattern

/-! ## The longest match -/

section Stores

variable {rules stored : List Rule} {path : ByteString} {rule : Rule}

/-- Nothing is found exactly where no rule of the vector matches. -/
theorem RuleStore.Replaced.findRule_eq_none_iff (replaced : Replaced rules stored) :
    findRule stored path = none ↔ ∀ rule ∈ rules, ¬ Covers rule.pathPattern path := by
  rw [findRule, List.find?_eq_none]
  constructor
  · intro misses rule mem covers
    exact misses rule (replaced.perm.mem_iff.mpr mem) (patternMatches_iff.mpr covers)
  · intro misses rule mem hit
    exact misses rule (replaced.perm.mem_iff.mp mem) (patternMatches_iff.mp hit)

/-- What is found in a sorted vector is a longest match. -/
theorem RuleStore.longest_of_found
    (sorted : stored.Pairwise fun a b => b.pathPattern.length ≤ a.pathPattern.length)
    (found : findRule stored path = some rule) :
    rule ∈ stored ∧ patternMatches rule.pathPattern path = true ∧
      ∀ other ∈ stored, patternMatches other.pathPattern path = true →
        other.pathPattern.length ≤ rule.pathPattern.length := by
  obtain ⟨hits, front, back, split, misses⟩ := List.find?_eq_some_iff_append.mp found
  refine ⟨List.mem_of_find?_eq_some found, hits, fun other mem hits' => ?_⟩
  rw [split] at mem
  rw [split] at sorted
  rcases List.mem_append.mp mem with early | late
  · have missed := misses other early
    rw [hits'] at missed
    cases missed
  · rcases List.mem_cons.mp late with rfl | later
    · exact le_rfl
    · exact (List.pairwise_cons.mp (List.pairwise_append.mp sorted).2.1).1 other later

/-- **A longest match among the rules.** -/
structure RuleStore.Longest (rules : List Rule) (path : ByteString) (rule : Rule) : Prop where
  mem : rule ∈ rules
  covers : Covers rule.pathPattern path
  longest : ∀ other ∈ rules, Covers other.pathPattern path →
    other.pathPattern.length ≤ rule.pathPattern.length

/-- What the store returns is a longest match among the rules it was given. -/
theorem RuleStore.Replaced.longest (replaced : Replaced rules stored)
    (found : findRule stored path = some rule) : Longest rules path rule := by
  obtain ⟨mem, hits, longest⟩ := longest_of_found replaced.sorted found
  exact ⟨replaced.perm.mem_iff.mp mem, patternMatches_iff.mp hits, fun other mem' covers =>
    longest other (replaced.perm.mem_iff.mpr mem') (patternMatches_iff.mpr covers)⟩

end Stores

/-! ## The decision -/

/-- The reasons of the decisions that a rule makes. -/
def ruleReasons : List ByteString :=
  [bytes "rule-no-cache", bytes "rule-but-server-error", bytes "rule-override"]

theorem reason_of_findRule {stored : List Rule} {path : ByteString} {rule : Rule}
    (found : findRule stored path = some rule) (defaultTtl : UInt64) (resp : HttpResponse) :
    (RuleOverridePolicy.decide stored defaultTtl path resp).reason ∈ ruleReasons := by
  simp only [RuleOverridePolicy.decide, found]
  split
  · exact List.mem_cons_self
  · split
    · exact List.mem_cons_of_mem _ List.mem_cons_self
    · exact List.mem_cons_of_mem _ (List.mem_cons_of_mem _ List.mem_cons_self)

/-- The header policy gives other reasons. -/
theorem HeaderBasedPolicy.reason_notMem (defaultTtl : UInt64) (path : ByteString)
    (resp : HttpResponse) :
    (HeaderBasedPolicy.decide defaultTtl path resp).reason ∉ ruleReasons := by
  have apart : ∀ reason ∈ [bytes "status-not-cacheable", bytes "no-store", bytes "private",
      bytes "no-cache", bytes "heuristic-default-ttl", bytes "max-age-0", bytes "origin-max-age"],
      reason ∉ ruleReasons := by decide
  refine apart _ ?_
  simp only [HeaderBasedPolicy.decide]
  repeat' split
  all_goals simp [CacheDecision.refuse]

/-- **The header policy decides exactly where no rule is found.** -/
theorem RuleOverridePolicy.decide_eq_header_iff {stored : List Rule} {path : ByteString}
    (defaultTtl : UInt64) (resp : HttpResponse) :
    RuleOverridePolicy.decide stored defaultTtl path resp =
        HeaderBasedPolicy.decide defaultTtl path resp ↔
      findRule stored path = none := by
  constructor
  · intro same
    cases found : findRule stored path with
    | none => rfl
    | some rule =>
        have reason := reason_of_findRule found defaultTtl resp
        rw [same] at reason
        exact absurd reason (HeaderBasedPolicy.reason_notMem defaultTtl path resp)
  · intro missing
    simp only [RuleOverridePolicy.decide, missing]

/-- **The longest rule wins.**  Whatever vector the store was given and however it was sorted, a
path finds nothing exactly if no pattern of the vector covers it, and otherwise a rule of the
vector with a pattern that covers it and that no other such pattern exceeds; the header policy
decides exactly where nothing is found. -/
theorem longest_match {rules stored : List Rule} (replaced : Replaced rules stored)
    (path : ByteString) :
    (findRule stored path = none ↔ ∀ rule ∈ rules, ¬ Covers rule.pathPattern path) ∧
      (∀ rule, findRule stored path = some rule → Longest rules path rule) ∧
      ∀ defaultTtl resp,
        RuleOverridePolicy.decide stored defaultTtl path resp =
            HeaderBasedPolicy.decide defaultTtl path resp ↔
          findRule stored path = none :=
  ⟨replaced.findRule_eq_none_iff, fun _ found => replaced.longest found,
    RuleOverridePolicy.decide_eq_header_iff⟩

/-- Three rules in the order in which a store may hold them. -/
def nestedRules : List Rule :=
  [⟨bytes "/a/b/*", 20, 0, bytes "o"⟩, ⟨bytes "/a/*", 10, 0, bytes "o"⟩,
    ⟨bytes "/*", 5, 0, bytes "o"⟩]

/-- The vector was given the other way round. -/
theorem longest_match_nestedRules :
    findRule nestedRules (bytes "/a/b/c") ≠ none ∧
      ∀ rule, findRule nestedRules (bytes "/a/b/c") = some rule →
        Longest nestedRules.reverse (bytes "/a/b/c") rule :=
  ⟨by decide, (longest_match ⟨nestedRules.reverse_perm.symm, by decide⟩ _).2.1⟩

/-! ## Ties -/

/-- A sort of the store: each rule goes before the first one that is not longer. -/
def lengthSort (rules : List Rule) : List Rule :=
  rules.insertionSort fun a b => b.pathPattern.length ≤ a.pathPattern.length

theorem sorts_lengthSort : Sorts lengthSort := fun rules => by
  have total : Std.Total fun a b : Rule => b.pathPattern.length ≤ a.pathPattern.length :=
    ⟨fun a b => le_total b.pathPattern.length a.pathPattern.length⟩
  have trans : IsTrans Rule fun a b => b.pathPattern.length ≤ a.pathPattern.length :=
    ⟨fun _ _ _ ab bc => bc.trans ab⟩
  exact ⟨List.perm_insertionSort _ _, List.pairwise_insertionSort _ _⟩

/-- The first of the longest rules that match is found. -/
theorem findRule_lengthSort {rule : Rule} {rest : List Rule} {path : ByteString}
    (hits : patternMatches rule.pathPattern path = true)
    (longest : ∀ other ∈ rest, patternMatches other.pathPattern path = true →
      other.pathPattern.length ≤ rule.pathPattern.length) :
    findRule (lengthSort (rule :: rest)) path = some rule := by
  rw [lengthSort, List.insertionSort_cons_eq_take_drop, findRule, List.find?_append,
    List.find?_eq_none.mpr fun other mem hits' => ?_, Option.none_or]
  · exact List.find?_cons_of_pos hits
  · have longer := List.mem_takeWhile_imp mem
    have there := (List.mem_insertionSort _).mp (List.takeWhile_subset _ mem)
    simp only [decide_eq_true_eq, not_le] at longer
    exact absurd (longest other there hits') (not_le.mpr longer)

/-- **Replicas agree on a path**: each lists the rules in an order of its own, sorts them in its own
way, and they find the same rule and decide alike. -/
def RuleStore.Agree (rules : List Rule) (path : ByteString) : Prop :=
  ∀ listing listing' stored stored', listing.Perm rules → listing'.Perm rules →
    Replaced listing stored → Replaced listing' stored' →
      findRule stored path = findRule stored' path ∧
        ∀ defaultTtl resp, RuleOverridePolicy.decide stored defaultTtl path resp =
          RuleOverridePolicy.decide stored' defaultTtl path resp

/-- **Two rules tie**: their patterns differ and no pattern of the rules that covers the path is
longer than either. -/
def RuleStore.Tied (rules : List Rule) (path : ByteString) : Prop :=
  ∃ a b, Longest rules path a ∧ Longest rules path b ∧ a.pathPattern ≠ b.pathPattern

section Agreement

variable {rules : List Rule} {path : ByteString}

theorem RuleStore.Longest.perm {listing : List Rule} {rule : Rule} (same : listing.Perm rules)
    (longest : Longest listing path rule) : Longest rules path rule :=
  ⟨same.mem_iff.mp longest.mem, longest.covers, fun other mem =>
    longest.longest other (same.mem_iff.mpr mem)⟩

/-- A store may find any of the longest matches: a replica that lists it first does. -/
theorem RuleStore.Longest.found {rule : Rule} (longest : Longest rules path rule) :
    ∃ listing stored, listing.Perm rules ∧ Replaced listing stored ∧
      findRule stored path = some rule := by
  refine ⟨rule :: rules.erase rule, lengthSort (rule :: rules.erase rule),
    (List.perm_cons_erase longest.mem).symm, sorts_lengthSort.replaced _, ?_⟩
  exact findRule_lengthSort (patternMatches_iff.mpr longest.covers) fun other mem hits =>
    longest.longest other (List.mem_of_mem_erase mem) (patternMatches_iff.mp hits)

/-- Distinct patterns name their rules. -/
theorem eq_of_pathPattern_eq (distinct : rules.Pairwise fun a b => a.pathPattern ≠ b.pathPattern)
    {a b : Rule} (mem : a ∈ rules) (mem' : b ∈ rules) (same : a.pathPattern = b.pathPattern) :
    a = b :=
  List.inj_on_of_nodup_map (List.pairwise_map.mpr distinct) mem mem' same

/-- Where nothing ties, all stores find the same rule. -/
theorem findRule_eq_of_not_tied
    (distinct : rules.Pairwise fun a b => a.pathPattern ≠ b.pathPattern)
    (single : ¬ Tied rules path) {listing listing' stored stored' : List Rule}
    (lists : listing.Perm rules) (lists' : listing'.Perm rules)
    (replaced : Replaced listing stored) (replaced' : Replaced listing' stored') :
    findRule stored path = findRule stored' path := by
  cases found : findRule stored path with
  | none =>
      have misses := replaced.findRule_eq_none_iff.mp found
      refine (replaced'.findRule_eq_none_iff.mpr fun rule mem => misses rule ?_).symm
      exact lists.mem_iff.mpr (lists'.mem_iff.mp mem)
  | some rule =>
      have longest := (replaced.longest found).perm lists
      cases found' : findRule stored' path with
      | none =>
          exact absurd longest.covers
            (replaced'.findRule_eq_none_iff.mp found' rule (lists'.mem_iff.mpr longest.mem))
      | some rule' =>
          have longest' := (replaced'.longest found').perm lists'
          by_contra ne
          refine single ⟨rule, rule', longest, longest', fun same => ne ?_⟩
          rw [eq_of_pathPattern_eq distinct longest.mem longest'.mem same]

/-- **Replicas agree exactly where nothing ties.** -/
theorem agree_iff (distinct : rules.Pairwise fun a b => a.pathPattern ≠ b.pathPattern)
    (path : ByteString) : Agree rules path ↔ ¬ Tied rules path := by
  constructor
  · rintro agree ⟨a, b, longest, longest', differ⟩
    obtain ⟨listing, stored, lists, replaced, found⟩ := longest.found
    obtain ⟨listing', stored', lists', replaced', found'⟩ := longest'.found
    have same := (agree _ _ _ _ lists lists' replaced replaced').1
    rw [found, found', Option.some.injEq] at same
    exact differ (congrArg Rule.pathPattern same)
  · intro single listing listing' stored stored' lists lists' replaced replaced'
    have same := findRule_eq_of_not_tied distinct single lists lists' replaced replaced'
    exact ⟨same, fun _ _ => by simp only [RuleOverridePolicy.decide, same]⟩

end Agreement

/-! ### Which patterns tie -/

/-- A path that starts with a slash is covered by itself and by its own starts, each with a
star. -/
theorem eq_or_start_of_covers {pattern path : ByteString} (rooted : path.head? = some 47)
    (covers : Covers pattern path) : pattern = path ∨ ∃ start, start <+: path ∧
      pattern = start ++ [42] := by
  cases covers with
  | all => exact .inr ⟨[], List.nil_prefix, rfl⟩
  | allSlash =>
      obtain ⟨tail, rfl⟩ := List.head?_eq_some_iff.mp rooted
      exact .inr ⟨[47], ⟨tail, rfl⟩, rfl⟩
  | under starts => exact .inr ⟨_, starts, rfl⟩
  | exactly => exact .inl rfl

/-- A start of a path that lacks one byte is the path without its last one. -/
theorem eq_dropLast_of_prefix {start path : ByteString} (starts : start <+: path)
    (short : start.length + 1 = path.length) : start = path.dropLast := by
  obtain ⟨tail, rfl⟩ := starts
  rw [List.length_append] at short
  obtain ⟨c, rfl⟩ := List.length_eq_one_iff.mp (show tail.length = 1 by omega)
  exact List.dropLast_concat.symm

/-- A start of a path with a star covers no more than the path has bytes, or is the path with a
star. -/
theorem length_le_of_covers {pattern path : ByteString} (rooted : path.head? = some 47)
    (covers : Covers pattern path) (other : pattern ≠ path ++ [42]) :
    pattern.length ≤ path.length := by
  obtain rfl | ⟨start, starts, rfl⟩ := eq_or_start_of_covers rooted covers
  · exact le_rfl
  · rcases starts.length_le.lt_or_eq with shorter | whole
    · rw [List.length_append, List.length_singleton]
      omega
    · exact absurd (by rw [starts.eq_of_length whole]) other

section Ties

variable {rules : List Rule} {path : ByteString} {a b : Rule}

/-- Two of the longest matches have patterns of one length. -/
theorem RuleStore.Longest.length_eq (longest : Longest rules path a)
    (longest' : Longest rules path b) : a.pathPattern.length = b.pathPattern.length :=
  le_antisymm (longest'.longest a longest.mem longest.covers)
    (longest.longest b longest'.mem longest'.covers)

/-- What ties with the path itself is the wildcard of its length. -/
theorem wildcard_of_longest (rooted : path.head? = some 47) (longest : Longest rules path a)
    (longest' : Longest rules path b) (named : a.pathPattern = path)
    (differ : b.pathPattern ≠ path) : b.pathPattern = path.dropLast ++ [42] := by
  have length := longest.length_eq longest'
  obtain same | ⟨start, starts, wildcard⟩ := eq_or_start_of_covers rooted longest'.covers
  · exact absurd same differ
  · rw [named, wildcard, List.length_append, List.length_singleton] at length
    rw [wildcard, eq_dropLast_of_prefix starts length.symm]

/-- Of two rules that tie on a path with a slash in front one is for this path. -/
theorem named_of_tied (rooted : path.head? = some 47) (longest : Longest rules path a)
    (longest' : Longest rules path b) (differ : a.pathPattern ≠ b.pathPattern) :
    a.pathPattern = path ∨ b.pathPattern = path := by
  have length := longest.length_eq longest'
  obtain one | ⟨start, starts, wildcard⟩ := eq_or_start_of_covers rooted longest.covers
  · exact .inl one
  · obtain other | ⟨start', starts', wildcard'⟩ := eq_or_start_of_covers rooted longest'.covers
    · exact .inr other
    · rw [wildcard, wildcard', List.length_append, List.length_append] at length
      have same : start = start' :=
        (List.prefix_of_prefix_length_le starts starts' (by omega)).eq_of_length (by omega)
      exact absurd (by rw [wildcard, wildcard', same]) differ

/-- **What ties on a path with a slash in front**: the path itself and the wildcard of its length,
unless the path ends with a star or the next longer wildcard is there as well. -/
theorem tied_iff_of_slash (rooted : path.head? = some 47) :
    Tied rules path ↔ path.getLast? ≠ some 42 ∧ path ∈ rules.map Rule.pathPattern ∧
      path.dropLast ++ [42] ∈ rules.map Rule.pathPattern ∧
      path ++ [42] ∉ rules.map Rule.pathPattern := by
  constructor
  · intro tied
    obtain ⟨a, b, longest, longest', named, differ⟩ : ∃ a b, Longest rules path a ∧
        Longest rules path b ∧ a.pathPattern = path ∧ b.pathPattern ≠ path := by
      obtain ⟨a, b, longest, longest', differ⟩ := tied
      rcases named_of_tied rooted longest longest' differ with named | named
      · exact ⟨a, b, longest, longest', named, named ▸ differ.symm⟩
      · exact ⟨b, a, longest', longest, named, named ▸ differ⟩
    have wildcard := wildcard_of_longest rooted longest longest' named differ
    refine ⟨fun star => differ ?_, List.mem_map.mpr ⟨a, longest.mem, named⟩,
      List.mem_map.mpr ⟨b, longest'.mem, wildcard⟩, fun more => ?_⟩
    · rw [wildcard, List.dropLast_append_getLast? 42 star]
    · obtain ⟨c, mem, longer⟩ := List.mem_map.mp more
      have bound := longest.longest c mem (longer ▸ .under (List.prefix_refl path))
      rw [longer, named, List.length_append, List.length_singleton] at bound
      omega
  · rintro ⟨plain, here, wildcard, noLonger⟩
    obtain ⟨a, mem, named⟩ := List.mem_map.mp here
    obtain ⟨b, mem', shape⟩ := List.mem_map.mp wildcard
    have bound : ∀ other ∈ rules, Covers other.pathPattern path →
        other.pathPattern.length ≤ path.length := fun other there covers =>
      length_le_of_covers rooted covers fun longer =>
        noLonger (List.mem_map.mpr ⟨other, there, longer⟩)
    have nonempty : path ≠ [] := by
      rintro rfl
      cases rooted
    have size : b.pathPattern.length = path.length := by
      rw [shape, List.length_append, List.length_singleton, List.length_dropLast]
      exact Nat.sub_add_cancel (List.length_pos_iff.mpr nonempty)
    refine ⟨a, b, ⟨mem, named ▸ .exactly, named ▸ bound⟩, ⟨mem', ?_, size ▸ bound⟩, fun same => ?_⟩
    · rw [shape]
      exact .under (List.dropLast_prefix path)
    · refine plain ?_
      rw [← named, same, shape, List.getLast?_concat]

end Ties

/-- An exact pattern and a wildcard of its length. -/
def tiedRules : List Rule :=
  [⟨bytes "/ab", 60, 0, bytes "o"⟩, ⟨bytes "/a*", 0, 0, bytes "o"⟩]

/-- The two replicas that list them in different orders disagree on `/ab`, whatever the sort. -/
theorem not_agree_tiedRules :
    (tiedRules.Pairwise fun a b => a.pathPattern ≠ b.pathPattern) ∧
      ¬ Agree tiedRules (bytes "/ab") := by
  refine ⟨by decide, fun agree => ?_⟩
  have same := (agree tiedRules tiedRules.reverse tiedRules tiedRules.reverse (.refl _)
    tiedRules.reverse_perm ⟨.refl _, by decide⟩ ⟨.refl _, by decide⟩).1
  exact absurd same (by decide)

/-- On `/ac` they agree. -/
theorem agree_tiedRules : Agree tiedRules (bytes "/ac") :=
  (agree_iff (by decide) _).mpr fun tied => by
    obtain ⟨-, here, -⟩ := (tied_iff_of_slash (by decide)).mp tied
    exact absurd here (by decide)

end EdgeCache

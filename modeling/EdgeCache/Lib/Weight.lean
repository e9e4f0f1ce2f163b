import EdgeCache.Lib.Transition

/-!
# What the members of a system weigh

The members of a system come and go under names of their own, and every member has a weight.
`weigh` is what they weigh together, as long as there are finitely many.

Weights are how the steps of a system are counted.

* `weigh_update` — **a change of one member** changes the total by what it changes there.
* `balance_of_run` — where every step pays its cost out of the total and what it brings in, so does
  a run.
* `exists_run_of_progress` — where every state that is not final has a step that makes the total
  smaller, a final state can be reached.
-/

namespace EdgeCache.Transition

/-! ## The total -/

section Weigh

variable {κ μ : Type*}

/-- Finitely many members are there. -/
def Few (members : κ → Option μ) : Prop := {k | members k ≠ none}.Finite

/-- What the members weigh together. -/
noncomputable def weigh (w : κ → μ → ℕ) (members : κ → Option μ) : ℕ :=
  ∑ᶠ k, (members k).elim 0 (w k)

variable {w w' : κ → μ → ℕ} {members : κ → Option μ}

theorem few_none : Few fun _ : κ => (none : Option μ) := by
  simp [Few]

theorem Few.update [DecidableEq κ] (few : Few members) (k : κ) (x : Option μ) :
    Few (Function.update members k x) := by
  refine (Set.Finite.insert k few).subset fun j there => ?_
  by_cases here : j = k
  · exact Or.inl here
  · exact Or.inr (by simpa [Function.update_of_ne here] using there)

/-- There is always a name that no member has. -/
theorem Few.exists_unused [Infinite κ] (few : Few members) : ∃ k, members k = none := by
  obtain ⟨k, absent⟩ := few.exists_notMem
  exact ⟨k, by simpa using absent⟩

/-- Weights are nonzero only where members are. -/
theorem Few.support (few : Few members) (w : κ → μ → ℕ) :
    (Function.support fun k => (members k).elim 0 (w k)).Finite := by
  refine few.subset fun k heavy => ?_
  intro absent
  simp [absent] at heavy

@[simp] theorem weigh_none : weigh w (fun _ => none) = 0 := by
  simp [weigh]

/-- **A change of one member.** -/
theorem weigh_update [DecidableEq κ] (few : Few members) (k : κ) (x : Option μ) :
    weigh w (Function.update members k x) + (members k).elim 0 (w k) =
      weigh w members + x.elim 0 (w k) := by
  -- Both are the weight without the member, and then what the member weighs.
  have split : ∀ y : Option μ, weigh w (Function.update members k y) =
      weigh w (Function.update members k none) + y.elim 0 (w k) := by
    intro y
    have alone : ∑ᶠ j, (if j = k then y.elim 0 (w k) else 0) = y.elim 0 (w k) := by
      rw [finsum_eq_single _ k fun j apart => if_neg apart, if_pos rfl]
    have finite : (Function.support fun j => if j = k then y.elim 0 (w k) else 0).Finite := by
      refine (Set.finite_singleton k).subset fun j heavy => ?_
      by_contra apart
      exact heavy (if_neg apart)
    have parts : (fun j => (Function.update members k y j).elim 0 (w j)) =
        fun j => (Function.update members k none j).elim 0 (w j) +
          if j = k then y.elim 0 (w k) else 0 := by
      funext j
      by_cases here : j = k
      · subst here
        simp
      · simp [here]
    rw [weigh, parts, finsum_add_distrib ((few.update k none).support w) finite, alone]
    rfl
  have whole := split (members k)
  rw [Function.update_eq_self] at whole
  rw [split x, whole]
  omega

/-- A new member. -/
theorem weigh_insert [DecidableEq κ] (few : Few members) {k : κ} (unused : members k = none)
    (x : μ) : weigh w (Function.update members k (some x)) = weigh w members + w k x := by
  have change := weigh_update (w := w) few k (some x)
  rw [unused] at change
  simpa using change

/-- No member weighs more than all of them. -/
theorem le_weigh (few : Few members) {k : κ} {x : μ} (there : members k = some x) :
    w k x ≤ weigh w members := by
  classical
  have change := weigh_update (w := w) few k none
  rw [there] at change
  simp only [Option.elim_some, Option.elim_none, add_zero] at change
  omega

/-- Nothing weighs nothing. -/
theorem weigh_eq_zero_iff (few : Few members) :
    weigh w members = 0 ↔ ∀ k x, members k = some x → w k x = 0 := by
  constructor
  · intro light k x there
    exact Nat.le_zero.mp (light ▸ le_weigh few there)
  · intro light
    rw [weigh, finsum_eq_zero_of_forall_eq_zero]
    intro k
    cases there : members k with
    | none => rfl
    | some x => exact light k x there

/-- Weights add up. -/
theorem weigh_add (few : Few members) :
    weigh (fun k x => w k x + w' k x) members = weigh w members + weigh w' members := by
  rw [weigh, weigh, weigh, ← finsum_add_distrib (few.support w) (few.support w')]
  refine finsum_congr fun k => ?_
  cases members k <;> rfl

end Weigh

/-! ## Runs -/

section Runs

variable {σ α : Type*} {step : σ → α → Option σ}

/-- **The balance of a run**: where every step pays its cost out of the total and what it brings in,
so does a run. -/
theorem balance_of_run (Φ : σ → ℕ) (Known : σ → Prop) (cost gain : α → ℕ)
    (kept : ∀ s a s', Known s → step s a = some s' → Known s')
    (paid : ∀ s a s', Known s → step s a = some s' → Φ s' + cost a ≤ Φ s + gain a)
    {s t : σ} {acts : List α} (known : Known s) (ran : run step s acts = some t) :
    Φ t + (acts.map cost).sum ≤ Φ s + (acts.map gain).sum := by
  induction acts generalizing s with
  | nil =>
      cases ran
      exact le_rfl
  | cons a rest ih =>
      rw [run_cons, Option.bind_eq_some_iff] at ran
      obtain ⟨u, taken, ran⟩ := ran
      have first := paid s a u known taken
      have later := ih (kept s a u known taken) ran
      rw [List.map_cons, List.map_cons, List.sum_cons, List.sum_cons]
      omega

/-- Schedules that meet a side condition, one after the other. -/
theorem Meets.append {guard : σ → α → Prop} {s u : σ} {front back : List α}
    (first : Meets step guard s front) (ran : run step s front = some u)
    (second : Meets step guard u back) : Meets step guard s (front ++ back) := by
  induction front generalizing s with
  | nil =>
      cases ran
      exact second
  | cons a rest ih =>
      rw [run_cons, Option.bind_eq_some_iff] at ran
      obtain ⟨s', taken, ran⟩ := ran
      refine ⟨first.1, fun t taken' => ?_⟩
      rw [taken, Option.some.injEq] at taken'
      subst taken'
      exact ih (first.2 s' taken) ran

/-- A weaker side condition is met as well. -/
theorem Meets.mono {guard guard' : σ → α → Prop} (weaker : ∀ s a, guard s a → guard' s a) {s : σ}
    {acts : List α} (meets : Meets step guard s acts) : Meets step guard' s acts := by
  induction acts generalizing s with
  | nil => trivial
  | cons a rest ih => exact ⟨weaker s a meets.1, fun s' taken => ih (meets.2 s' taken)⟩

/-- **The progress rule**: where every state that is not final has a good step that makes the total
smaller, good steps lead to a final state, no more of them than the total. -/
theorem exists_run_of_progress (Φ : σ → ℕ) (Known Final : σ → Prop) (good : σ → α → Prop)
    (progress : ∀ s, Known s → ¬ Final s →
      ∃ a s', good s a ∧ step s a = some s' ∧ Known s' ∧ Φ s' < Φ s)
    {s : σ} (known : Known s) :
    ∃ acts t, Meets step good s acts ∧ acts.length ≤ Φ s ∧ run step s acts = some t ∧
      Known t ∧ Final t := by
  induction total : Φ s using Nat.strong_induction_on generalizing s with
  | _ n ih =>
      by_cases final : Final s
      · exact ⟨[], s, trivial, Nat.zero_le _, rfl, known, final⟩
      · obtain ⟨a, s', fine, taken, known', less⟩ := progress s known final
        obtain ⟨acts, t, all, short, ran, ended⟩ := ih (Φ s') (total ▸ less) known' rfl
        refine ⟨a :: acts, t, ⟨fine, fun u taken' => ?_⟩, ?_, ?_, ended⟩
        · rw [taken, Option.some.injEq] at taken'
          exact taken' ▸ all
        · rw [List.length_cons]
          omega
        · rw [run_cons, taken]
          exact ran

end Runs

end EdgeCache.Transition

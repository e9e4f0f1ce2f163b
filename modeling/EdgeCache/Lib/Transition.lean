import Mathlib

/-!
# Labelled transition systems and their runs

A system is a partial step function `step : σ → α → Option σ`: given a state
and an action it answers the next state, or `none` where the action is not
enabled.  All nondeterminism sits in the choice of the action, so a run is
determined by its schedule, the list of actions taken.

`Steps step guard` is reachability along steps that satisfy a side condition
`guard` on the state and the action taken there.  A property that holds only of
the runs meeting a condition is stated with that condition as the guard; the
unconditional one takes `fun _ _ => True`.

The rules every development needs are here once: the invariant rule
(`Steps.invariant`), the monotone rule for a relation between the two ends of
a run (`Steps.rel`), the passage from a schedule to reachability (`Steps.of_run`),
the crossing rule (`Steps.exists_crossing`), which finds the step at which a
property first becomes true, the order of the steps of a run (`Occurs.ordered`), the
exact rule and the backward rule (`forall_run_take_iff`, `end_iff_meets`) for the steps
that keep a property, and the lockstep rule (`exists_run_of_lockstep`) for two runs of
one schedule.
-/

namespace EdgeCache.Transition

universe u v

variable {σ : Type u} {α : Type v}

/-- One step whose state and action meet the side condition. -/
def Step (step : σ → α → Option σ) (guard : σ → α → Prop) (s s' : σ) : Prop :=
  ∃ a, guard s a ∧ step s a = some s'

/-- Finitely many steps, each meeting the side condition. -/
def Steps (step : σ → α → Option σ) (guard : σ → α → Prop) : σ → σ → Prop :=
  Relation.ReflTransGen (Step step guard)

/-- Run a schedule, stopping at the first action that is not enabled. -/
def run (step : σ → α → Option σ) : σ → List α → Option σ
  | s, [] => some s
  | s, a :: rest => (step s a).bind fun s' => run step s' rest

/-- A schedule all of whose steps meet the side condition. -/
def Meets (step : σ → α → Option σ) (guard : σ → α → Prop) : σ → List α → Prop
  | _, [] => True
  | s, a :: rest => guard s a ∧ ∀ s', step s a = some s' → Meets step guard s' rest

@[simp] theorem run_nil (step : σ → α → Option σ) (s : σ) : run step s [] = some s := rfl

theorem run_cons (step : σ → α → Option σ) (s : σ) (a : α) (rest : List α) :
    run step s (a :: rest) = (step s a).bind fun s' => run step s' rest := rfl

/-- Running a concatenation runs the parts one after the other. -/
theorem run_append (step : σ → α → Option σ) (s : σ) (front back : List α) :
    run step s (front ++ back) = (run step s front).bind fun s' => run step s' back := by
  induction front generalizing s with
  | nil => rfl
  | cons a front ih =>
      rw [List.cons_append, run_cons, run_cons]
      cases step s a with
      | none => rfl
      | some s' => exact ih s'

namespace Steps

variable {step : σ → α → Option σ} {guard guard' : σ → α → Prop} {s s' s'' : σ}

theorem refl (s : σ) : Steps step guard s s := Relation.ReflTransGen.refl

theorem trans (front : Steps step guard s s') (back : Steps step guard s' s'') :
    Steps step guard s s'' := Relation.ReflTransGen.trans front back

theorem single {a : α} (meets : guard s a) (taken : step s a = some s') :
    Steps step guard s s' := Relation.ReflTransGen.single ⟨a, meets, taken⟩

/-- A weaker side condition admits every run of a stronger one. -/
theorem mono (weaker : ∀ s a, guard s a → guard' s a) (steps : Steps step guard s s') :
    Steps step guard' s s' := by
  refine Relation.ReflTransGen.mono ?_ s s' steps
  rintro t t' ⟨a, meets, taken⟩
  exact ⟨a, weaker t a meets, taken⟩

/-- **The invariant rule.** -/
theorem invariant {Inv : σ → Prop}
    (preserved : ∀ s a s', guard s a → step s a = some s' → Inv s → Inv s')
    (steps : Steps step guard s s') (start : Inv s) : Inv s' := by
  induction steps with
  | refl => exact start
  | tail _ last ih =>
      obtain ⟨a, meets, taken⟩ := last
      exact preserved _ a _ meets taken ih

/-- **The invariant rule, relative to one already established.** -/
theorem invariant_of {Known Inv : σ → Prop}
    (known : ∀ s', Steps step guard s s' → Known s')
    (preserved : ∀ s a s', guard s a → step s a = some s' → Known s → Known s' → Inv s → Inv s')
    (steps : Steps step guard s s') (start : Inv s) : Inv s' := by
  induction steps with
  | refl => exact start
  | tail front last ih =>
      obtain ⟨a, meets, taken⟩ := last
      exact preserved _ a _ meets taken (known _ front)
        (known _ (front.tail ⟨a, meets, taken⟩)) ih

/-- **Every step of a run lies on it**: its state is reached from the start, and
the end is reached from the state it leads to. -/
theorem between (steps : Steps step guard s s') :
    Steps step (fun t a => guard t a ∧ Steps step guard s t ∧
      ∀ t', step t a = some t' → Steps step guard t' s') s s' := by
  have along : ∀ t, Steps step guard s t → Steps step guard t s' →
      Steps step (fun t a => guard t a ∧ Steps step guard s t ∧
        ∀ t', step t a = some t' → Steps step guard t' s') s t := by
    intro t front
    induction front with
    | refl => exact fun _ => refl s
    | tail front last ih =>
        obtain ⟨a, meets, taken⟩ := last
        intro back
        refine (ih ((single meets taken).trans back)).trans
          (single ⟨meets, front, fun t' taken' => ?_⟩ taken)
        rw [taken, Option.some.injEq] at taken'
        exact taken' ▸ back
  exact along s' steps (refl s')

/-- The end of a run is reached from each of its states. -/
theorem toward (steps : Steps step guard s s') :
    Steps step (fun t a => guard t a ∧ Steps step guard t s') s s' := by
  induction steps using Relation.ReflTransGen.head_induction_on with
  | refl => exact refl _
  | head first rest ih =>
      obtain ⟨a, meets, taken⟩ := first
      exact (single ⟨meets, (single meets taken).trans rest⟩ taken).trans ih

/-- What is known of every state of a run may be assumed at each of its steps. -/
theorem knowing {Known : σ → Prop} (known : ∀ s', Steps step guard s s' → Known s')
    (steps : Steps step guard s s') :
    Steps step (fun t a => guard t a ∧ Known t) s s' :=
  steps.between.mono fun t _ along => ⟨along.1, known t along.2.1⟩

/-- **The simulation rule**: a map that takes every step to a run takes runs to runs. -/
theorem map {τ : Type*} {β : Type*} {step' : τ → β → Option τ} {guard' : τ → β → Prop} (f : σ → τ)
    (simulated : ∀ s a s', guard s a → step s a = some s' → Steps step' guard' (f s) (f s'))
    (steps : Steps step guard s s') : Steps step' guard' (f s) (f s') := by
  induction steps with
  | refl => exact refl _
  | tail _ last ih =>
      obtain ⟨a, meets, taken⟩ := last
      exact ih.trans (simulated _ a _ meets taken)

/-- **The relational rule**: a preorder that every step respects relates the
two ends of a run. -/
theorem rel {R : σ → σ → Prop} (reflexive : ∀ s, R s s)
    (transitive : ∀ s s' s'', R s s' → R s' s'' → R s s'')
    (respected : ∀ s a s', guard s a → step s a = some s' → R s s')
    (steps : Steps step guard s s') : R s s' := by
  induction steps with
  | refl => exact reflexive _
  | tail _ last ih =>
      obtain ⟨a, meets, taken⟩ := last
      exact transitive _ _ _ ih (respected _ a _ meets taken)

/-- **The crossing rule**: where a property is false at the start of a run and
true at its end, some step of the run makes it true. -/
theorem exists_crossing {P : σ → Prop} (steps : Steps step guard s s')
    (before : ¬ P s) (after : P s') :
    ∃ t a t', Steps step guard s t ∧ ¬ P t ∧ guard t a ∧ step t a = some t' ∧ P t' ∧
      Steps step guard t' s' := by
  induction steps with
  | refl => exact absurd after before
  | @tail t t' front last ih =>
      obtain ⟨a, meets, taken⟩ := last
      by_cases already : P t
      · obtain ⟨r, b, r', start, false_at, meets', taken', true_at, rest⟩ := ih already
        exact ⟨r, b, r', start, false_at, meets', taken', true_at,
          rest.tail ⟨a, meets, taken⟩⟩
      · exact ⟨t, a, t', front, already, meets, taken, after, refl _⟩

/-- A schedule that meets the side condition runs along `Steps`. -/
theorem of_run {acts : List α} (meets : Meets step guard s acts)
    (ran : run step s acts = some s') : Steps step guard s s' := by
  induction acts generalizing s with
  | nil => cases ran; exact refl _
  | cons a rest ih =>
      rw [run_cons, Option.bind_eq_some_iff] at ran
      obtain ⟨t, taken, ran⟩ := ran
      exact (single meets.1 taken).trans (ih (meets.2 t taken) ran)

end Steps

/-- Every schedule meets the trivial side condition. -/
theorem meets_true (step : σ → α → Option σ) (s : σ) (acts : List α) :
    Meets step (fun _ _ => True) s acts := by
  induction acts generalizing s with
  | nil => trivial
  | cons a rest ih => exact ⟨trivial, fun s' _ => ih s'⟩

/-- A schedule of actions that meet a condition meets it in every state. -/
theorem meets_of_forall {step : σ → α → Option σ} {guard : α → Prop} {acts : List α}
    (all : ∀ a ∈ acts, guard a) (s : σ) : Meets step (fun _ a => guard a) s acts := by
  induction acts generalizing s with
  | nil => trivial
  | cons a rest ih =>
      exact ⟨all a List.mem_cons_self, fun s' _ =>
        ih (fun b mem => all b (List.mem_cons_of_mem _ mem)) s'⟩

/-- A schedule that meets two side conditions meets both at once. -/
theorem Meets.and {step : σ → α → Option σ} {guard guard' : σ → α → Prop} {s : σ} {acts : List α}
    (meets : Meets step guard s acts) (meets' : Meets step guard' s acts) :
    Meets step (fun s a => guard s a ∧ guard' s a) s acts := by
  induction acts generalizing s with
  | nil => trivial
  | cons a rest ih =>
      exact ⟨⟨meets.1, meets'.1⟩, fun s' taken => ih (meets.2 s' taken) (meets'.2 s' taken)⟩

/-- **The exact rule**: where a step keeps an invariant exactly if it meets the side condition, the
invariant holds all along a schedule exactly if every step of it does. -/
theorem forall_run_take_iff {step : σ → α → Option σ} {guard : σ → α → Prop} {Inv : σ → Prop}
    (exact_ : ∀ s a s', Inv s → step s a = some s' → (Inv s' ↔ guard s a)) {s t : σ} {acts : List α}
    (start : Inv s) (ran : run step s acts = some t) :
    (∀ n u, run step s (acts.take n) = some u → Inv u) ↔ Meets step guard s acts := by
  induction acts generalizing s with
  | nil =>
      refine ⟨fun _ => trivial, fun _ n u ran' => ?_⟩
      rw [List.take_nil, run_nil] at ran'
      cases ran'
      exact start
  | cons a rest ih =>
      rw [run_cons, Option.bind_eq_some_iff] at ran
      obtain ⟨s₁, taken, ran⟩ := ran
      constructor
      · intro all
        have first : Inv s₁ := all 1 s₁ (by
          rw [List.take_succ_cons, List.take_zero, run_cons, taken]
          rfl)
        refine ⟨(exact_ s a s₁ start taken).mp first, fun s' taken' => ?_⟩
        rw [taken, Option.some.injEq] at taken'
        subst taken'
        refine (ih first ran).mp fun n u ran' => all (n + 1) u ?_
        rw [List.take_succ_cons, run_cons, taken]
        exact ran'
      · rintro ⟨meets, later⟩ n u ran'
        cases n with
        | zero =>
            cases ran'
            exact start
        | succ n =>
            rw [List.take_succ_cons, run_cons, taken] at ran'
            exact (ih ((exact_ s a s₁ start taken).mpr meets) ran).mpr (later s₁ taken) n u ran'

/-- **The exact rule, relative to an invariant** of all steps. -/
theorem forall_run_take_iff_knowing {step : σ → α → Option σ} {guard : σ → α → Prop}
    {Known Inv : σ → Prop} (kept : ∀ s a s', Known s → step s a = some s' → Known s')
    (exact_ : ∀ s a s', Known s → Inv s → step s a = some s' → (Inv s' ↔ guard s a)) {s t : σ}
    {acts : List α} (known : Known s) (start : Inv s) (ran : run step s acts = some t) :
    (∀ n u, run step s (acts.take n) = some u → Inv u) ↔ Meets step guard s acts := by
  have both : ∀ s a s', Known s ∧ Inv s → step s a = some s' →
      (Known s' ∧ Inv s' ↔ guard s a) := by
    rintro s a s' ⟨known, inv⟩ taken
    rw [exact_ s a s' known inv taken]
    exact and_iff_right (kept s a s' known taken)
  rw [← forall_run_take_iff both ⟨known, start⟩ ran]
  constructor
  · intro all n u ran'
    exact ⟨(Steps.of_run (meets_true _ _ _) ran').invariant
      (fun s a s' _ taken known => kept s a s' known taken) known, all n u ran'⟩
  · exact fun all n u ran' => (all n u ran').2

/-- **The backward rule**: where a property holds after a step exactly if it held before and the step
meets the side condition, it holds at the end of a run exactly if it held at the start and every
step meets it. -/
theorem end_iff_meets {step : σ → α → Option σ} {guard : σ → α → Prop} {Known Inv : σ → Prop}
    (kept : ∀ s a s', Known s → step s a = some s' → Known s')
    (exact_ : ∀ s a s', Known s → step s a = some s' → (Inv s' ↔ Inv s ∧ guard s a))
    {s t : σ} {acts : List α} (known : Known s) (ran : run step s acts = some t) :
    Inv t ↔ Inv s ∧ Meets step guard s acts := by
  induction acts generalizing s with
  | nil =>
      cases ran
      exact (and_iff_left trivial).symm
  | cons a rest ih =>
      rw [run_cons, Option.bind_eq_some_iff] at ran
      obtain ⟨s₁, taken, ran⟩ := ran
      have later : (∀ s', step s a = some s' → Meets step guard s' rest) ↔
          Meets step guard s₁ rest := by
        rw [taken]
        exact ⟨fun all => all s₁ rfl, fun meets s' same => Option.some.inj same ▸ meets⟩
      rw [ih (kept s a s₁ known taken) ran, exact_ s a s₁ known taken, Meets, later, and_assoc]

/-- **The lockstep rule**: where related states take the same steps to related states, a schedule
that runs from one of them runs from the other. -/
theorem exists_run_of_lockstep {step : σ → α → Option σ} {R : σ → σ → Prop} {acts : List α}
    (kept : ∀ s s' a s₁, a ∈ acts → R s s' → step s a = some s₁ →
      ∃ s₁', step s' a = some s₁' ∧ R s₁ s₁')
    {s s' t : σ} (related : R s s') (ran : run step s acts = some t) :
    ∃ t', run step s' acts = some t' ∧ R t t' := by
  induction acts generalizing s s' with
  | nil =>
      cases ran
      exact ⟨s', rfl, related⟩
  | cons a rest ih =>
      rw [run_cons, Option.bind_eq_some_iff] at ran
      obtain ⟨s₁, taken, ran⟩ := ran
      obtain ⟨s₁', taken', related'⟩ := kept s s' a s₁ List.mem_cons_self related taken
      obtain ⟨t', ran', ended⟩ := ih
        (fun s s' b s₂ mem => kept s s' b s₂ (List.mem_cons_of_mem _ mem)) related' ran
      exact ⟨t', by rw [run_cons, taken']; exact ran', ended⟩

/-! ## The steps of a run -/

/-- **The run of the schedule takes the step** from `s` to `s'` by the action `a`. -/
def Occurs (step : σ → α → Option σ) (s₀ : σ) (acts : List α) (s : σ) (a : α) (s' : σ) : Prop :=
  ∃ front back, acts = front ++ a :: back ∧ run step s₀ front = some s ∧ step s a = some s'

namespace Occurs

variable {step : σ → α → Option σ} {s₀ s s' r r' t : σ} {acts front back : List α} {a b : α}

/-- A longer run starts like a shorter one. -/
theorem steps_of_run (ran : run step s₀ front = some s) (taken : step s a = some s')
    (further : run step s₀ (front ++ a :: back) = some t) :
    Steps step (fun _ _ => True) s' t := by
  rw [run_append, ran, Option.bind_some, run_cons, taken, Option.bind_some] at further
  exact .of_run (meets_true ..) further

/-- The state in which a step is taken is reached from the start. -/
theorem reached (occurs : Occurs step s₀ acts s a s') : Steps step (fun _ _ => True) s₀ s := by
  obtain ⟨front, back, rfl, ran, taken⟩ := occurs
  exact .of_run (meets_true ..) ran

/-- The end of a run is reached from every state in it. -/
theorem rest (occurs : Occurs step s₀ acts s a s') (ran : run step s₀ acts = some t) :
    Steps step (fun _ _ => True) s' t := by
  obtain ⟨front, back, rfl, start, taken⟩ := occurs
  exact steps_of_run start taken ran

/-- **The steps of a run are ordered**: two of them are the same, or the state after the one is on
the way to the state before the other. -/
theorem ordered (first : Occurs step s₀ acts s a s') (second : Occurs step s₀ acts r b r') :
    (s = r ∧ a = b) ∨ Steps step (fun _ _ => True) s' r ∨ Steps step (fun _ _ => True) r' s := by
  obtain ⟨front, back, rfl, ran, taken⟩ := first
  obtain ⟨front', back', same, ran', taken'⟩ := second
  rcases List.append_eq_append_iff.mp same with ⟨gap, rfl, rest⟩ | ⟨gap, rfl, rest⟩
  · cases gap with
    | nil =>
        rw [List.append_nil, ran, Option.some.injEq] at ran'
        exact Or.inl ⟨ran', (List.cons.inj rest).1⟩
    | cons c gap =>
        obtain ⟨rfl, -⟩ := List.cons.inj rest
        exact Or.inr (Or.inl (steps_of_run ran taken ran'))
  · cases gap with
    | nil =>
        rw [List.append_nil, ran', Option.some.injEq] at ran
        exact Or.inl ⟨ran.symm, (List.cons.inj rest).1.symm⟩
    | cons c gap =>
        obtain ⟨rfl, -⟩ := List.cons.inj rest
        exact Or.inr (Or.inr (steps_of_run ran' taken' ran))

end Occurs

/-- A schedule whose end passes a test has an end. -/
theorem exists_of_run {step : σ → α → Option σ} {s : σ} {acts : List α} {test : σ → Bool}
    (passed : (run step s acts).any test = true) :
    ∃ s', run step s acts = some s' ∧ test s' = true :=
  (Option.any_eq_true _ _).mp passed

/-- Whether every step of a schedule passes a test. -/
def passes (step : σ → α → Option σ) (test : σ → α → Bool) : σ → List α → Bool
  | _, [] => true
  | s, a :: rest =>
      test s a && match step s a with
        | none => true
        | some s' => passes step test s' rest

/-- A schedule meets a side condition that a test of its steps implies. -/
theorem meets_of_passes {step : σ → α → Option σ} {guard : σ → α → Prop} {test : σ → α → Bool}
    (sound : ∀ s a, test s a = true → guard s a) {s : σ} {acts : List α}
    (passed : passes step test s acts = true) : Meets step guard s acts := by
  induction acts generalizing s with
  | nil => trivial
  | cons a rest ih =>
      rw [passes, Bool.and_eq_true] at passed
      refine ⟨sound s a passed.1, fun s' taken => ih ?_⟩
      rw [taken] at passed
      exact passed.2

/-- The same, where the test is sound in the states that can be reached. -/
theorem meets_of_passes_knowing {step : σ → α → Option σ} {guard : σ → α → Prop}
    {test : σ → α → Bool} {Known : σ → Prop}
    (kept : ∀ s a s', step s a = some s' → Known s → Known s')
    (sound : ∀ s a, Known s → test s a = true → guard s a) {s : σ} {acts : List α}
    (known : Known s) (passed : passes step test s acts = true) : Meets step guard s acts := by
  induction acts generalizing s with
  | nil => trivial
  | cons a rest ih =>
      rw [passes, Bool.and_eq_true] at passed
      refine ⟨sound s a known passed.1, fun s' taken => ih (kept s a s' taken known) ?_⟩
      rw [taken] at passed
      exact passed.2

end EdgeCache.Transition

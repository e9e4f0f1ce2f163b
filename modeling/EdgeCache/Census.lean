import EdgeCache.Lib.Weight
import EdgeCache.Moves

/-!
# Counting the threads of a fleet

A fleet has finitely many threads at any time, so they can be counted, each with a weight that
depends on where it stands.  A step changes what the threads weigh by what the thread that moved
and the one it started weigh.

`balanced_of_steps` — **the books of a run**: where every call that begins and every move of a
thread balances what comes in against what goes out and what the threads weigh, every state does.
-/

namespace EdgeCache

variable {ι : Type} [DecidableEq ι] {D : Deployment ι} {guard : State ι → Action ι → Prop}
  {s s' : State ι} {t : ℕ} {th : Thread ι} {input : Input} {o : Outcome ι}

open Transition

/-! ## Threads that weigh something -/

/-- What a thread weighs that a move starts. -/
def childWeight (w : ℕ → Thread ι → ℕ) (th : Thread ι) : Option (ℕ × Pc) → ℕ
  | none => 0
  | some (u, pc) => w u { th with pc := pc }

theorem few_commit {key : ByteString} (few : Few s.threads) :
    Few (s.commit key t th o).threads := by
  change Few (State.spawn _ th o.child)
  have moved := few.update t (some { th with pc := o.pc })
  cases o.child with
  | none => exact moved
  | some child => exact moved.update child.1 _

/-- A step starts one thread at most. -/
theorem few_step {a : Action ι} (taken : D.step s a = some s') (few : Few s.threads) :
    Few s'.threads := by
  cases turn_of_step taken with
  | start unused => exact few.update _ _
  | thread running move => exact few_commit few
  | _ => exact few

/-- **A fleet has finitely many threads.** -/
theorem few_of_steps {clock : ℕ} (run : Steps D.step guard (D.initial clock) s) :
    Few s.threads := by
  induction run with
  | refl => exact few_none
  | tail front last ih =>
      obtain ⟨a, -, taken⟩ := last
      exact few_step taken ih

/-- **What a move changes.** -/
theorem weigh_commit (w : ℕ → Thread ι → ℕ) (key : ByteString) (few : Few s.threads)
    (running : s.threads t = some th) (move : Move D s t th input o) :
    weigh w (s.commit key t th o).threads + w t th =
      weigh w s.threads + w t { th with pc := o.pc } + childWeight w th o.child := by
  have moved := weigh_update (w := w) few t (some { th with pc := o.pc })
  rw [running] at moved
  simp only [Option.elim_some] at moved
  change weigh w (State.spawn _ th o.child) + _ = _
  cases born : o.child with
  | none => simpa [State.spawn, childWeight] using moved
  | some child =>
      obtain ⟨u, pc⟩ := child
      have apart : u ≠ t := fun same => by
        rw [same] at born
        rw [child_unused move born] at running
        cases running
      have unused : Function.update s.threads t (some { th with pc := o.pc }) u = none :=
        (Function.update_of_ne apart ..).trans (child_unused move born)
      simp only [State.spawn, childWeight]
      rw [weigh_insert (few.update t _) unused]
      omega

omit [DecidableEq ι] in
/-- What a call adds that begins. -/
theorem weigh_start (w : ℕ → Thread ι → ℕ) (few : Few s.threads) (unused : s.threads t = none)
    (i : ι) (req : HttpRequest) :
    weigh w (Function.update s.threads t (some ⟨i, req, Deployment.entryPoint req⟩)) =
      weigh w s.threads + w t ⟨i, req, Deployment.entryPoint req⟩ :=
  weigh_insert few unused _

/-! ## Books -/

/-- The sum of a quantity over events. -/
def tally (q : Event ι → ℕ) (events : List (Event ι)) : ℕ := (events.map q).sum

omit [DecidableEq ι] in
@[simp] theorem tally_nil (q : Event ι → ℕ) : tally q [] = 0 := rfl

omit [DecidableEq ι] in
@[simp] theorem tally_cons (q : Event ι → ℕ) (e : Event ι) (events : List (Event ι)) :
    tally q (e :: events) = q e + tally q events := by
  simp [tally]

omit [DecidableEq ι] in
@[simp] theorem tally_append (q : Event ι → ℕ) (front back : List (Event ι)) :
    tally q (front ++ back) = tally q front + tally q back := by
  simp [tally]

/-- What came in has gone out, or is with the threads. -/
def Balanced (income outgo : Event ι → ℕ) (w : ℕ → Thread ι → ℕ) (s : State ι) : Prop :=
  tally income s.trace = tally outgo s.trace + weigh w s.threads

/-- **The books of a run.** -/
structure Books (D : Deployment ι) (Known : State ι → Prop) (income outgo : Event ι → ℕ)
    (w : ℕ → Thread ι → ℕ) : Prop where
  start : ∀ t i req, income (.began t i req) =
    outgo (.began t i req) + w t ⟨i, req, Deployment.entryPoint req⟩
  move : ∀ {s t th input o}, Known s → s.threads t = some th → Move D s t th input o →
    tally income o.events + w t th =
      tally outgo o.events + w t { th with pc := o.pc } + childWeight w th o.child
  purge : ∀ p i pattern, income (.purgeBegan p i pattern) = outgo (.purgeBegan p i pattern) ∧
    income (.purgeReturned p i pattern) = outgo (.purgeReturned p i pattern)

variable {Known : State ι → Prop} {income outgo : Event ι → ℕ} {w : ℕ → Thread ι → ℕ}

/-- Every step keeps the books. -/
theorem Books.step (books : Books D Known income outgo w) {a : Action ι}
    (taken : D.step s a = some s') (known : Known s) (few : Few s.threads)
    (before : Balanced income outgo w s) : Balanced income outgo w s' := by
  unfold Balanced at before ⊢
  cases turn_of_step taken with
  | @start t i req unused =>
      simp only [tally_cons, books.start t i req, weigh_start w few unused]
      omega
  | @thread t input th o running move =>
      have balance := books.move known running move
      have change := weigh_commit w (D.key th.req) few running move
      simp only [commit_trace, tally_append]
      omega
  | @purgeStart p i pattern unused =>
      simp only [tally_cons, (books.purge p i pattern).1]
      omega
  | @purgeReturn p g running last =>
      simp only [tally_cons, (books.purge p g.replica g.pattern).2]
      omega
  | _ => exact before

/-- **Every state of a run is balanced.** -/
theorem Books.balanced_of_steps (books : Books D Known income outgo w) {clock : ℕ}
    (known : ∀ s', Steps D.step guard (D.initial clock) s' → Known s')
    (run : Steps D.step guard (D.initial clock) s) : Balanced income outgo w s := by
  have both : ∀ s', Steps D.step guard (D.initial clock) s' → Known s' ∧ Few s'.threads :=
    fun s' front => ⟨known s' front, few_of_steps front⟩
  refine run.invariant_of both
    (fun _ _ _ _ taken here _ before => books.step taken here.1 here.2 before) ?_
  simp [Balanced, Deployment.initial]

end EdgeCache

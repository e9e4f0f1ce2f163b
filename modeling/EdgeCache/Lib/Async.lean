import Mathlib

/-!
# Async functions

An async function calls services, waits for their replies, writes responses, and settles the
promise it returned.  A reply is a value or a rejection; a rejection that the function does not
catch rejects its promise.

A function is a tree of what it does next.  `Run` relates it to the replies that have come so far,
to what it has written, and to where its promise stands, so that a statement about all runs is one
about every moment of every run.

Some calls are **exposed**: nothing catches their rejections.

* `Answers` — a function that passes the rejections of its exposed calls on, handles all others,
  and writes nothing but its last step.
* `Answers.rejected_of_run` — after the rejection of an exposed call it has written nothing, and its
  promise is rejected.
* `Answers.settled_of_run` — otherwise it is waiting, or has done what it is to do.
-/

namespace EdgeCache

/-- An async function with errors `ε`, calls `δ` that are answered in `ρ`, responses `ω`, and a
value `α`. -/
inductive Async (ε : Type) {δ : Type} (ρ : δ → Type) (ω α : Type)
  | pure (a : α)
  | throw (e : ε)
  /-- Wait for what never comes. -/
  | never
  | send (w : ω) (next : Async ε ρ ω α)
  /-- `await` of one call. -/
  | await (d : δ) (k : Except ε (ρ d) → Async ε ρ ω α)
  /-- `await Promise.all` of two calls: it takes both values, or one rejection. -/
  | all (d d' : δ) (k : Except ε (ρ d × ρ d') → Async ε ρ ω α)

namespace Async

variable {ε δ : Type} {ρ : δ → Type} {ω α β : Type}

/-! ## Building functions -/

/-- Go on with the value. -/
def bind : Async ε ρ ω α → (α → Async ε ρ ω β) → Async ε ρ ω β
  | .pure a, f => f a
  | .throw e, _ => .throw e
  | .never, _ => .never
  | .send w next, f => .send w (next.bind f)
  | .await d k, f => .await d fun r => (k r).bind f
  | .all d d' k, f => .all d d' fun r => (k r).bind f

instance : Monad (Async ε ρ ω) where
  pure := .pure
  bind := .bind

/-- `try … catch`, or `.catch` of a promise. -/
def tryCatch : Async ε ρ ω α → (ε → Async ε ρ ω α) → Async ε ρ ω α
  | .pure a, _ => .pure a
  | .throw e, h => h e
  | .never, _ => .never
  | .send w next, h => .send w (next.tryCatch h)
  | .await d k, h => .await d fun r => (k r).tryCatch h
  | .all d d' k, h => .all d d' fun r => (k r).tryCatch h

/-- A value, or a rejection. -/
def settle : Except ε α → Async ε ρ ω α
  | .ok a => .pure a
  | .error e => .throw e

/-- Call a service and wait for its reply. -/
def call (d : δ) : Async ε ρ ω (ρ d) := .await d settle

/-- Write a response. -/
def write (w : ω) : Async ε ρ ω Unit := .send w (.pure ())

/-- Parts are put together in any order. -/
theorem bind_assoc {γ : Type} (x : Async ε ρ ω α) (f : α → Async ε ρ ω β)
    (g : β → Async ε ρ ω γ) : (x.bind f).bind g = x.bind fun a => (f a).bind g := by
  induction x with
  | pure a => rfl
  | throw e => rfl
  | never => rfl
  | send w next ih => exact congrArg (Async.send w) ih
  | await d k ih => exact congrArg (Async.await d) (funext ih)
  | all d d' k ih => exact congrArg (Async.all d d') (funext ih)

/-! ## Runs -/

/-- How a promise stands. -/
inductive Promise (ε α : Type)
  | pending
  | fulfilled (a : α)
  | rejected (e : ε)

/-- The reply to a call. -/
abbrev Reply (ε : Type) {δ : Type} (ρ : δ → Type) := Σ d : δ, Except ε (ρ d)

/-- **Runs**: the replies that have come, what has been written, and how the promise stands. -/
inductive Run : Async ε ρ ω α → List (Reply ε ρ) → List ω → Promise ε α → Prop
  | pure (a : α) : Run (.pure a) [] [] (.fulfilled a)
  | throw (e : ε) : Run (.throw e) [] [] (.rejected e)
  | never : Run .never [] [] .pending
  | send {w next replies out p} (rest : Run next replies out p) :
      Run (.send w next) replies (w :: out) p
  | waiting (d k) : Run (.await d k) [] [] .pending
  | reply {d k r replies out p} (rest : Run (k r) replies out p) :
      Run (.await d k) (⟨d, r⟩ :: replies) out p
  | waitingAll (d d' k) : Run (.all d d' k) [] [] .pending
  | left {d d' k v replies out p}
      (rest : Run (.await d' fun r => k (r.map fun v' => (v, v'))) replies out p) :
      Run (.all d d' k) (⟨d, .ok v⟩ :: replies) out p
  | right {d d' k v' replies out p}
      (rest : Run (.await d fun r => k (r.map fun v => (v, v'))) replies out p) :
      Run (.all d d' k) (⟨d', .ok v'⟩ :: replies) out p
  | leftFails {d d' k e replies out p} (rest : Run (k (.error e)) replies out p) :
      Run (.all d d' k) (⟨d, .error e⟩ :: replies) out p
  | rightFails {d d' k e replies out p} (rest : Run (k (.error e)) replies out p) :
      Run (.all d d' k) (⟨d', .error e⟩ :: replies) out p

/-- A function that waits for a call: nothing has come yet, or it goes on with the reply. -/
theorem of_run_await {d : δ} {k : Except ε (ρ d) → Async ε ρ ω α} {replies : List (Reply ε ρ)}
    {out : List ω} {p : Promise ε α} (run : (Async.await d k).Run replies out p) :
    (replies = [] ∧ out = [] ∧ p = .pending) ∨
      ∃ r rest, replies = ⟨d, r⟩ :: rest ∧ (k r).Run rest out p := by
  cases run with
  | waiting => exact Or.inl ⟨rfl, rfl, rfl⟩
  | reply rest => exact Or.inr ⟨_, _, rfl, rest⟩

/-- A call and what is done with its value: nothing has come yet, the call is rejected, or it goes
on. -/
theorem of_run_call {d : δ} {f : ρ d → Async ε ρ ω β} {replies : List (Reply ε ρ)} {out : List ω}
    {p : Promise ε β} (run : ((call d).bind f).Run replies out p) :
    (replies = [] ∧ out = [] ∧ p = .pending) ∨ (∃ e, replies = [⟨d, .error e⟩] ∧ p = .rejected e) ∨
      ∃ v rest, replies = ⟨d, .ok v⟩ :: rest ∧ (f v).Run rest out p := by
  rcases of_run_await run with waiting | ⟨r, rest, came, run⟩
  · exact Or.inl waiting
  · cases r with
    | ok v => exact Or.inr (Or.inr ⟨v, rest, came, run⟩)
    | error e =>
        cases run
        exact Or.inr (Or.inl ⟨e, came, rfl⟩)

/-- A written response is the end. -/
theorem of_run_write {w : ω} {replies : List (Reply ε ρ)} {out : List ω} {p : Promise ε Unit}
    (run : (write w).Run replies out p) : replies = [] ∧ out = [w] ∧ p = .fulfilled () := by
  cases run with
  | send rest =>
      cases rest
      exact ⟨rfl, rfl, rfl⟩

/-! ## Exposed calls -/

/-- A part that writes nothing and makes no exposed call: its value satisfies `post`, its
rejection `fails`. -/
def Guarded (exposed : δ → Prop) :
    Async ε ρ ω α → (α → Prop) → (ε → Prop) → Prop
  | .pure a, post, _ => post a
  | .throw e, _, fails => fails e
  | .never, _, _ => True
  | .send _ _, _, _ => False
  | .await d k, post, fails => ¬ exposed d ∧ ∀ r, (k r).Guarded exposed post fails
  | .all d d' k, post, fails =>
      (¬ exposed d ∧ ¬ exposed d') ∧ ∀ r, (k r).Guarded exposed post fails

/-- A function that is rejected exactly with its exposed calls, and ends in `post` otherwise, of
what it writes as its last step and its value. -/
def Answers (exposed : δ → Prop) : Async ε ρ ω α → (List ω → α → Prop) → Prop
  | .pure a, post => post [] a
  | .throw _, _ => False
  | .never, _ => True
  | .send w next, post => ∃ a, next = .pure a ∧ post [w] a
  | .await d k, post => (∀ v, (k (.ok v)).Answers exposed post) ∧
      ∀ e, (exposed d → k (.error e) = .throw e) ∧
        (¬ exposed d → (k (.error e)).Answers exposed post)
  | .all d d' k, post => (exposed d ↔ exposed d') ∧ (∀ v, (k (.ok v)).Answers exposed post) ∧
      ∀ e, (exposed d → k (.error e) = .throw e) ∧
        (¬ exposed d → (k (.error e)).Answers exposed post)

variable {exposed : δ → Prop}

/-! ### How the parts compose -/

theorem Guarded.bind {x : Async ε ρ ω α} {f : α → Async ε ρ ω β} {post : β → Prop}
    {fails : ε → Prop}
    (guarded : x.Guarded exposed (fun a => (f a).Guarded exposed post fails) fails) :
    (x.bind f).Guarded exposed post fails := by
  induction x with
  | pure a => exact guarded
  | throw e => exact guarded
  | never => trivial
  | send w next ih => exact guarded
  | await d k ih => exact ⟨guarded.1, fun r => ih r (guarded.2 r)⟩
  | all d d' k ih => exact ⟨guarded.1, fun r => ih r (guarded.2 r)⟩

theorem guarded_call {d : δ} {post : ρ d → Prop} {fails : ε → Prop} (inner : ¬ exposed d)
    (value : ∀ v, post v) (failed : ∀ e, fails e) :
    (call d : Async ε ρ ω (ρ d)).Guarded exposed post fails := by
  refine ⟨inner, fun r => ?_⟩
  cases r with
  | ok v => exact value v
  | error e => exact failed e

/-- What an exposed call answers goes on, and its rejection with it. -/
theorem answers_call_bind {d : δ} {f : ρ d → Async ε ρ ω β} {post : List ω → β → Prop}
    (outer : exposed d) (rest : ∀ v, (f v).Answers exposed post) :
    ((call d).bind f).Answers exposed post :=
  ⟨fun v => rest v, fun _ => ⟨fun _ => rfl, fun inner => absurd outer inner⟩⟩

/-- **A guarded part that is caught** goes on whatever it comes to. -/
theorem Guarded.answers_tryCatch_bind {x : Async ε ρ ω α} {h : ε → Async ε ρ ω α}
    {f : α → Async ε ρ ω β} {post : List ω → β → Prop}
    (guarded : x.Guarded exposed (fun a => (f a).Answers exposed post)
      fun e => ((h e).bind f).Answers exposed post) :
    ((x.tryCatch h).bind f).Answers exposed post := by
  induction x with
  | pure a => exact guarded
  | throw e => exact guarded
  | never => trivial
  | send w next ih => exact guarded.elim
  | await d k ih =>
      obtain ⟨inner, rest⟩ := guarded
      exact ⟨fun v => ih _ (rest _),
        fun e => ⟨fun outer => absurd outer inner, fun _ => ih _ (rest _)⟩⟩
  | all d d' k ih =>
      obtain ⟨inner, rest⟩ := guarded
      exact ⟨iff_of_false inner.1 inner.2, fun v => ih _ (rest _),
        fun e => ⟨fun outer => absurd outer inner.1, fun _ => ih _ (rest _)⟩⟩

/-! ### What a run comes to -/

/-- An exposed call was rejected. -/
def Exposes (exposed : δ → Prop) (replies : List (Reply ε ρ)) : Prop :=
  ∃ d e, exposed d ∧ (⟨d, .error e⟩ : Reply ε ρ) ∈ replies

theorem not_exposes_nil : ¬ Exposes exposed ([] : List (Reply ε ρ)) := by
  rintro ⟨d, e, -, mem⟩
  cases mem

theorem exposes_ok_cons {d : δ} {v : ρ d} {replies : List (Reply ε ρ)} :
    Exposes exposed (⟨d, .ok v⟩ :: replies) ↔ Exposes exposed replies := by
  constructor
  · rintro ⟨d', e, outer, mem⟩
    cases mem with
    | tail _ mem => exact ⟨d', e, outer, mem⟩
  · rintro ⟨d', e, outer, mem⟩
    exact ⟨d', e, outer, List.mem_cons_of_mem _ mem⟩

theorem exposes_error_cons {d : δ} {e : ε} {replies : List (Reply ε ρ)} :
    Exposes exposed (⟨d, .error e⟩ :: replies) ↔ exposed d ∨ Exposes exposed replies := by
  constructor
  · rintro ⟨d', e', outer, mem⟩
    cases mem with
    | head => exact Or.inl outer
    | tail _ mem => exact Or.inr ⟨d', e', outer, mem⟩
  · rintro (outer | ⟨d', e', outer, mem⟩)
    · exact ⟨d, e, outer, List.mem_cons_self⟩
    · exact ⟨d', e', outer, List.mem_cons_of_mem _ mem⟩

/-- What a run of a function that `Answers` comes to: with an exposed rejection nothing is written
and the promise is rejected; without one it is waiting, having written nothing, or is done. -/
def Comes (exposed : δ → Prop) (post : List ω → α → Prop) (replies : List (Reply ε ρ))
    (out : List ω) (p : Promise ε α) : Prop :=
  (Exposes exposed replies ∧ out = [] ∧ ∃ e, p = .rejected e) ∨
    (¬ Exposes exposed replies ∧
      ((out = [] ∧ p = .pending) ∨ ∃ a, p = .fulfilled a ∧ post out a))

variable {x : Async ε ρ ω α} {post : List ω → α → Prop} {replies : List (Reply ε ρ)}
  {out : List ω} {p : Promise ε α}

theorem Comes.ok_cons {d : δ} {v : ρ d} (comes : Comes exposed post replies out p) :
    Comes exposed post (⟨d, .ok v⟩ :: replies) out p := by
  rwa [Comes, exposes_ok_cons]

/-- A rejected call is followed by the end of the run, or by what handles it. -/
theorem Comes.error_cons {d : δ} {e : ε} {y : Async ε ρ ω α}
    (continued : (exposed d → y = .throw e) ∧ (¬ exposed d → y.Answers exposed post))
    (run : y.Run replies out p) (ih : y.Answers exposed post → Comes exposed post replies out p) :
    Comes exposed post (⟨d, .error e⟩ :: replies) out p := by
  by_cases outer : exposed d
  · rw [continued.1 outer] at run
    cases run
    exact Or.inl ⟨exposes_error_cons.mpr (Or.inl outer), rfl, e, rfl⟩
  · have comes := ih (continued.2 outer)
    rwa [Comes, exposes_error_cons, or_iff_right outer]

/-- After both values, or a rejection, `Promise.all` goes on as it is to. -/
theorem Answers.half {d d' : δ} {k : Except ε (ρ d × ρ d') → Async ε ρ ω α}
    {post : List ω → α → Prop} (answers : (Async.all d d' k).Answers exposed post) :
    (∀ v, (Async.await d' fun r => k (r.map fun v' => (v, v'))).Answers exposed post) ∧
      ∀ v', (Async.await d fun r => k (r.map fun v => (v, v'))).Answers exposed post := by
  obtain ⟨same, values, fails⟩ := answers
  refine ⟨fun v => ⟨fun v' => values (v, v'), fun e => ?_⟩,
    fun v' => ⟨fun v => values (v, v'), fun e => fails e⟩⟩
  exact ⟨fun outer => (fails e).1 (same.mpr outer), fun inner => (fails e).2 (mt same.mp inner)⟩

/-- **What every run comes to.** -/
theorem Answers.comes_of_run (answers : x.Answers exposed post) (run : x.Run replies out p) :
    Comes exposed post replies out p := by
  induction run with
  | pure a => exact Or.inr ⟨not_exposes_nil, Or.inr ⟨a, rfl, answers⟩⟩
  | throw e => exact answers.elim
  | never => exact Or.inr ⟨not_exposes_nil, Or.inl ⟨rfl, rfl⟩⟩
  | send rest ih =>
      obtain ⟨a, rfl, ends⟩ := answers
      cases rest
      exact Or.inr ⟨not_exposes_nil, Or.inr ⟨a, rfl, ends⟩⟩
  | waiting d k => exact Or.inr ⟨not_exposes_nil, Or.inl ⟨rfl, rfl⟩⟩
  | @reply d k r replies out p rest ih =>
      cases r with
      | ok v => exact (ih (answers.1 v)).ok_cons
      | error e => exact Comes.error_cons (answers.2 e) rest ih
  | waitingAll d d' k => exact Or.inr ⟨not_exposes_nil, Or.inl ⟨rfl, rfl⟩⟩
  | @left d d' k v replies out p rest ih => exact (ih (answers.half.1 v)).ok_cons
  | @right d d' k v' replies out p rest ih => exact (ih (answers.half.2 v')).ok_cons
  | @leftFails d d' k e replies out p rest ih => exact Comes.error_cons (answers.2.2 e) rest ih
  | @rightFails d d' k e replies out p rest ih =>
      obtain ⟨same, -, fails⟩ := answers
      obtain ⟨thrown, handled⟩ := fails e
      exact Comes.error_cons ⟨fun outer => thrown (same.mpr outer),
        fun inner => handled (mt same.mp inner)⟩ rest ih

/-- After the rejection of an exposed call nothing has been written, and the promise is
rejected. -/
theorem Answers.rejected_of_run (answers : x.Answers exposed post) (run : x.Run replies out p)
    (exposes : Exposes exposed replies) : out = [] ∧ ∃ e, p = .rejected e := by
  rcases answers.comes_of_run run with ⟨-, lost⟩ | ⟨hidden, -⟩
  · exact lost
  · exact absurd exposes hidden

/-- Without one the function is waiting, or has done what it is to do. -/
theorem Answers.settled_of_run (answers : x.Answers exposed post) (run : x.Run replies out p)
    (hidden : ¬ Exposes exposed replies) :
    (out = [] ∧ p = .pending) ∨ ∃ a, p = .fulfilled a ∧ post out a := by
  rcases answers.comes_of_run run with ⟨exposes, -⟩ | ⟨-, settled⟩
  · exact absurd exposes hidden
  · exact settled

end Async

end EdgeCache

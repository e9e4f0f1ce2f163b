import Mathlib.Algebra.BigOperators.Group.List.Basic
import Mathlib.Algebra.Group.Prod
import Mathlib.Data.List.Nodup
import Mathlib.Tactic.Abel

/-!
# Rows with keys, and transactions that lock the rows they write

A table is a list of rows, at most one for each key.  A transaction keeps a version of each row that
it writes until it commits; a row that it has written is locked, so no other transaction writes it
until then.  Every write adds to the row that the transaction sees.

* `sum_put` — what all rows count together changes by what the row counts that is put.
* `Isolated` — the open transactions have sound versions, and no two of them of one row.
* `Isolated.commit` — **no update is lost**: a commit adds what the transaction has added, and the
  versions of the others stay sound.
-/

namespace EdgeCache.Keyed

variable {α κ ι M : Type*} [DecidableEq κ] (key : α → κ)

/-! ## Tables -/

/-- The row with a key. -/
def get (k : κ) (rows : List α) : Option α := rows.find? fun a => key a = k

/-- Put a row in the place of the one with its key, or behind all others. -/
def put (v : α) : List α → List α
  | [] => [v]
  | a :: rows => if key a = key v then v :: rows else a :: put v rows

/-- Put rows one after the other. -/
def putAll (versions rows : List α) : List α := versions.foldl (fun rows v => put key v rows) rows

variable {key} {v a : α} {k : κ} {rows : List α}

theorem key_of_get (found : get key k rows = some a) : key a = k := by
  simpa using List.find?_some found

theorem mem_of_get (found : get key k rows = some a) : a ∈ rows := List.mem_of_find?_eq_some found

theorem get_eq_none_iff : get key k rows = none ↔ ∀ a ∈ rows, key a ≠ k := by
  simp [get]

/-- **What a table holds after a row was put.** -/
theorem get_put : get key k (put key v rows) = if key v = k then some v else get key k rows := by
  induction rows with
  | nil => by_cases here : key v = k <;> simp [put, get, here]
  | cons a rows ih =>
      unfold get at ih ⊢
      rw [put]
      split
      · rename_i same
        simp only [List.find?_cons, same]
        by_cases here : key v = k <;> simp [here]
      · rename_i apart
        rw [List.find?_cons, List.find?_cons, ih]
        by_cases there : key a = k
        · have other : key v ≠ k := fun here => apart (there.trans here.symm)
          simp [there, other]
        · simp [there]

theorem get_put_self : get key (key v) (put key v rows) = some v := by rw [get_put, if_pos rfl]

theorem get_put_of_ne (apart : key v ≠ k) : get key k (put key v rows) = get key k rows := by
  rw [get_put, if_neg apart]

theorem mem_put (mem : a ∈ put key v rows) : a = v ∨ a ∈ rows := by
  induction rows with
  | nil => exact Or.inl (List.mem_singleton.mp mem)
  | cons b rows ih =>
      rw [put] at mem
      split at mem
      · rcases List.mem_cons.mp mem with here | behind
        · exact Or.inl here
        · exact Or.inr (List.mem_cons_of_mem _ behind)
      · rcases List.mem_cons.mp mem with here | behind
        · exact Or.inr (here ▸ List.mem_cons_self)
        · exact (ih behind).imp_right (List.mem_cons_of_mem _)

/-- The keys stay apart. -/
theorem nodup_put (distinct : (rows.map key).Nodup) : ((put key v rows).map key).Nodup := by
  induction rows with
  | nil => simp [put]
  | cons b rows ih =>
      rw [List.map_cons, List.nodup_cons] at distinct
      rw [put]
      split
      · rename_i same
        rw [List.map_cons, List.nodup_cons, ← same]
        exact distinct
      · rename_i apart
        rw [List.map_cons, List.nodup_cons]
        refine ⟨fun mem => ?_, ih distinct.2⟩
        obtain ⟨c, there, same⟩ := List.mem_map.mp mem
        rcases mem_put there with rfl | inside
        · exact apart same.symm
        · exact distinct.1 (List.mem_map.mpr ⟨c, inside, same⟩)

theorem nodup_putAll {versions : List α} (distinct : (rows.map key).Nodup) :
    ((putAll key versions rows).map key).Nodup := by
  induction versions generalizing rows with
  | nil => exact distinct
  | cons v versions ih => exact ih (nodup_put distinct)

theorem get_putAll_of_notMem {versions : List α} (apart : ∀ v ∈ versions, key v ≠ k) :
    get key k (putAll key versions rows) = get key k rows := by
  induction versions generalizing rows with
  | nil => rfl
  | cons v versions ih =>
      refine (ih fun w mem => apart w (List.mem_cons_of_mem _ mem)).trans ?_
      exact get_put_of_ne (apart v List.mem_cons_self)

section Sums

variable [AddCommGroup M] {f : α → M}

/-- What a row counts, nothing where there is none. -/
def worth (f : α → M) (row : Option α) : M := row.elim 0 f

@[simp] theorem worth_none : worth f none = 0 := rfl

@[simp] theorem worth_some : worth f (some a) = f a := rfl

/-- **A table after a row was put** counts what the row counts, and no longer what the row counted
that was in its place. -/
theorem sum_put : ((put key v rows).map f).sum =
    (rows.map f).sum + (f v - worth f (get key (key v) rows)) := by
  induction rows with
  | nil => simp [put, get]
  | cons a rows ih =>
      unfold get at ih ⊢
      rw [put]
      split
      · rename_i same
        simp only [List.map_cons, List.sum_cons, List.find?_cons, same, decide_true, worth_some]
        abel
      · rename_i apart
        simp only [List.map_cons, List.sum_cons, List.find?_cons, apart, decide_false, ih]
        abel

theorem sum_putAll {versions : List α} (distinct : (versions.map key).Nodup) :
    ((putAll key versions rows).map f).sum =
      (rows.map f).sum + (versions.map fun v => f v - worth f (get key (key v) rows)).sum := by
  induction versions generalizing rows with
  | nil => simp [putAll]
  | cons v versions ih =>
      rw [List.map_cons, List.nodup_cons] at distinct
      have same : ∀ w ∈ versions, f w - worth f (get key (key w) (put key v rows)) =
          f w - worth f (get key (key w) rows) := by
        intro w mem
        rw [get_put_of_ne fun same => distinct.1 (List.mem_map.mpr ⟨w, mem, same.symm⟩)]
      rw [List.map_cons, List.sum_cons]
      refine (ih distinct.2).trans ?_
      rw [List.map_congr_left same, sum_put]
      abel

end Sums

/-! ## Transactions -/

/-- What a transaction has added, and its versions of the rows that it has written. -/
structure Writes (α ι : Type*) where
  added : List ι
  versions : List α

namespace Writes

/-- A transaction that has written nothing. -/
def none : Writes α ι := ⟨[], []⟩

variable (key) in
/-- The row that a transaction sees: its own version, or else the one of the table. -/
def sees (w : Writes α ι) (rows : List α) (k : κ) : Option α :=
  (get key k w.versions).or (get key k rows)

variable (key) in
/-- A transaction writes a row. -/
def write (w : Writes α ι) (x : ι) (v : α) : Writes α ι := ⟨w.added ++ [x], put key v w.versions⟩

variable (key) in
/-- No row was written by both. -/
def Apart (w w' : Writes α ι) : Prop := ∀ v ∈ w.versions, ∀ v' ∈ w'.versions, key v ≠ key v'

omit [DecidableEq κ] in
theorem Apart.symm {w w' : Writes α ι} (apart : w.Apart key w') : w'.Apart key w :=
  fun v' mem' v mem => (apart v mem v' mem').symm

variable [AddCommGroup M] (key) (f : α → M) (g : ι → M) in
/-- **Sound versions** come from the rows of the table by what was added. -/
structure Sound (rows : List α) (w : Writes α ι) : Prop where
  distinct : (w.versions.map key).Nodup
  gain : (w.versions.map fun v => f v - worth f (get key (key v) rows)).sum = (w.added.map g).sum

variable [AddCommGroup M] {f : α → M} {g : ι → M} {w w' : Writes α ι} {x : ι}

theorem sound_none : (none : Writes α ι).Sound key f g rows := ⟨List.nodup_nil, rfl⟩

/-- A write adds to the row that the transaction sees. -/
theorem Sound.write (sound : w.Sound key f g rows)
    (adds : f v = worth f (w.sees key rows (key v)) + g x) :
    (w.write key x v).Sound key f g rows := by
  refine ⟨nodup_put sound.distinct, ?_⟩
  rw [Writes.write, sum_put, sound.gain, List.map_append, List.sum_append, List.map_singleton,
    List.sum_singleton, adds]
  congr 1
  rw [sees]
  cases own : get key (key v) w.versions with
  | none => simp
  | some b =>
      rw [Option.some_or, worth_some, worth_some, key_of_get own]
      abel

/-- The versions of a transaction stay sound while another one commits. -/
theorem Sound.beside (sound : w.Sound key f g rows) (apart : w.Apart key w') :
    w.Sound key f g (putAll key w'.versions rows) := by
  refine ⟨sound.distinct, ?_⟩
  rw [← sound.gain]
  refine congrArg List.sum (List.map_congr_left fun v mem => ?_)
  rw [get_putAll_of_notMem fun v' mem' => (apart v mem v' mem').symm]

/-- **A commit adds what the transaction has added.** -/
theorem Sound.sum_commit (sound : w.Sound key f g rows) :
    ((putAll key w.versions rows).map f).sum = (rows.map f).sum + (w.added.map g).sum := by
  rw [sum_putAll sound.distinct, sound.gain]

end Writes

open Writes

variable [AddCommGroup M] (key) (f : α → M) (g : ι → M) in
/-- **The open transactions**: their versions are sound, and no two of them have written one row. -/
structure Isolated (rows : List α) (running : List (Writes α ι)) : Prop where
  sound : ∀ w ∈ running, w.Sound key f g rows
  apart : running.Pairwise (Apart key)

namespace Isolated

variable [AddCommGroup M] {f : α → M} {g : ι → M} {w : Writes α ι} {x : ι}
  {running running' : List (Writes α ι)}

theorem nil : Isolated key f g rows ([] : List (Writes α ι)) := ⟨by simp, List.Pairwise.nil⟩

theorem perm (isolated : Isolated key f g rows running) (same : running.Perm running') :
    Isolated key f g rows running' :=
  ⟨fun w mem => isolated.sound w (same.mem_iff.mpr mem),
    (same.pairwise_iff fun apart => Apart.symm apart).mp isolated.apart⟩

/-- A transaction begins. -/
theorem cons_none (isolated : Isolated key f g rows running) :
    Isolated key f g rows (Writes.none :: running) := by
  refine ⟨fun w mem => ?_, List.Pairwise.cons (fun w _ v mem => ?_) isolated.apart⟩
  · rcases List.mem_cons.mp mem with rfl | mem
    · exact sound_none
    · exact isolated.sound w mem
  · cases mem

/-- A transaction is rolled back. -/
theorem tail (isolated : Isolated key f g rows (w :: running)) : Isolated key f g rows running :=
  ⟨fun w mem => isolated.sound w (List.mem_cons_of_mem _ mem), isolated.apart.of_cons⟩

/-- The same of one that may be there. -/
theorem drop {w : Option (Writes α ι)}
    (isolated : Isolated key f g rows (w.toList ++ running)) : Isolated key f g rows running := by
  cases w with
  | none => exact isolated
  | some w => exact isolated.tail

/-- A transaction writes a row that no other one has written. -/
theorem write (isolated : Isolated key f g rows (w :: running))
    (free : ∀ w' ∈ running, ∀ v' ∈ w'.versions, key v ≠ key v')
    (adds : f v = worth f (w.sees key rows (key v)) + g x) :
    Isolated key f g rows (w.write key x v :: running) := by
  refine ⟨fun u mem => ?_, List.Pairwise.cons (fun w' mem v' mem' u there => ?_)
    isolated.apart.of_cons⟩
  · rcases List.mem_cons.mp mem with rfl | mem
    · exact (isolated.sound w List.mem_cons_self).write adds
    · exact isolated.sound u (List.mem_cons_of_mem _ mem)
  · rcases mem_put mem' with rfl | mine
    · exact free w' mem u there
    · exact List.rel_of_pairwise_cons isolated.apart mem v' mine u there

/-- **A transaction commits**: the others are as isolated as before. -/
theorem commit (isolated : Isolated key f g rows (w :: running)) :
    Isolated key f g (putAll key w.versions rows) running := by
  refine ⟨fun u mem => ?_, isolated.apart.of_cons⟩
  have apart := List.rel_of_pairwise_cons isolated.apart mem
  exact (isolated.sound u (List.mem_cons_of_mem _ mem)).beside apart.symm

end Isolated

end EdgeCache.Keyed

import EdgeCache.Moves

/-!
# One thread among the others

What a run does to one thread is what the thread does itself: a step of anything else leaves it
where it stands and puts no event of it on the trace (`own_or_other`).  So where a thread can
get to is a matter of its own moves (`stands_of_steps`).
-/

namespace EdgeCache

variable {ι : Type} [DecidableEq ι] {D : Deployment ι} {guard : State ι → Action ι → Prop}
  {s s' : State ι} {t u : ℕ} {th : Thread ι} {input : Input} {o : Outcome ι} {ev : Event ι}

open Transition

/-- The thread an event is an event of. -/
def Event.actor : Event ι → Option ℕ
  | .began t _ _ | .led t _ _ _ | .joined t _ _ _ | .fetchStarted t _ _ | .fetched t _ _ _ _
  | .granted t _ _ _ _ _ | .withdrawn t _ _ _ | .filled t _ _ _ | .answered t _ _ _ _ => some t
  | .purgeBegan _ _ _ | .purgeReturned _ _ _ => none

omit [DecidableEq ι] in
theorem actor_conclude {lead : Lead} {hit : Option ℤ} {resp : HttpResponse}
    (mem : ev ∈ conclude t th lead hit resp) : ev.actor = some t := by
  cases lead with
  | revalidate n => cases mem
  | _ => cases List.mem_singleton.mp mem; rfl

omit [DecidableEq ι] in
/-- The events of a move are the thread's own, or of the thread it starts. -/
theorem actor_of_move (move : Move D s t th input o) (mem : ev ∈ o.events) :
    ev.actor = some t ∨ ∃ u pc, o.child = some (u, pc) ∧ ev.actor = some u := by
  cases move with
  | triggerLead here absent unused =>
      rw [List.mem_cons, List.mem_singleton] at mem
      rcases mem with rfl | rfl
      · exact Or.inl rfl
      · exact Or.inr ⟨_, _, rfl, rfl⟩
  | lost here absent => exact Or.inl (actor_conclude mem)
  | fill here =>
      rw [List.mem_append, List.mem_singleton] at mem
      rcases mem with mine | rfl
      · exact Or.inl (actor_conclude mine)
      · exact Or.inl rfl
  | _ => simp_all [Event.actor]

/-- A thread that can advance takes a step of the fleet. -/
theorem step_of_advance (running : s.threads t = some th) (advanced : D.advance s t th input = some o) :
    D.step s (.step t input) = some (s.commit (D.key th.req) t th o) := by
  simp only [Deployment.step, running, Option.bind_some, advanced, Option.map_some]

/-- The step of a thread is one of its moves. -/
theorem move_of_step (taken : D.step s (.step t input) = some s')
    (running : s.threads t = some th) :
    ∃ o, Move D s t th input o ∧ s' = s.commit (D.key th.req) t th o := by
  cases turn_of_step taken with
  | thread found move =>
      rw [running, Option.some.injEq] at found
      subst found
      exact ⟨_, move, rfl⟩

/-- **A step is the thread's own, or leaves it alone.** -/
theorem own_or_other {a : Action ι} (taken : D.step s a = some s')
    (running : s.threads t = some th) :
    (∃ input o, a = .step t input ∧ Move D s t th input o ∧
        s' = s.commit (D.key th.req) t th o) ∨
      (s'.threads t = some th ∧
        ∃ new, s'.trace = new ++ s.trace ∧ ∀ ev ∈ new, ev.actor ≠ some t) := by
  have apart : ∀ {u}, s.threads u = none → t ≠ u := by
    rintro u unused rfl
    rw [unused] at running
    cases running
  cases turn_of_step taken with
  | @start u i req unused =>
      refine Or.inr ⟨(Function.update_of_ne (apart unused) ..).trans running, [.began u i req], rfl,
        fun ev mem same => ?_⟩
      cases List.mem_singleton.mp mem
      exact apart unused (Option.some.inj same).symm
  | @thread u input uh o found move =>
      by_cases mine : t = u
      · subst mine
        rw [running, Option.some.injEq] at found
        subst found
        exact Or.inl ⟨input, o, rfl, move, rfl⟩
      · refine Or.inr ⟨threads_commit_of_ne move running mine, o.events, rfl, fun ev mem same => ?_⟩
        rcases actor_of_move move mem with other | ⟨v, pc, born, other⟩
        · exact mine (Option.some.inj (same.symm.trans other))
        · exact apart (child_unused move born) (Option.some.inj (same.symm.trans other))
  | @purgeStart p i pattern unused =>
      refine Or.inr ⟨running, [.purgeBegan p i pattern], rfl, fun ev mem same => ?_⟩
      cases List.mem_singleton.mp mem
      cases same
  | @purgeReturn p g found last =>
      refine Or.inr ⟨running, [.purgeReturned p g.replica g.pattern], rfl, fun ev mem same => ?_⟩
      cases List.mem_singleton.mp mem
      cases same
  | _ => exact Or.inr ⟨running, [], rfl, fun ev mem => by cases mem⟩

/-- **Where a thread stands** after a run: wherever its own moves lead. -/
theorem stands_of_steps {P : Pc → Prop}
    (kept : ∀ s t th input o, Move D s t th input o → P th.pc → P o.pc)
    (run : Steps D.step guard s s') (running : s.threads t = some th) (here : P th.pc) :
    ∃ pc, s'.threads t = some { th with pc := pc } ∧ P pc := by
  induction run with
  | refl => exact ⟨th.pc, running, here⟩
  | tail front last ih =>
      obtain ⟨a, -, taken⟩ := last
      obtain ⟨pc, stands, within⟩ := ih
      rcases own_or_other taken stands with ⟨input, o, -, move, rfl⟩ | ⟨same, -⟩
      · exact ⟨o.pc, threads_commit_self move stands, kept _ _ _ _ _ move within⟩
      · exact ⟨pc, same, within⟩

/-- What is on the trace after a step was there before, or a move put it there, or it begins a call
or belongs to a purge. -/
theorem mem_trace_of_step {a : Action ι} (taken : D.step s a = some s') (mem : ev ∈ s'.trace) :
    ev ∈ s.trace ∨
      (∃ t input th o, s.threads t = some th ∧ Move D s t th input o ∧
        s' = s.commit (D.key th.req) t th o ∧ ev ∈ o.events) ∨
      (∃ t i req, s.threads t = none ∧ ev = .began t i req) ∨ ev.actor = none := by
  cases turn_of_step taken with
  | start unused =>
      rcases List.mem_cons.mp mem with rfl | old
      · exact Or.inr (Or.inr (Or.inl ⟨_, _, _, unused, rfl⟩))
      · exact Or.inl old
  | thread running move =>
      rcases List.mem_append.mp mem with new | old
      · exact Or.inr (Or.inl ⟨_, _, _, _, running, move, rfl, new⟩)
      · exact Or.inl old
  | purgeStart unused =>
      rcases List.mem_cons.mp mem with rfl | old
      · exact Or.inr (Or.inr (Or.inr rfl))
      · exact Or.inl old
  | purgeReturn running last =>
      rcases List.mem_cons.mp mem with rfl | old
      · exact Or.inr (Or.inr (Or.inr rfl))
      · exact Or.inl old
  | _ => exact Or.inl mem

end EdgeCache

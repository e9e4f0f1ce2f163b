import EdgeCache.Lib.Async

/-!
# Async functions that share services

A process serves any number of requests at a time, each with an async function, and all of them
call the same services.  A call changes what the services hold and is answered, or it is rejected,
and may have been executed all the same.  In between the environment changes the services as it
likes.

What a function may rely on is what has been: whatever the others do, the states that the services
were in stay states that they were in.  So a function is judged by the **history** of the services.

* `Safe` — whatever the services answer, and whatever happens in between, every call of the function
  is permitted by the history at that moment, and every response it writes is true then.
* `Safe.bind`, `Safe.tryCatch`, `safe_call`, `safe_write` — how safe parts are put together.
* `allSafe_of_reaches` — **where every request is served safely**, every response ever written was
  true when it was written.
* `invariant_of_reaches` — and what permitted calls and the environment keep, holds at any time.
-/

namespace EdgeCache

/-! ## Histories -/

/-- The state that the services are in, and the ones that they were in before. -/
structure History (σ : Type) where
  now : σ
  past : List σ

namespace History

variable {σ : Type}

/-- The states of a history. -/
def states (h : History σ) : List σ := h.now :: h.past

instance : Membership σ (History σ) := ⟨fun h s => s ∈ h.states⟩

/-- A history goes on. -/
instance : Preorder (History σ) where
  le h h' := h.states <:+ h'.states
  le_refl h := List.suffix_refl _
  le_trans _ _ _ first second := List.IsSuffix.trans first second

/-- The services enter a state. -/
def after (h : History σ) (s : σ) : History σ := ⟨s, h.states⟩

@[simp] theorem after_now (h : History σ) (s : σ) : (h.after s).now = s := rfl

theorem le_after (h : History σ) (s : σ) : h ≤ h.after s := List.suffix_cons _ _

theorem now_mem (h : History σ) : h.now ∈ h := List.mem_cons_self

theorem mem_after {h : History σ} {s t : σ} : t ∈ h.after s ↔ t = s ∨ t ∈ h := List.mem_cons

/-- What has been stays what has been. -/
theorem mem_mono {h h' : History σ} (le : h ≤ h') {s : σ} (mem : s ∈ h) : s ∈ h' :=
  List.IsSuffix.subset le mem

end History

/-- Services with states `σ` that answer calls `δ`, and how the environment may change them. -/
structure Services (σ ε : Type) {δ : Type} (ρ : δ → Type) where
  answers : σ → (d : δ) → σ → Except ε (ρ d) → Prop
  changes : History σ → σ → Prop

namespace Services

variable {σ ε δ : Type} {ρ : δ → Type} {ω α β κ : Type} (S : Services σ ε ρ)

/-! ## Safe functions -/

section Safe

variable (may : History σ → δ → Prop) (tells : History σ → ω → Prop)

/-- **Safe functions**: every call is permitted, every response is true, and a value and a rejection
satisfy what is asked of them, from then on. -/
def Safe : Async ε ρ ω α → (History σ → α → Prop) → (History σ → ε → Prop) → History σ → Prop
  | .pure a, post, _, h => ∀ h', h ≤ h' → post h' a
  | .throw e, _, fails, h => ∀ h', h ≤ h' → fails h' e
  | .never, _, _, _ => True
  | .send w next, post, fails, h => ∀ h', h ≤ h' → tells h' w ∧ Safe next post fails h'
  | .await d k, post, fails, h => ∀ h', h ≤ h' →
      may h' d ∧ ∀ s r, S.answers h'.now d s r → Safe (k r) post fails (h'.after s)
  | .all d d' k, post, fails, h => ∀ h', h ≤ h' →
      (may h' d ∧ may h' d') ∧
      (∀ s v, S.answers h'.now d s (.ok v) → ∀ h'', h'.after s ≤ h'' →
        ∀ s' r, S.answers h''.now d' s' r →
          Safe (k (r.map fun v' => (v, v'))) post fails (h''.after s')) ∧
      (∀ s v', S.answers h'.now d' s (.ok v') → ∀ h'', h'.after s ≤ h'' →
        ∀ s' r, S.answers h''.now d s' r →
          Safe (k (r.map fun v => (v, v'))) post fails (h''.after s')) ∧
      ∀ s e, S.answers h'.now d s (.error e) ∨ S.answers h'.now d' s (.error e) →
        Safe (k (.error e)) post fails (h'.after s)

variable {S may tells} {h h' : History σ} {post : History σ → α → Prop}
  {fails : History σ → ε → Prop}

/-- A safe function stays safe. -/
theorem Safe.mono {x : Async ε ρ ω α} (safe : S.Safe may tells x post fails h) (le : h ≤ h') :
    S.Safe may tells x post fails h' := by
  cases x with
  | never => trivial
  | _ => exact fun h'' later => safe h'' (le.trans later)

/-- **A safe part, and what comes after it.** -/
theorem Safe.bind {x : Async ε ρ ω α} {f : α → Async ε ρ ω β} {post : History σ → β → Prop}
    (safe : S.Safe may tells x (fun h a => S.Safe may tells (f a) post fails h) fails h) :
    S.Safe may tells (x.bind f) post fails h := by
  induction x generalizing h with
  | pure a => exact safe h le_rfl
  | throw e => exact safe
  | never => trivial
  | send w next ih => exact fun h' le => ⟨(safe h' le).1, ih (safe h' le).2⟩
  | await d k ih =>
      exact fun h' le => ⟨(safe h' le).1, fun s r answered => ih r ((safe h' le).2 s r answered)⟩
  | all d d' k ih =>
      intro h' le
      obtain ⟨permitted, left, right, failed⟩ := safe h' le
      exact ⟨permitted,
        fun s v first h'' later s' r second => ih _ (left s v first h'' later s' r second),
        fun s v' first h'' later s' r second => ih _ (right s v' first h'' later s' r second),
        fun s e answered => ih _ (failed s e answered)⟩

/-- **A safe part whose rejections are caught.** -/
theorem Safe.tryCatch {x : Async ε ρ ω α} {handle : ε → Async ε ρ ω α}
    (safe : S.Safe may tells x post (fun h e => S.Safe may tells (handle e) post fails h) h) :
    S.Safe may tells (x.tryCatch handle) post fails h := by
  induction x generalizing h with
  | pure a => exact safe
  | throw e => exact safe h le_rfl
  | never => trivial
  | send w next ih => exact fun h' le => ⟨(safe h' le).1, ih (safe h' le).2⟩
  | await d k ih =>
      exact fun h' le => ⟨(safe h' le).1, fun s r answered => ih r ((safe h' le).2 s r answered)⟩
  | all d d' k ih =>
      intro h' le
      obtain ⟨permitted, left, right, failed⟩ := safe h' le
      exact ⟨permitted,
        fun s v first h'' later s' r second => ih _ (left s v first h'' later s' r second),
        fun s v' first h'' later s' r second => ih _ (right s v' first h'' later s' r second),
        fun s e answered => ih _ (failed s e answered)⟩

theorem safe_pure {a : α} (value : ∀ h', h ≤ h' → post h' a) :
    S.Safe may tells (.pure a) post fails h := value

/-- **A call**: it is permitted, and what it is answered with satisfies what is asked of it. -/
theorem safe_call {d : δ} {post : History σ → ρ d → Prop} (permitted : ∀ h', h ≤ h' → may h' d)
    (value : ∀ h' s v, h ≤ h' → S.answers h'.now d s (.ok v) → ∀ h'', h'.after s ≤ h'' → post h'' v)
    (failed : ∀ h' e, h ≤ h' → fails h' e) :
    S.Safe may tells (.call d : Async ε ρ ω (ρ d)) post fails h := by
  intro h' le
  refine ⟨permitted h' le, fun s r answered => ?_⟩
  cases r with
  | ok v => exact value h' s v le answered
  | error e =>
      exact fun h'' later => failed h'' e (le.trans ((h'.le_after s).trans later))

/-- **Two calls at once**, which are not rejected alone. -/
theorem safe_all {d d' : δ} {k : Except ε (ρ d × ρ d') → Async ε ρ ω α}
    (permitted : ∀ h', h ≤ h' → may h' d ∧ may h' d')
    (values : ∀ h₁ h₂ s₁ s₂ v v' h', h ≤ h₁ → h ≤ h₂ → S.answers h₁.now d s₁ (.ok v) →
      S.answers h₂.now d' s₂ (.ok v') → h₁.after s₁ ≤ h' → h₂.after s₂ ≤ h' →
        S.Safe may tells (k (.ok (v, v'))) post fails h')
    (failed : ∀ e h', h ≤ h' → S.Safe may tells (k (.error e)) post fails h') :
    S.Safe may tells (.all d d' k) post fails h := by
  intro h₁ le₁
  refine ⟨permitted h₁ le₁, fun s₁ v first h₂ le₂ s₂ r second => ?_,
    fun s₁ v' first h₂ le₂ s₂ r second => ?_, fun s e _ => failed e _ (le₁.trans (h₁.le_after s))⟩
  all_goals
    have later := le₁.trans ((h₁.le_after s₁).trans le₂)
    cases r with
    | error e => exact failed e _ (later.trans (h₂.le_after s₂))
    | ok w => ?_
  · exact values h₁ h₂ s₁ s₂ v w _ le₁ later first second (le₂.trans (h₂.le_after s₂)) le_rfl
  · exact values h₂ h₁ s₂ s₁ w v' _ later le₁ second first le_rfl (le₂.trans (h₂.le_after s₂))

/-- **A response.** -/
theorem safe_write {w : ω} {post : History σ → Unit → Prop} (true_ : ∀ h', h ≤ h' → tells h' w)
    (value : ∀ h', h ≤ h' → post h' ()) :
    S.Safe may tells (.write w : Async ε ρ ω Unit) post fails h :=
  fun h' le => ⟨true_ h' le, fun h'' later => value h'' (le.trans later)⟩

end Safe

/-! ## The process -/

/-- The process: the services, the functions that are running, each for a request, the calls that
nobody waits for any more, and the responses. -/
structure Process (σ ε : Type) {δ : Type} (ρ : δ → Type) (ω α κ : Type) where
  history : History σ
  tasks : ℕ → Option (κ × Async ε ρ ω α)
  orphans : List δ
  told : List (κ × ω)

/-- A process that serves nobody yet. -/
def Process.initial (s : σ) : Process σ ε ρ ω α κ where
  history := ⟨s, []⟩
  tasks := fun _ => none
  orphans := []
  told := []

/-- The calls that a function waits for. -/
def pending : Async ε ρ ω α → List δ
  | .await d _ => [d]
  | .all d d' _ => [d, d']
  | _ => []

/-- **The steps of a process** that serves requests with the given functions. -/
inductive Step (serves : κ → Async ε ρ ω α) :
    Process σ ε ρ ω α κ → Process σ ε ρ ω α κ → Prop
  /-- A request comes. -/
  | start {p t q} (unused : p.tasks t = none) :
      Step serves p { p with tasks := Function.update p.tasks t (some (q, serves q)) }
  /-- A response is written. -/
  | send {p t q w next} (running : p.tasks t = some (q, .send w next)) :
      Step serves p { p with
        tasks := Function.update p.tasks t (some (q, next))
        told := (q, w) :: p.told }
  /-- A call is answered. -/
  | call {p t q d k s r} (running : p.tasks t = some (q, .await d k))
      (answered : S.answers p.history.now d s r) :
      Step serves p { p with
        history := p.history.after s
        tasks := Function.update p.tasks t (some (q, k r)) }
  /-- One of two calls is answered with a value. -/
  | left {p t q d d' k s v} (running : p.tasks t = some (q, .all d d' k))
      (answered : S.answers p.history.now d s (.ok v)) :
      Step serves p { p with
        history := p.history.after s
        tasks := Function.update p.tasks t
          (some (q, .await d' fun r => k (r.map fun v' => (v, v')))) }
  | right {p t q d d' k s v'} (running : p.tasks t = some (q, .all d d' k))
      (answered : S.answers p.history.now d' s (.ok v')) :
      Step serves p { p with
        history := p.history.after s
        tasks := Function.update p.tasks t
          (some (q, .await d fun r => k (r.map fun v => (v, v')))) }
  /-- One of two calls is rejected; nobody waits for the other any more. -/
  | leftFails {p t q d d' k s e} (running : p.tasks t = some (q, .all d d' k))
      (answered : S.answers p.history.now d s (.error e)) :
      Step serves p { p with
        history := p.history.after s
        tasks := Function.update p.tasks t (some (q, k (.error e)))
        orphans := d' :: p.orphans }
  | rightFails {p t q d d' k s e} (running : p.tasks t = some (q, .all d d' k))
      (answered : S.answers p.history.now d' s (.error e)) :
      Step serves p { p with
        history := p.history.after s
        tasks := Function.update p.tasks t (some (q, k (.error e)))
        orphans := d :: p.orphans }
  /-- The process goes down while a function runs; what it has called may be executed later. -/
  | abandon {p t q x} (running : p.tasks t = some (q, x)) :
      Step serves p { p with
        tasks := Function.update p.tasks t none
        orphans := pending x ++ p.orphans }
  /-- A call is executed that nobody waits for. -/
  | orphan {p front d back s r} (waiting : p.orphans = front ++ d :: back)
      (answered : S.answers p.history.now d s r) :
      Step serves p { p with history := p.history.after s, orphans := front ++ back }
  /-- The environment changes the services. -/
  | environment {p s} (changed : S.changes p.history s) :
      Step serves p { p with history := p.history.after s }

/-- What a process can come to. -/
def Reaches (serves : κ → Async ε ρ ω α) : Process σ ε ρ ω α κ → Process σ ε ρ ω α κ → Prop :=
  Relation.ReflTransGen (S.Step serves)

/-! ## What every process keeps -/

section Rules

variable {S} {serves : κ → Async ε ρ ω α} {may : κ → History σ → δ → Prop}
  {tells : κ → History σ → ω → Prop} {p p' : Process σ ε ρ ω α κ}

/-- Every function that runs is safe, for its request; every call that nobody waits for is
permitted; and every response was true. -/
structure AllSafe (S : Services σ ε ρ) (may : κ → History σ → δ → Prop)
    (tells : κ → History σ → ω → Prop) (p : Process σ ε ρ ω α κ) : Prop where
  tasks : ∀ t q x, p.tasks t = some (q, x) →
    S.Safe (may q) (tells q) x (fun _ _ => True) (fun _ _ => True) p.history
  orphans : ∀ d ∈ p.orphans, ∃ q, ∀ h, p.history ≤ h → may q h d
  told : ∀ q w, (q, w) ∈ p.told → ∃ h, h ≤ p.history ∧ tells q h w

/-- Every request is served safely. -/
def ServesSafely (S : Services σ ε ρ) (serves : κ → Async ε ρ ω α)
    (may : κ → History σ → δ → Prop) (tells : κ → History σ → ω → Prop) : Prop :=
  ∀ q h, S.Safe (may q) (tells q) (serves q) (fun _ _ => True) (fun _ _ => True) h

/-- The functions after one of them has moved on. -/
theorem AllSafe.moved (all : AllSafe S may tells p) {h : History σ} (le : p.history ≤ h) {t : ℕ}
    {q : κ} {x : Async ε ρ ω α}
    (safe : S.Safe (may q) (tells q) x (fun _ _ => True) (fun _ _ => True) h) :
    ∀ u r y, Function.update p.tasks t (some (q, x)) u = some (r, y) →
      S.Safe (may r) (tells r) y (fun _ _ => True) (fun _ _ => True) h := by
  intro u r y running
  by_cases here : u = t
  · subst here
    rw [Function.update_self, Option.some.injEq, Prod.mk.injEq] at running
    obtain ⟨rfl, rfl⟩ := running
    exact safe
  · rw [Function.update_of_ne here] at running
    exact (all.tasks u r y running).mono le

/-- The calls that nobody waits for stay permitted, and the responses were true. -/
theorem AllSafe.later (all : AllSafe S may tells p) {h : History σ} (le : p.history ≤ h) :
    (∀ d ∈ p.orphans, ∃ q, ∀ h', h ≤ h' → may q h' d) ∧
      ∀ q w, (q, w) ∈ p.told → ∃ h', h' ≤ h ∧ tells q h' w := by
  constructor
  · intro d mem
    obtain ⟨q, permitted⟩ := all.orphans d mem
    exact ⟨q, fun h' later => permitted h' (le.trans later)⟩
  · intro q w mem
    obtain ⟨h', before, holds⟩ := all.told q w mem
    exact ⟨h', before.trans le, holds⟩

/-- What a safe function waits for is permitted. -/
theorem Safe.pending {x : Async ε ρ ω α} {may : History σ → δ → Prop}
    {tells : History σ → ω → Prop} {post : History σ → α → Prop} {fails : History σ → ε → Prop}
    {h : History σ} (safe : S.Safe may tells x post fails h) {d : δ} (mem : d ∈ pending x)
    (h' : History σ) (le : h ≤ h') : may h' d := by
  cases x with
  | await c k =>
      obtain rfl := List.mem_singleton.mp mem
      exact (safe h' le).1
  | all c c' k =>
      rcases List.mem_cons.mp mem with rfl | mem
      · exact (safe h' le).1.1
      · obtain rfl := List.mem_singleton.mp mem
        exact (safe h' le).1.2
  | _ => cases mem

/-- **Every step keeps all functions safe.** -/
theorem allSafe_step (safely : ServesSafely S serves may tells) (step : S.Step serves p p')
    (all : AllSafe S may tells p) : AllSafe S may tells p' := by
  cases step with
  | @start t q unused =>
      exact ⟨all.moved le_rfl (safely q p.history), all.orphans, all.told⟩
  | @send t q w next running =>
      have safe := all.tasks t q _ running p.history le_rfl
      refine ⟨all.moved le_rfl safe.2, all.orphans, fun q' w' mem => ?_⟩
      rcases List.mem_cons.mp mem with here | before
      · obtain ⟨rfl, rfl⟩ := Prod.mk.inj here
        exact ⟨p.history, le_rfl, safe.1⟩
      · exact all.told q' w' before
  | @call t q d k s r running answered =>
      have le := p.history.le_after s
      have safe := (all.tasks t q _ running p.history le_rfl).2 s r answered
      exact ⟨all.moved le safe, (all.later le).1, (all.later le).2⟩
  | @left t q d d' k s v running answered =>
      have le := p.history.le_after s
      have safe := all.tasks t q _ running
      refine ⟨all.moved le fun h later => ?_, (all.later le).1, (all.later le).2⟩
      exact ⟨(safe h (le.trans later)).1.2, (safe p.history le_rfl).2.1 s v answered h later⟩
  | @right t q d d' k s v' running answered =>
      have le := p.history.le_after s
      have safe := all.tasks t q _ running
      refine ⟨all.moved le fun h later => ?_, (all.later le).1, (all.later le).2⟩
      exact ⟨(safe h (le.trans later)).1.1, (safe p.history le_rfl).2.2.1 s v' answered h later⟩
  | @leftFails t q d d' k s e running answered =>
      have le := p.history.le_after s
      have safe := all.tasks t q _ running
      have next := (safe p.history le_rfl).2.2.2 s e (Or.inl answered)
      refine ⟨all.moved le next, fun c mem => ?_, (all.later le).2⟩
      rcases List.mem_cons.mp mem with rfl | before
      · exact ⟨q, fun h later => (safe h (le.trans later)).1.2⟩
      · exact (all.later le).1 c before
  | @rightFails t q d d' k s e running answered =>
      have le := p.history.le_after s
      have safe := all.tasks t q _ running
      have next := (safe p.history le_rfl).2.2.2 s e (Or.inr answered)
      refine ⟨all.moved le next, fun c mem => ?_, (all.later le).2⟩
      rcases List.mem_cons.mp mem with rfl | before
      · exact ⟨q, fun h later => (safe h (le.trans later)).1.1⟩
      · exact (all.later le).1 c before
  | @abandon t q x running =>
      refine ⟨fun u r y there => ?_, fun c mem => ?_, all.told⟩
      · dsimp only at there
        by_cases here : u = t
        · subst here
          rw [Function.update_self] at there
          cases there
        · rw [Function.update_of_ne here] at there
          exact all.tasks u r y there
      · rcases List.mem_append.mp mem with mine | before
        · exact ⟨q, (all.tasks t q x running).pending mine⟩
        · exact all.orphans c before
  | @orphan front d back s r waiting answered =>
      have le := p.history.le_after s
      refine ⟨fun t q x running => (all.tasks t q x running).mono le, fun c mem => ?_,
        (all.later le).2⟩
      refine (all.later le).1 c ?_
      rw [waiting]
      rcases List.mem_append.mp mem with before | behind
      · exact List.mem_append_left _ before
      · exact List.mem_append_right _ (List.mem_cons_of_mem _ behind)
  | @environment s changed =>
      have le := p.history.le_after s
      exact ⟨fun t q x running => (all.tasks t q x running).mono le, (all.later le).1,
        (all.later le).2⟩

/-- **Where every request is served safely**, every function is safe at any time, and every response
was true when it was written. -/
theorem allSafe_of_reaches (safely : ServesSafely S serves may tells) {s : σ}
    (reaches : S.Reaches serves (Process.initial s) p) : AllSafe S may tells p := by
  induction reaches with
  | refl =>
      refine ⟨fun t q x running => ?_, fun d mem => ?_, fun q w mem => ?_⟩
      · cases running
      · cases mem
      · cases mem
  | tail _ last ih => exact allSafe_step safely last ih

/-- What permitted calls and the environment keep, every step keeps. -/
theorem invariant_step {Inv : History σ → Prop}
    (called : ∀ h q d s r, Inv h → may q h d → S.answers h.now d s r → Inv (h.after s))
    (changed : ∀ h s, Inv h → S.changes h s → Inv (h.after s)) (step : S.Step serves p p')
    (all : AllSafe S may tells p) (before : Inv p.history) : Inv p'.history := by
  cases step with
  | start unused => exact before
  | send running => exact before
  | abandon running => exact before
  | call running answered =>
      exact called _ _ _ _ _ before (all.tasks _ _ _ running _ le_rfl).1 answered
  | left running answered =>
      exact called _ _ _ _ _ before (all.tasks _ _ _ running _ le_rfl).1.1 answered
  | right running answered =>
      exact called _ _ _ _ _ before (all.tasks _ _ _ running _ le_rfl).1.2 answered
  | leftFails running answered =>
      exact called _ _ _ _ _ before (all.tasks _ _ _ running _ le_rfl).1.1 answered
  | rightFails running answered =>
      exact called _ _ _ _ _ before (all.tasks _ _ _ running _ le_rfl).1.2 answered
  | @orphan front d back s r waiting answered =>
      obtain ⟨q, permitted⟩ := all.orphans d (waiting ▸ by simp)
      exact called _ _ _ _ _ before (permitted _ le_rfl) answered
  | environment here => exact changed _ _ before here

/-- **What permitted calls and the environment keep, holds at any time.** -/
theorem invariant_of_reaches {Inv : History σ → Prop} (safely : ServesSafely S serves may tells)
    (called : ∀ h q d s r, Inv h → may q h d → S.answers h.now d s r → Inv (h.after s))
    (changed : ∀ h s, Inv h → S.changes h s → Inv (h.after s)) {s : σ} (initial : Inv ⟨s, []⟩)
    (reaches : S.Reaches serves (Process.initial s) p) : Inv p.history := by
  induction reaches with
  | refl => exact initial
  | tail front last ih =>
      exact invariant_step called changed last (allSafe_of_reaches safely front) ih

end Rules

end Services

end EdgeCache

import Mathlib.Logic.Function.Basic

/-!
# Labelled step systems

A system is a set of initial states and a partial step function.  `step s a` is
`none` when the action `a` is not enabled in `s`.

A run is constrained by a guard, a predicate of the state before a step and of
the action taken there.  `ReachVia` collects the states of the runs whose every
step meets the guard, and the unconstrained runs are those of the trivial guard.
Every invariant below is proved once for `ReachVia`.
-/

structure StepSystem (σ α : Type*) where
  init : σ → Prop
  step : σ → α → Option σ

namespace StepSystem

variable {σ α : Type*} (S : StepSystem σ α)

/-- The states of the runs whose steps all meet `guard`. -/
inductive ReachVia (guard : σ → α → Prop) : σ → Prop
  | start {s : σ} : S.init s → ReachVia guard s
  | next {s t : σ} {a : α} :
      ReachVia guard s → guard s a → S.step s a = some t → ReachVia guard t

def Reachable : σ → Prop := S.ReachVia fun _ _ => True

/-- Take the actions of a schedule in order, each one checked against `guard`. -/
def execVia (guard : σ → α → Prop) [∀ s a, Decidable (guard s a)] (s : σ) : List α → Option σ
  | [] => some s
  | a :: rest =>
      if guard s a then (S.step s a).bind fun t => execVia guard t rest else none

variable {S}

theorem ReachVia.mono {g g' : σ → α → Prop} (hg : ∀ s a, g s a → g' s a) {s : σ}
    (h : S.ReachVia g s) : S.ReachVia g' s := by
  induction h with
  | start hi => exact .start hi
  | next _ ha hs ih => exact .next ih (hg _ _ ha) hs

theorem ReachVia.reachable {g : σ → α → Prop} {s : σ} (h : S.ReachVia g s) :
    S.Reachable s :=
  h.mono fun _ _ _ => trivial

/-- What holds initially and is preserved by every guarded step holds in every
state of every guarded run. -/
theorem ReachVia.invariant {g : σ → α → Prop} {I : σ → Prop}
    (h0 : ∀ s, S.init s → I s)
    (hstep : ∀ s a t, I s → g s a → S.step s a = some t → I t)
    {s : σ} (h : S.ReachVia g s) : I s := by
  induction h with
  | start hi => exact h0 _ hi
  | next _ ha hs ih => exact hstep _ _ _ ih ha hs

/-- The invariant rule relative to a `J` already known of these runs. -/
theorem ReachVia.invariant_of {g : σ → α → Prop} {I J : σ → Prop}
    (hJ : ∀ s, S.ReachVia g s → J s)
    (h0 : ∀ s, S.init s → I s)
    (hstep : ∀ s a t, J s → I s → g s a → S.step s a = some t → I t)
    {s : σ} (h : S.ReachVia g s) : I s := by
  induction h with
  | start hi => exact h0 _ hi
  | next hs ha hst ih => exact hstep _ _ _ (hJ _ hs) ih ha hst

theorem Reachable.invariant {I : σ → Prop}
    (h0 : ∀ s, S.init s → I s)
    (hstep : ∀ s a t, I s → S.step s a = some t → I t)
    {s : σ} (h : S.Reachable s) : I s :=
  ReachVia.invariant h0 (fun s a t hi _ hs => hstep s a t hi hs) h

/-- A function that takes every guarded step to a guarded step of `T`, or to no
step at all, takes runs to runs. -/
theorem ReachVia.map {τ β : Type*} {T : StepSystem τ β} {g : σ → α → Prop}
    {g' : τ → β → Prop} (f : σ → τ) (h0 : ∀ s, S.init s → T.init (f s))
    (hstep : ∀ s a t, g s a → S.step s a = some t →
      f t = f s ∨ ∃ b, g' (f s) b ∧ T.step (f s) b = some (f t))
    {s : σ} (h : S.ReachVia g s) : T.ReachVia g' (f s) := by
  induction h with
  | start hi => exact .start (h0 _ hi)
  | next _ ha hs ih =>
      rcases hstep _ _ _ ha hs with hsame | ⟨b, hb, hst⟩
      · rwa [hsame]
      · exact .next ih hb hst

section History

variable {ω : Type*} {o₀ : ω} {obs : σ → α → σ → ω → ω} {g : σ → α → Prop}

def observe (S : StepSystem σ α) (o₀ : ω) (obs : σ → α → σ → ω → ω) :
    StepSystem (σ × ω) α where
  init s := S.init s.1 ∧ s.2 = o₀
  step s a := (S.step s.1 a).map fun t => (t, obs s.1 a t s.2)

theorem observe_step {s t : σ × ω} {a : α} (h : (S.observe o₀ obs).step s a = some t) :
    S.step s.1 a = some t.1 ∧ t.2 = obs s.1 a t.1 s.2 := by
  obtain ⟨u, hu, rfl⟩ := Option.map_eq_some_iff.mp h
  exact ⟨hu, rfl⟩

theorem ReachVia.of_observe {s : σ × ω}
    (h : (S.observe o₀ obs).ReachVia (fun s a => g s.1 a) s) : S.ReachVia g s.1 :=
  h.map Prod.fst (fun s (hi : S.init s.1 ∧ s.2 = o₀) => hi.1)
    fun _ a _ ha hst => Or.inr ⟨a, ha, (observe_step hst).1⟩

theorem ReachVia.exists_observe {s : σ} (h : S.ReachVia g s) :
    ∃ o, (S.observe o₀ obs).ReachVia (fun s a => g s.1 a) (s, o) := by
  induction h with
  | start hi => exact ⟨o₀, .start ⟨hi, rfl⟩⟩
  | @next s t a _ ha hs ih =>
      obtain ⟨o, ho⟩ := ih
      exact ⟨obs s a t o, .next ho ha (by simp only [observe, hs, Option.map_some])⟩

end History

section Schedules

variable {g : σ → α → Prop} [∀ s a, Decidable (g s a)]

theorem execVia_reachVia {s t : σ} {as : List α} (hs : S.ReachVia g s)
    (h : S.execVia g s as = some t) : S.ReachVia g t := by
  induction as generalizing s with
  | nil =>
      simp only [execVia, Option.some.injEq] at h
      exact h ▸ hs
  | cons a rest ih =>
      by_cases ha : g s a
      · simp only [execVia, ha, if_true, Option.bind_eq_some_iff] at h
        obtain ⟨u, hu, hrest⟩ := h
        exact ih (.next hs ha hu) hrest
      · simp [execVia, ha] at h

/-- A schedule whose end state passes a test reaches a state that does. -/
theorem exists_reachVia (P : σ → Prop) [DecidablePred P] {s : σ} (as : List α)
    (hs : S.ReachVia g s) (h : (S.execVia g s as).any (fun t => P t) = true) :
    ∃ t, S.ReachVia g t ∧ P t := by
  obtain ⟨t, ht, hP⟩ := (Option.any_eq_true _ _).mp h
  exact ⟨t, execVia_reachVia hs ht, of_decide_eq_true hP⟩

end Schedules

end StepSystem

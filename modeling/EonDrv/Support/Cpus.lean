import EonDrv.Support.StepSystem
import Mathlib.Data.Finset.Card

/-!
# Threads on a number of CPUs

A step system whose actions are taken by threads or by its environment runs on `N`
CPUs.  A thread acts only while it is on one of them.  It leaves its CPU when it
falls asleep, or when it is preempted, which a pinned thread is not.
-/

open StepSystem

/-- The threads of a step system: who takes an action, who sleeps, and who keeps its
CPU until it sleeps. -/
structure Threads (σ α κ : Type*) where
  actor : α → Option κ
  asleep : σ → κ → Bool
  pinned : σ → κ → Bool

namespace Cpus

variable {σ α κ : Type*} [DecidableEq κ]

inductive Action (α κ : Type*)
  | run (a : α)
  | dispatch (k : κ)
  | preempt (k : κ)

def keep (T : Threads σ α κ) (t : σ) (cpus : Finset κ) : Finset κ :=
  cpus.filter fun k => T.asleep t k = false

def OnCpu (T : Threads σ α κ) (cpus : Finset κ) (a : α) : Prop :=
  match T.actor a with
  | none => True
  | some k => k ∈ cpus

instance (T : Threads σ α κ) (cpus : Finset κ) (a : α) : Decidable (OnCpu T cpus a) := by
  unfold OnCpu
  split <;> infer_instance

def step (S : StepSystem σ α) (T : Threads σ α κ) (N : Nat) (s : σ × Finset κ) :
    Action α κ → Option (σ × Finset κ)
  | .run a => if OnCpu T s.2 a then (S.step s.1 a).map fun t => (t, keep T t s.2) else none
  | .dispatch k =>
    if k ∉ s.2 ∧ s.2.card < N ∧ T.asleep s.1 k = false then some (s.1, insert k s.2) else none
  | .preempt k => if k ∈ s.2 ∧ T.pinned s.1 k = false then some (s.1, s.2.erase k) else none

/-- The system on `N` CPUs, all of them free at first. -/
def system (S : StepSystem σ α) (T : Threads σ α κ) (N : Nat) :
    StepSystem (σ × Finset κ) (Action α κ) where
  init s := S.init s.1 ∧ s.2 = ∅
  step := step S T N

variable {S : StepSystem σ α} {T : Threads σ α κ} {N : Nat}

inductive Fires (S : StepSystem σ α) (T : Threads σ α κ) (N : Nat) :
    σ × Finset κ → Action α κ → σ × Finset κ → Prop
  | run {s t : σ} {cpus : Finset κ} {a : α} :
      OnCpu T cpus a → S.step s a = some t → Fires S T N (s, cpus) (.run a) (t, keep T t cpus)
  | dispatch {s : σ} {cpus : Finset κ} {k : κ} :
      T.asleep s k = false → Fires S T N (s, cpus) (.dispatch k) (s, insert k cpus)
  | preempt {s : σ} {cpus : Finset κ} {k : κ} :
      T.pinned s k = false → Fires S T N (s, cpus) (.preempt k) (s, cpus.erase k)

theorem fires_of_step {s t : σ × Finset κ} {a : Action α κ} (h : step S T N s a = some t) :
    Fires S T N s a t := by
  cases a with
  | run a =>
      simp only [step] at h
      split at h
      · rename_i hcpu
        obtain ⟨u, hu, rfl⟩ := Option.map_eq_some_iff.mp h
        exact .run hcpu hu
      · cases h
  | dispatch k =>
      simp only [step] at h
      split at h
      · rename_i hk
        exact Option.some.inj h ▸ .dispatch hk.2.2
      · cases h
  | preempt k =>
      simp only [step] at h
      split at h
      · rename_i hk
        exact Option.some.inj h ▸ .preempt hk.2
      · cases h

theorem base_reachable {g : σ × Finset κ → Action α κ → Prop} {s : σ × Finset κ}
    (h : (system S T N).ReachVia g s) : S.Reachable s.1 := by
  refine h.map (T := S) Prod.fst (fun s (hi : S.init s.1 ∧ s.2 = ∅) => hi.1)
    fun s a t _ (hst : step S T N s a = some t) => ?_
  cases fires_of_step hst with
  | run _ hu => exact Or.inr ⟨_, trivial, hu⟩
  | dispatch _ => exact Or.inl rfl
  | preempt _ => exact Or.inl rfl

/-- A place that a thread reaches by an action of its own, and where it is pinned and
awake, is a place on a CPU. -/
theorem mem_of_place {P : σ → κ → Prop} (h0 : ∀ s, S.init s → ∀ k, ¬ P s k)
    (hstep : ∀ s a t, S.step s a = some t → ∀ k, P t k → T.actor a = some k ∨ P s k)
    (hplace : ∀ s k, P s k → T.pinned s k = true ∧ T.asleep s k = false)
    {g : σ × Finset κ → Action α κ → Prop} {s : σ × Finset κ} (h : (system S T N).ReachVia g s) :
    ∀ k, P s.1 k → k ∈ s.2 := by
  refine h.invariant (I := fun s => ∀ k, P s.1 k → k ∈ s.2)
    (fun s (hi : S.init s.1 ∧ s.2 = ∅) k hk => absurd hk (h0 s.1 hi.1 k)) ?_
  intro s a t hs _ (hst : step S T N s a = some t) k hk
  cases fires_of_step hst with
  | @run s t cpus a hcpu hu =>
      refine Finset.mem_filter.mpr ⟨?_, (hplace t k hk).2⟩
      rcases hstep s a t hu k hk with hactor | hold
      · simpa only [OnCpu, hactor] using hcpu
      · exact hs k hold
  | @dispatch s cpus k' _ => exact Finset.mem_insert_of_mem (hs k hk)
  | @preempt s cpus k' hpinned =>
      refine Finset.mem_erase.mpr ⟨?_, hs k hk⟩
      rintro rfl
      rw [(hplace s k hk).1] at hpinned
      cases hpinned

end Cpus

import Mathlib.Algebra.Notation.Defs
import Mathlib.Data.List.Basic

/-!
# Pipelines that stop at the first failure

A pipeline is the list of its stages, each with the code it would return.  Zero
is success; the first other code ends the run.
-/

namespace Pipeline

variable {σ κ : Type*} [Zero κ] [DecidableEq κ]

/-- The stages that run, the failing one included. -/
def ran : List (σ × κ) → List (σ × κ)
  | [] => []
  | p :: rest => if p.2 = 0 then p :: ran rest else [p]

/-- The code of the first stage that fails. -/
def failure : List (σ × κ) → Option κ
  | [] => none
  | p :: rest => if p.2 = 0 then failure rest else some p.2

theorem failure_ne_zero {ps : List (σ × κ)} {c : κ} (h : failure ps = some c) : c ≠ 0 := by
  induction ps with
  | nil => cases h
  | cons p rest ih =>
      unfold failure at h
      split at h
      · exact ih h
      · rename_i hp
        rwa [← Option.some.inj h]

theorem exists_mem_ran_of_failure {ps : List (σ × κ)} {c : κ} (h : failure ps = some c) :
    ∃ s, (s, c) ∈ ran ps := by
  induction ps with
  | nil => cases h
  | cons p rest ih =>
      unfold failure at h
      unfold ran
      split at h
      · rename_i hp
        obtain ⟨s, hs⟩ := ih h
        rw [if_pos hp]
        exact ⟨s, List.mem_cons_of_mem _ hs⟩
      · rename_i hp
        obtain rfl := Option.some.inj h
        rw [if_neg hp]
        exact ⟨p.1, List.mem_singleton_self _⟩

/-- A failing stage is the last one that runs, and its code is the failure. -/
theorem last_of_mem_ran {ps : List (σ × κ)} {s : σ} {c : κ} (h : (s, c) ∈ ran ps)
    (hc : c ≠ 0) : (ran ps).getLast? = some (s, c) ∧ failure ps = some c := by
  induction ps with
  | nil => cases h
  | cons p rest ih =>
      unfold ran at h ⊢
      unfold failure
      by_cases hp : p.2 = 0
      · rw [if_pos hp] at h ⊢
        rw [if_pos hp]
        rcases List.mem_cons.mp h with rfl | hrest
        · exact absurd hp hc
        · obtain ⟨hlast, hfail⟩ := ih hrest
          rw [List.getLast?_cons, hlast]
          exact ⟨rfl, hfail⟩
      · rw [if_neg hp] at h ⊢
        rw [if_neg hp]
        obtain rfl := List.mem_singleton.mp h
        exact ⟨rfl, rfl⟩

theorem ran_of_failure_eq_none {ps : List (σ × κ)} (h : failure ps = none) :
    ran ps = ps.map fun p => (p.1, 0) := by
  induction ps with
  | nil => rfl
  | cons p rest ih =>
      unfold failure at h
      split at h
      · rename_i hp
        rw [ran, if_pos hp, ih h, List.map_cons, ← hp]
      · cases h

end Pipeline

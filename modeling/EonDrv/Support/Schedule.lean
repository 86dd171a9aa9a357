import EonDrv.Support.StepSystem
import EonDrv.Support.Trajectory

/-!
# Schedules

What a system can still do from a state: a list of actions that are enabled one after the
other, each of them of a kind.
-/

namespace StepSystem

variable {σ α : Type*} (S : StepSystem σ α)

/-- The actions lead from one state to another, and are all of the kind `ok`. -/
inductive Takes (ok : α → Prop) : σ → List α → σ → Prop
  | nil (s : σ) : Takes ok s [] s
  | cons {s t u : σ} {a : α} {as : List α} :
      ok a → S.step s a = some t → Takes ok t as u → Takes ok s (a :: as) u

variable {S} {ok ok' : α → Prop} {s t : σ} {as : List α}

theorem Takes.one {a : α} (ha : ok a) (h : S.step s a = some t) : S.Takes ok s [a] t :=
  .cons ha h (.nil t)

/-- Schedules compose, so that a schedule can be given by rounds. -/
theorem summary_takes : Trajectory.Summary (S.Takes ok) where
  refl := .nil
  append {s t u as as'} h h' := by
    induction h with
    | nil s => exact h'
    | cons ha hst _ ih => exact .cons ha hst (ih h')

theorem Takes.mono (h : S.Takes ok s as t) (hok : ∀ a, ok a → ok' a) : S.Takes ok' s as t := by
  induction h with
  | nil s => exact .nil s
  | cons ha hst _ ih => exact .cons (hok _ ha) hst ih

theorem Takes.reachable (h : S.Takes ok s as t) (hs : S.Reachable s) : S.Reachable t := by
  induction h with
  | nil s => exact hs
  | cons _ hst _ ih => exact ih (hs.next trivial hst)

theorem Takes.keeps {I : σ → Prop} (h : S.Takes ok s as t)
    (hstep : ∀ s a t, ok a → I s → S.step s a = some t → I t) (hs : I s) : I t := by
  induction h with
  | nil s => exact hs
  | cons ha hst _ ih => exact ih (hstep _ _ _ ha hs hst)

theorem takes_of_exec {s t : σ} {as : List α}
    (h : S.execVia (fun _ _ => True) s as = some t) : S.Takes (fun _ => True) s as t := by
  induction as generalizing s with
  | nil =>
      obtain rfl : s = t := Option.some.inj h
      exact .nil s
  | cons a rest ih =>
      rw [execVia, if_pos trivial, Option.bind_eq_some_iff] at h
      obtain ⟨u, hu, hrest⟩ := h
      exact .cons trivial hu (ih hrest)

theorem exists_takes (P : σ → Prop) [DecidablePred P] {s : σ} (as : List α)
    (h : (S.execVia (fun _ _ => True) s as).any (fun t => P t) = true) :
    ∃ t, S.Takes (fun _ => True) s as t ∧ P t := by
  obtain ⟨t, ht, hP⟩ := (Option.any_eq_true _ _).mp h
  exact ⟨t, takes_of_exec ht, of_decide_eq_true hP⟩

end StepSystem

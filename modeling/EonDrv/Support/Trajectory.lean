import Mathlib.Logic.Basic

/-!
# Runs of a deterministic machine

A machine takes one step at a time and shows what each step does.  `Leads` collects the
finite runs with what they show.  A summary is a relation of runs that composes, so that
the summary of a loop follows from that of one round and a measure.
-/

namespace Trajectory

variable {σ ε : Type*}

/-- The run from one state to another, and what it shows on the way. -/
inductive Leads (next : σ → Option σ) (shows : σ → List ε) : σ → List ε → σ → Prop
  | refl (s : σ) : Leads next shows s [] s
  | step {s t u : σ} {es : List ε} :
      next s = some t → Leads next shows t es u → Leads next shows s (shows s ++ es) u

/-- A relation of runs that holds of the empty run and composes. -/
structure Summary (R : σ → List ε → σ → Prop) : Prop where
  refl : ∀ s, R s [] s
  append : ∀ {s t u : σ} {es es' : List ε}, R s es t → R t es' u → R s (es ++ es') u

section

variable {next : σ → Option σ} {shows : σ → List ε}

theorem Leads.one {s t : σ} (h : next s = some t) : Leads next shows s (shows s) t := by
  rw [← List.append_nil (shows s)]
  exact .step h (.refl t)

theorem Leads.silent {s t u : σ} {es : List ε} (h : next s = some t) (hs : shows s = [])
    (h' : Leads next shows t es u) : Leads next shows s es u := by
  rw [← List.nil_append es, ← hs]
  exact .step h h'

theorem Leads.append {s t u : σ} {es es' : List ε} (h : Leads next shows s es t)
    (h' : Leads next shows t es' u) : Leads next shows s (es ++ es') u := by
  induction h with
  | refl s => exact h'
  | step hnext _ ih =>
      rw [List.append_assoc]
      exact .step hnext (ih h')

variable (next shows) in
theorem summary_leads : Summary (Leads next shows) where
  refl := .refl
  append := Leads.append

theorem Leads.summary {R : σ → List ε → σ → Prop} (hR : Summary R)
    (hstep : ∀ s t, next s = some t → R s (shows s) t) {s t : σ} {es : List ε}
    (h : Leads next shows s es t) : R s es t := by
  induction h with
  | refl s => exact hR.refl s
  | step hnext _ ih => exact hR.append (hstep _ _ hnext) ih

end

namespace Summary

variable {R R' : σ → List ε → σ → Prop}

theorem and (h : Summary R) (h' : Summary R') : Summary fun s es t => R s es t ∧ R' s es t where
  refl s := ⟨h.refl s, h'.refl s⟩
  append h₁ h₂ := ⟨h.append h₁.1 h₂.1, h'.append h₁.2 h₂.2⟩

/-- A quantity that every run pays for what it shows. -/
theorem of_cost (cost : List ε → Nat) (m : σ → Nat) (hnil : cost [] = 0)
    (happend : ∀ es es', cost (es ++ es') = cost es + cost es') :
    Summary fun s es t => cost es + m t ≤ m s where
  refl s := by
    rw [hnil]
    omega
  append {s t u es es'} h₁ h₂ := by
    have hsum := happend es es'
    omega

/-- A loop whose rounds come to its goal or make a well-founded measure smaller comes to
its goal. -/
theorem of_decreasing (hR : Summary R) {α : Type*} {r : α → α → Prop} (hr : WellFounded r)
    (m : σ → α) {P Goal : σ → Prop}
    (hround : ∀ s, P s → ¬ Goal s →
      ∃ es t, R s es t ∧ P t ∧ (Goal t ∨ r (m t) (m s))) {s : σ} (hs : P s) :
    ∃ es t, R s es t ∧ P t ∧ Goal t := by
  generalize hx : m s = x
  induction x using hr.induction generalizing s with
  | _ x ih =>
      by_cases hgoal : Goal s
      · exact ⟨[], s, hR.refl s, hs, hgoal⟩
      · obtain ⟨es, t, hst, ht, hdone | hlt⟩ := hround s hs hgoal
        · exact ⟨es, t, hst, ht, hdone⟩
        · rw [hx] at hlt
          obtain ⟨es', u, htu, hu, hdone⟩ := ih (m t) hlt ht rfl
          exact ⟨es ++ es', u, hR.append hst htu, hu, hdone⟩

end Summary

end Trajectory

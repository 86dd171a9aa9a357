import EonDrv.Window.Coherence

/-!
# What a write access leaves

An access touches the log and its own `reg_data` at one statement.  A write therefore
logs one entry, of the value it was given and at its own address, between the access and
the unlock.
-/

namespace EonDrv
namespace Window

def Pc.passed : Pc → Bool
  | .unlock | .done => true
  | _ => false

def writeEntry (acc : Nat → Access) (i : Nat) : Entry :=
  ⟨i, .writel, (acc i).args.regAddr, (acc i).args.regData⟩

section

variable {acc : Nat → Access} {regs : Nat → BitVec 32} {s t : State} {i : Nat} {v : BitVec 32}

theorem step_pc_ne (h : step acc s (.client i v) = some t) {j : Nat} (hj : j ≠ i) :
    t.pc j = s.pc j := by
  cases fires_of_step h <;> exact State.goto_pc_ne hj _

theorem step_log (h : step acc s (.client i v) = some t) :
    t.log = s.log ∨ ∃ e : Entry, e.client = i ∧ t.log = e :: s.log := by
  cases fires_of_step h with
  | access _ => exact Or.inr ⟨_, rfl, rfl⟩
  | _ => exact Or.inl rfl

/-- A write is the only statement of its access that logs, and passes the `switch`. -/
theorem step_writel (hop : (acc i).op = some .writel)
    (h : step acc s (.client i v) = some t) :
    t.data = s.data ∧
      ((t.log = s.log ∧ (t.pc i).passed = (s.pc i).passed) ∨
        (s.pc i = .access ∧ t.pc i = .unlock ∧
          t.log = ⟨i, .writel, target s.regs .inbound 1 + (acc i).offset, s.data i⟩ :: s.log)) := by
  by_cases hpc : s.pc i = .access
  · simp only [step, stepAccess, hpc, hop, Option.some.injEq] at h
    subst h
    exact ⟨rfl, Or.inr ⟨hpc, State.goto_pc_self _ _ _, rfl⟩⟩
  · have hmove : ∀ pc : Pc, pc.passed = (s.pc i).passed →
        ((s.goto i pc).pc i).passed = (s.pc i).passed := by
      intro pc hpassed
      rw [State.goto_pc_self, hpassed]
    cases fires_of_step h with
    | accept hnow _ => exact ⟨rfl, Or.inl ⟨rfl, hmove _ (by rw [hnow]; rfl)⟩⟩
    | reject hnow _ => exact ⟨rfl, Or.inl ⟨rfl, hmove _ (by rw [hnow]; rfl)⟩⟩
    | lock hnow _ => exact ⟨rfl, Or.inl ⟨rfl, hmove .check (by rw [hnow]; rfl)⟩⟩
    | miss hnow _ => exact ⟨rfl, Or.inl ⟨rfl, hmove _ (by rw [hnow]; rfl)⟩⟩
    | hit hnow _ => exact ⟨rfl, Or.inl ⟨rfl, hmove _ (by rw [hnow]; rfl)⟩⟩
    | write hnow _ => exact ⟨rfl, Or.inl ⟨rfl, hmove (.remap _) (by rw [hnow]; rfl)⟩⟩
    | mapped hnow _ => exact ⟨rfl, Or.inl ⟨rfl, hmove _ (by rw [hnow]; rfl)⟩⟩
    | setBase hnow => exact ⟨rfl, Or.inl ⟨rfl, hmove .access (by rw [hnow]; rfl)⟩⟩
    | unlock hnow => exact ⟨rfl, Or.inl ⟨rfl, hmove .done (by rw [hnow]; rfl)⟩⟩
    | access hnow => exact absurd hnow hpc
    | skip hnow => exact absurd hnow hpc

theorem step_data_ne (h : step acc s (.client i v) = some t) {j : Nat} (hj : j ≠ i) :
    t.data j = s.data j := by
  by_cases hpc : s.pc i = .access
  · simp only [step, stepAccess, hpc] at h
    split at h <;> obtain rfl := Option.some.inj h
    · rfl
    · exact Function.update_of_ne hj ..
    · rfl
    · exact Function.update_of_ne hj ..
    · rfl
  · cases fires_of_step h with
    | access hnow => exact absurd hnow hpc
    | _ => rfl

theorem data_of_reachable (h : (system regs acc).Reachable s) (hop : (acc i).op = some .writel) :
    s.data i = (acc i).args.regData := by
  refine StepSystem.Reachable.invariant (I := fun s : State => s.data i = (acc i).args.regData)
    (fun s (hi : Initial regs acc s) => hi.data i) (fun s a t hd hst => ?_) h
  cases a with
  | channel ch r v =>
      obtain rfl := Option.some.inj hst
      exact hd
  | client j v =>
      by_cases hj : i = j
      · subst hj
        rw [(step_writel hop hst).1, hd]
      · rw [step_data_ne hst hj, hd]

/-- A write logs its entry when it passes the `switch`, and nothing else. -/
theorem writes_of_reachable (h : (system regs acc).Reachable s)
    (hop : (acc i).op = some .writel) (hst : step acc s (.client i v) = some t) :
    (t.log = s.log ∧ (t.pc i).passed = (s.pc i).passed) ∨
      ((s.pc i).passed = false ∧ (t.pc i).passed = true ∧
        t.log = writeEntry acc i :: s.log) := by
  rcases (step_writel hop hst).2 with hsame | ⟨hpc, hpc', hlog⟩
  · exact Or.inl hsame
  · refine Or.inr ⟨by rw [hpc]; rfl, by rw [hpc']; rfl, ?_⟩
    rw [hlog, (windowSafe_of_reachable h).access i hpc, data_of_reachable h hop]
    rfl

end

end Window
end EonDrv

import EonDrv.Window.Coherence

/-!
# The width of an access

The address check and the split into window and offset look at `reg_addr` alone.  The
`switch` on `rw_flag`, later, moves two or four bytes from that offset on.
-/

namespace EonDrv
namespace Window

def IoOp.width : IoOp → Nat
  | .writel | .readl => 4
  | .write16 | .read16 => 2

/-- The bytes that an access moves; an unknown `rw_flag` moves none. -/
def Access.width (x : Access) : Nat := (x.op.map IoOp.width).getD 0

/-- The SoC byte behind a byte of `bar[CONFIG_BAR_INDEX]`.  Region 1 maps
`CONFIG_BAR_SIZE` bytes, and there is nothing behind the others. -/
def socByte (regs : Nat → BitVec 32) (off : Nat) : Option (BitVec 64) :=
  if off < configBarSize.toNat then some (target regs .inbound 1 + BitVec.ofNat 64 off) else none

/-- All bytes of an access are in the window, and are the bytes from `reg_addr` on. -/
structure InWindow (acc : Nat → Access) (s : State) (i : Nat) : Prop where
  fits : (acc i).offset.toNat + (acc i).width ≤ configBarSize.toNat
  bytes : ∀ b, b < (acc i).width →
    socByte s.regs ((acc i).offset.toNat + b) =
      some ((acc i).args.regAddr + BitVec.ofNat 64 b)

/-- Four bytes from one of the last three of a window on, or two from the last one. -/
def Access.Straddles (x : Access) : Prop :=
  match x.op with
  | some .writel | some .readl => 0xfffffd ≤ x.args.regAddr.toNat % 0x1000000
  | some .write16 | some .read16 => x.args.regAddr.toNat % 0x1000000 = 0xffffff
  | none => False

section

variable {acc : Nat → Access} {regs : Nat → BitVec 32}

theorem offset_toNat (x : Access) : x.offset.toNat = x.args.regAddr.toNat % 0x1000000 := by
  have hmask : configBarSize - 1 = 0xffffff#64 := by decide
  rw [Access.offset, hmask, BitVec.toNat_and]
  exact Nat.and_two_pow_sub_one_eq_mod x.args.regAddr.toNat 24

theorem fits_iff (x : Access) :
    x.offset.toNat + x.width ≤ configBarSize.toNat ↔ ¬ x.Straddles := by
  have hsize : configBarSize.toNat = 0x1000000 := by decide
  have hoff := offset_toNat x
  unfold Access.Straddles Access.width
  cases x.op with
  | none =>
      have hlt : x.offset.toNat + 0 ≤ configBarSize.toNat := by omega
      exact iff_of_true hlt not_false
  | some op =>
      cases op with
      | writel | readl =>
          show x.offset.toNat + 4 ≤ _ ↔ ¬ 0xfffffd ≤ x.args.regAddr.toNat % 0x1000000
          omega
      | write16 | read16 =>
          show x.offset.toNat + 2 ≤ _ ↔ ¬ x.args.regAddr.toNat % 0x1000000 = 0xffffff
          omega

/-- A naturally aligned access stays in its window. -/
theorem not_straddles_of_aligned {x : Access} (h : x.args.regAddr.toNat % x.width = 0) :
    ¬ x.Straddles := by
  unfold Access.Straddles
  unfold Access.width at h
  cases hop : x.op with
  | none => exact not_false
  | some op =>
      cases op with
      | writel | readl =>
          rw [hop] at h
          replace h : x.args.regAddr.toNat % 4 = 0 := h
          show ¬ 0xfffffd ≤ x.args.regAddr.toNat % 0x1000000
          omega
      | write16 | read16 =>
          rw [hop] at h
          replace h : x.args.regAddr.toNat % 2 = 0 := h
          show ¬ x.args.regAddr.toNat % 0x1000000 = 0xffffff
          omega

theorem socByte_of_access {x : Access} {s : State} (h : Pc.access.Ok x s) {b : Nat}
    (hb : x.offset.toNat + b < configBarSize.toNat) :
    socByte s.regs (x.offset.toNat + b) = some (x.args.regAddr + BitVec.ofNat 64 b) := by
  rw [socByte, if_pos hb, ← soc_of_access h, BitVec.ofNat_add, BitVec.ofNat_toNat,
    BitVec.setWidth_eq, BitVec.add_assoc]

/-- In every run, an access is inside its window exactly when it does not straddle the
end of it. -/
theorem inWindow_iff {s : State} (h : (system regs acc).Reachable s) {i : Nat}
    (hpc : s.pc i = .access) : InWindow acc s i ↔ ¬ (acc i).Straddles := by
  have hok := (coherent_of_reachable h).place i
  rw [hpc] at hok
  rw [← fits_iff]
  constructor
  · exact fun hin => hin.fits
  · intro hfits
    refine ⟨hfits, fun b hb => ?_⟩
    exact socByte_of_access hok (by omega)

end

theorem sample_inWindow :
    ∃ s, (system (fun _ => 0) sampleAccess).Reachable s ∧ s.pc 0 = .access ∧
      InWindow sampleAccess s 0 := by
  obtain ⟨s, hs, hpc⟩ := StepSystem.exists_reachVia
    (S := system (fun _ => 0) sampleAccess) (g := fun _ _ => True) (s := probedWindow)
    (fun s => s.pc 0 = .access) (List.replicate 13 (.client 0 0))
    (.start ⟨rfl, rfl, rfl, fun _ => rfl, fun _ => rfl, rfl⟩) (by decide +kernel)
  refine ⟨s, hs, hpc, (inWindow_iff hs hpc).mpr (not_straddles_of_aligned ?_)⟩
  decide

def lastByte (_ : Nat) : Access := ⟨.eonRwReg, ⟨0x40ffffff, 0, regRead⟩⟩

/-- It is accepted, and its last three bytes are past the mapping. -/
theorem lastByte_past_window : ∃ s : State,
    (system (fun _ => 0) lastByte).Reachable s ∧ s.pc 0 = .access ∧
      (lastByte 0).accepted = true ∧ (lastByte 0).width = 4 ∧
      (∀ b, 1 ≤ b → b < 4 → socByte s.regs ((lastByte 0).offset.toNat + b) = none) ∧
      ¬ InWindow lastByte s 0 := by
  obtain ⟨s, hs, hpc⟩ := StepSystem.exists_reachVia
    (S := system (fun _ => 0) lastByte) (g := fun _ _ => True)
    (s := { probedWindow with data := fun _ => 0 })
    (fun s => s.pc 0 = .access) (List.replicate 13 (.client 0 0))
    (.start ⟨rfl, rfl, rfl, fun _ => rfl, fun _ => rfl, rfl⟩) (by decide +kernel)
  have hoff : (lastByte 0).offset.toNat = 0xffffff := by decide
  refine ⟨s, hs, hpc, by decide, by decide, fun b h1 _ => if_neg ?_, fun hin => ?_⟩
  · rw [hoff, show configBarSize.toNat = 0x1000000 from by decide]
    omega
  · exact absurd hin.fits (by decide)

end Window
end EonDrv

import Mathlib.Data.List.Basic

/-!
# Write-one-to-clear status registers

A sticky register accumulates the bits that events raise until they are cleared.
It is kept as the list of its pending raises, each with the origin that raised
it, so that the bits of one register word can be attributed.  The word that a
read returns is the union of the pending bits, and writing a mask to the clear
register removes the bits of the mask from every pending raise.
-/

/-- One raise: who raised which bits. -/
structure Raise (ω : Type*) (w : Nat) where
  origin : ω
  bits : BitVec w
  deriving DecidableEq

/-- The pending raises of a write-one-to-clear register. -/
abbrev Sticky (ω : Type*) (w : Nat) := List (Raise ω w)

namespace Sticky

variable {ω : Type*} {w : Nat}

/-- The register word a read returns. -/
def value : Sticky ω w → BitVec w
  | [] => 0
  | e :: rest => e.bits ||| value rest

def raise (r : Sticky ω w) (o : ω) (bits : BitVec w) : Sticky ω w := ⟨o, bits⟩ :: r

def clear (r : Sticky ω w) (mask : BitVec w) : Sticky ω w :=
  r.map fun e => { e with bits := e.bits &&& ~~~mask }

@[simp] theorem value_nil : value ([] : Sticky ω w) = 0 := rfl

@[simp] theorem value_cons (e : Raise ω w) (r : Sticky ω w) :
    value (e :: r) = e.bits ||| value r := rfl

theorem value_clear (r : Sticky ω w) (mask : BitVec w) :
    (r.clear mask).value = r.value &&& ~~~mask := by
  induction r with
  | nil => simp [clear]
  | cons e rest ih =>
      have htail : value (clear rest mask) = value rest &&& ~~~mask := ih
      show (e.bits &&& ~~~mask) ||| value (clear rest mask) = _
      rw [htail, value_cons]
      ext i hi
      simp only [BitVec.getElem_or, BitVec.getElem_and]
      cases e.bits[i] <;> simp

theorem mem_clear {r : Sticky ω w} {mask : BitVec w} {e : Raise ω w}
    (h : e ∈ r.clear mask) :
    ∃ e₀ ∈ r, e.origin = e₀.origin ∧ e.bits = e₀.bits &&& ~~~mask := by
  obtain ⟨e₀, he₀, rfl⟩ := List.mem_map.mp h
  exact ⟨e₀, he₀, rfl, rfl⟩

theorem value_and_eq_zero_iff (r : Sticky ω w) (mask : BitVec w) :
    r.value &&& mask = 0#w ↔ ∀ e ∈ r, e.bits &&& mask = 0#w := by
  induction r with
  | nil => simp
  | cons e rest ih =>
      have hsplit : (e.bits ||| value rest) &&& mask =
          (e.bits &&& mask) ||| (value rest &&& mask) := by
        ext i hi
        simp only [BitVec.getElem_or, BitVec.getElem_and]
        cases e.bits[i] <;> simp
      rw [value_cons, hsplit, BitVec.or_eq_zero_iff, ih]
      simp

theorem value_and_ne_zero_iff {r : Sticky ω w} {mask : BitVec w} :
    r.value &&& mask ≠ 0#w ↔ ∃ e ∈ r, e.bits &&& mask ≠ 0#w := by
  rw [ne_eq, value_and_eq_zero_iff]
  push Not
  exact Iff.rfl

theorem value_clear_and {r : Sticky ω w} {mask m : BitVec w} (h : mask &&& m = 0#w) :
    (r.clear mask).value &&& m = r.value &&& m := by
  have hbit : ∀ i, i < w → (mask.getLsbD i && m.getLsbD i) = false := by
    intro i _
    rw [← BitVec.getLsbD_and, h, BitVec.getLsbD_zero]
  rw [value_clear]
  refine BitVec.eq_of_getLsbD_eq fun i hi => ?_
  have hi' := hbit i hi
  simp only [BitVec.getLsbD_and, BitVec.getLsbD_not, hi, decide_true, Bool.true_and]
  cases hm : m.getLsbD i
  · simp
  · rw [hm, Bool.and_true] at hi'
    rw [hi', Bool.not_false, Bool.and_true]

/-- Clearing leaves nothing of a mask that was not pending before. -/
theorem bits_of_mem_clear {r : Sticky ω w} {mask m : BitVec w} {e : Raise ω w}
    (h : e ∈ r.clear mask) (hne : e.bits &&& m ≠ 0#w) :
    ∃ e₀ ∈ r, e₀.origin = e.origin ∧ e₀.bits &&& m ≠ 0#w := by
  obtain ⟨e₀, he₀, ho, hbits⟩ := mem_clear h
  refine ⟨e₀, he₀, ho.symm, fun hzero => hne ?_⟩
  have hcomm : e₀.bits &&& ~~~mask &&& m = (e₀.bits &&& m) &&& ~~~mask := by
    rw [BitVec.and_assoc, BitVec.and_comm (~~~mask) m, ← BitVec.and_assoc]
  rw [hbits, hcomm, hzero, BitVec.zero_and]

end Sticky

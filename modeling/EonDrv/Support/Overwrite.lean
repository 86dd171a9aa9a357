import Mathlib.Logic.Basic

/-!
# Partial overwriting

A map of memories that writes some bits of the words and keeps the others.  What it
writes does not depend on what the memory held.
-/

universe u

/-- `f` keeps the bits of `kept`, and writes all others. -/
structure Overwrites {ι : Type u} {w : Nat} (kept : ι → Nat → Prop)
    (f : (ι → BitVec w) → ι → BitVec w) : Prop where
  keeps : ∀ mem i b, b < w → kept i b → (f mem i).getLsbD b = (mem i).getLsbD b
  writes : ∀ mem mem' i b, b < w → ¬ kept i b → (f mem i).getLsbD b = (f mem' i).getLsbD b

namespace Overwrites

variable {ι : Type u} {w : Nat} {kept kept' : ι → Nat → Prop}
  {f g : (ι → BitVec w) → ι → BitVec w}

theorem congr (h : Overwrites kept f) (hiff : ∀ i b, kept i b ↔ kept' i b) :
    Overwrites kept' f where
  keeps mem i b hlt hb := h.keeps mem i b hlt ((hiff i b).mpr hb)
  writes mem mem' i b hlt hb := h.writes mem mem' i b hlt (mt (hiff i b).mp hb)

theorem id : Overwrites (fun _ _ => True) (fun mem : ι → BitVec w => mem) where
  keeps _ _ _ _ _ := rfl
  writes _ _ _ _ _ hb := absurd trivial hb

theorem comp (hg : Overwrites kept' g) (hf : Overwrites kept f) :
    Overwrites (fun i b => kept i b ∧ kept' i b) (fun mem => g (f mem)) where
  keeps mem i b hlt hb := (hg.keeps (f mem) i b hlt hb.2).trans (hf.keeps mem i b hlt hb.1)
  writes mem mem' i b hlt hb := by
    by_cases hkept : kept' i b
    · rw [hg.keeps (f mem) i b hlt hkept, hg.keeps (f mem') i b hlt hkept]
      exact hf.writes mem mem' i b hlt fun hb' => hb ⟨hb', hkept⟩
    · exact hg.writes (f mem) (f mem') i b hlt hkept

/-- Two memories give one word exactly when they agree on the bits that it keeps. -/
theorem eq_iff (h : Overwrites kept f) (mem mem' : ι → BitVec w) (i : ι) :
    f mem i = f mem' i ↔
      ∀ b, b < w → kept i b → (mem i).getLsbD b = (mem' i).getLsbD b := by
  constructor
  · intro heq b hlt hb
    rw [← h.keeps mem i b hlt hb, ← h.keeps mem' i b hlt hb, heq]
  · intro hagree
    refine BitVec.eq_of_getLsbD_eq fun b hlt => ?_
    by_cases hb : kept i b
    · rw [h.keeps mem i b hlt hb, h.keeps mem' i b hlt hb]
      exact hagree b hlt hb
    · exact h.writes mem mem' i b hlt hb

end Overwrites

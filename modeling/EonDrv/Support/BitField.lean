import Mathlib.Data.Nat.Notation

/-!
# One-bit fields of a word

An assignment to a one-bit field reads the word, replaces the bit and writes the
word back; the other bits keep whatever the memory held.
-/

namespace BitField

variable {w : Nat}

def withBit (x : BitVec w) (i : Nat) (b : Bool) : BitVec w :=
  if b then x ||| BitVec.twoPow w i else x &&& ~~~ BitVec.twoPow w i

theorem getLsbD_withBit (x : BitVec w) (i : Nat) (b : Bool) (j : Nat) (hj : j < w) :
    (withBit x i b).getLsbD j = if j = i then b else x.getLsbD j := by
  cases b <;> by_cases hji : j = i
  · subst hji
    simp [withBit, hj]
  · simp [withBit, hj, hji]
  · subst hji
    simp [withBit, hj]
  · simp [withBit, BitVec.getLsbD_twoPow, hji, Ne.symm hji]

theorem getLsbD_withBit_self (x : BitVec w) {i : Nat} (b : Bool) (hi : i < w) :
    (withBit x i b).getLsbD i = b := by
  rw [getLsbD_withBit x i b i hi, if_pos rfl]

theorem getLsbD_withBit_ne (x : BitVec w) {i j : Nat} (b : Bool) (hj : j < w) (h : j ≠ i) :
    (withBit x i b).getLsbD j = x.getLsbD j := by
  rw [getLsbD_withBit x i b j hj, if_neg h]

end BitField

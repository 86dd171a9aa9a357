import Mathlib.Data.Finset.Card
import Mathlib.Order.Interval.Finset.Nat

/-!
# A range of addresses and its pages

The range `[h, h + s)` over pages of `P` bytes.  `bound` lists the places where the
range goes from one page to the next, with its two ends, and a loop that takes bytes
up to the end of a page or of the range moves from one `bound` to the next.
-/

namespace Pages

/-- The pages that the range touches. -/
def touched (P h s : Nat) : Finset Nat := (Finset.Ico h (h + s)).image (· / P)

/-- The number of pages by rounding up. -/
def count (P h s : Nat) : Nat := (h % P + s + P - 1) / P

/-- The start of piece `i`, and the end of the piece before it. -/
def bound (P h s i : Nat) : Nat := if i = 0 then h else min (h + s) ((h / P + i) * P)

/-- The bytes up to the end of the page, or up to the end of the range. -/
def piece (P addr rest : Nat) : Nat := min (P - addr % P) rest

variable {P h s : Nat}

theorem lt_count_iff (hP : 0 < P) {i : Nat} : i < count P h s ↔ (h / P + i) * P < h + s := by
  have hsplit := Nat.div_add_mod h P
  rw [Nat.mul_comm] at hsplit
  rw [count, Nat.lt_div_iff_mul_lt hP, Nat.add_mul]
  generalize h / P * P = q at hsplit ⊢
  generalize i * P = y
  omega

theorem bound_zero : bound P h s 0 = h := rfl

theorem bound_succ (i : Nat) : bound P h s (i + 1) = min (h + s) ((h / P + i) * P + P) := by
  rw [bound, if_neg (Nat.succ_ne_zero i), ← Nat.add_assoc, Nat.succ_mul]

theorem bound_of_lt (hP : 0 < P) {i : Nat} (h0 : 0 < i) (hi : i < count P h s) :
    bound P h s i = (h / P + i) * P := by
  rw [bound, if_neg (Nat.ne_of_gt h0)]
  exact Nat.min_eq_right (Nat.le_of_lt ((lt_count_iff hP).mp hi))

theorem bound_count (hP : 0 < P) (hs : 0 < s) : bound P h s (count P h s) = h + s := by
  have hfirst : h / P * P ≤ h := Nat.div_mul_le_self h P
  have hpos : 0 < count P h s := (lt_count_iff hP).mpr (by rw [Nat.add_zero]; omega)
  have hlast : ¬ (h / P + count P h s) * P < h + s := fun hlt =>
    Nat.lt_irrefl _ ((lt_count_iff hP).mpr hlt)
  rw [bound, if_neg (Nat.ne_of_gt hpos)]
  exact Nat.min_eq_left (by omega)

theorem page_le_bound (hP : 0 < P) {i : Nat} (hi : i < count P h s) :
    (h / P + i) * P ≤ bound P h s i ∧ bound P h s i < (h / P + i) * P + P := by
  by_cases h0 : i = 0
  · subst h0
    have hsplit := Nat.div_add_mod h P
    have hmod := Nat.mod_lt h hP
    rw [Nat.mul_comm] at hsplit
    rw [bound_zero, Nat.add_zero]
    omega
  · rw [bound_of_lt hP (Nat.pos_of_ne_zero h0) hi]
    omega

theorem bound_lt_end (hP : 0 < P) (hs : 0 < s) {i : Nat} (hi : i < count P h s) :
    bound P h s i < h + s := by
  by_cases h0 : i = 0
  · rw [h0, bound_zero]
    omega
  · rw [bound_of_lt hP (Nat.pos_of_ne_zero h0) hi]
    exact (lt_count_iff hP).mp hi

theorem le_bound (hP : 0 < P) (i : Nat) : h ≤ bound P h s i := by
  by_cases h0 : i = 0
  · rw [h0, bound_zero]
  · have hsplit := Nat.div_add_mod h P
    have hmod := Nat.mod_lt h hP
    have hstep : (h / P + 1) * P ≤ (h / P + i) * P := Nat.mul_le_mul_right P (by omega)
    rw [Nat.succ_mul] at hstep
    rw [Nat.mul_comm] at hsplit
    rw [bound, if_neg h0]
    omega

theorem bound_le_end (i : Nat) : bound P h s i ≤ h + s := by
  unfold bound
  split <;> omega

theorem bound_lt_succ (hP : 0 < P) (hs : 0 < s) {i : Nat} (hi : i < count P h s) :
    bound P h s i < bound P h s (i + 1) := by
  have hpage := page_le_bound hP hi
  have hend := bound_lt_end hP hs hi
  rw [bound_succ]
  omega

theorem bound_div (hP : 0 < P) {i : Nat} (hi : i < count P h s) :
    bound P h s i / P = h / P + i := by
  have hpage := page_le_bound hP hi
  rw [← Nat.succ_mul] at hpage
  exact Nat.div_eq_of_lt_le hpage.1 hpage.2

theorem bound_mod (hP : 0 < P) {i : Nat} (hi : i < count P h s) :
    bound P h s i % P + (h / P + i) * P = bound P h s i := by
  have hsplit := Nat.mod_add_div (bound P h s i) P
  rwa [bound_div hP hi, Nat.mul_comm] at hsplit

theorem piece_bound (hP : 0 < P) (hs : 0 < s) {i : Nat} (hi : i < count P h s) :
    bound P h s i + piece P (bound P h s i) (h + s - bound P h s i) = bound P h s (i + 1) := by
  have hmod := bound_mod hP hi
  have hpage := page_le_bound hP hi
  have hend := bound_lt_end hP hs hi
  rw [bound_succ, piece]
  omega

theorem piece_congr {addr addr' : Nat} (h : addr % P = addr' % P) (rest : Nat) :
    piece P addr rest = piece P addr' rest := by
  rw [piece, piece, h]

theorem mem_touched {p : Nat} : p ∈ touched P h s ↔ ∃ a, h ≤ a ∧ a < h + s ∧ a / P = p := by
  simp only [touched, Finset.mem_image, Finset.mem_Ico, and_assoc]

/-- The pages from that of the first byte on. -/
theorem touched_eq (hP : 0 < P) (hs : 0 < s) :
    touched P h s = Finset.Ico (h / P) (h / P + count P h s) := by
  ext p
  rw [mem_touched, Finset.mem_Ico]
  constructor
  · rintro ⟨a, hlo, hhi, rfl⟩
    have hle : h / P ≤ a / P := Nat.div_le_div_right hlo
    have hlt : a / P - h / P < count P h s := by
      rw [lt_count_iff hP, Nat.add_sub_cancel' hle]
      exact Nat.lt_of_le_of_lt (Nat.div_mul_le_self a P) hhi
    omega
  · rintro ⟨hlo, hhi⟩
    have hi : p - h / P < count P h s := by omega
    refine ⟨bound P h s (p - h / P), ?_, bound_lt_end hP hs hi, ?_⟩
    · by_cases h0 : p - h / P = 0
      · rw [h0, bound_zero]
      · have hfirst := (page_le_bound (h := h) (s := s) (i := 0) hP (by omega)).2
        have hstep : (h / P + 1) * P ≤ (h / P + (p - h / P)) * P :=
          Nat.mul_le_mul_right P (by omega)
        rw [bound_of_lt hP (Nat.pos_of_ne_zero h0) hi]
        rw [bound_zero, Nat.add_zero] at hfirst
        rw [Nat.succ_mul] at hstep
        omega
    · rw [bound_div hP hi]
      omega

theorem card_touched (hP : 0 < P) (hs : 0 < s) : (touched P h s).card = count P h s := by
  rw [touched_eq hP hs, Nat.card_Ico]
  omega

end Pages

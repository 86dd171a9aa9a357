import EonDrv.Support.Doorbell

/-!
# Runs of a doorbell cell

A run is a list of events.  Its raises, completions and ended calls are counted.  Every
completion that the server stores uses up the raises it read, and every call that ends
completed uses up a completion that was stored since it armed, so that there are no more
of the later than of the earlier.
-/

namespace Doorbell

variable {κ : Type*} {w : Nat}

inductive Run [DecidableEq κ] (M : Masks w) : Cell κ w → List (Event κ w) → Cell κ w → Prop
  | nil (v : Cell κ w) : Run M v [] v
  | cons {v u v' : Cell κ w} {e : Event κ w} {es : List (Event κ w)} :
      Step M v e u → Run M u es v' → Run M v (e :: es) v'

structure Tally where
  raised : Nat
  stored : Nat
  ended : Nat

def Tally.zero : Tally := ⟨0, 0, 0⟩

def Cell.unread (v : Cell κ w) : BitVec w :=
  match v.held with
  | some ⟨.store, _, st⟩ | some ⟨.clear, _, st⟩ => v.status.value &&& ~~~st.value
  | _ => v.status.value

def Cell.toStore (v : Cell κ w) : Nat :=
  match v.held with
  | some ⟨.store, _, _⟩ => 1
  | _ => 0

/-- A call of which the completion is stored and not seen. -/
def Cell.toEnd (v : Cell κ w) : Nat := if v.call.isSome && !v.running then 1 else 0

def pendingEvent (M : Masks w) (word : BitVec w) : Nat := if word &&& M.event = 0#w then 0 else 1

def Tally.add (M : Masks w) (t : Tally) : Event κ w → Tally
  | .raise _ bits => { t with raised := t.raised + pendingEvent M bits }
  | .store => { t with stored := t.stored + 1 }
  | .complete => { t with ended := t.ended + 1 }
  | _ => t

structure Tallied (M : Masks w) (v : Cell κ w) (t : Tally) : Prop where
  stored : t.stored + v.toStore + pendingEvent M v.unread ≤ t.raised
  ended : t.ended + v.toEnd ≤ t.stored

section

variable {M : Masks w} {v v' : Cell κ w} {t : Tally}

theorem toEnd_le_one (v : Cell κ w) : v.toEnd ≤ 1 := by
  unfold Cell.toEnd
  split <;> omega

theorem pendingEvent_or (x y : BitVec w) :
    pendingEvent M (x ||| y) ≤ pendingEvent M x + pendingEvent M y := by
  unfold pendingEvent
  have hsplit : (x ||| y) &&& M.event = (x &&& M.event) ||| (y &&& M.event) := by
    ext i hi
    simp only [BitVec.getElem_or, BitVec.getElem_and]
    cases x[i] <;> simp
  simp only [hsplit, BitVec.or_eq_zero_iff]
  by_cases hx : x &&& M.event = 0#w
  · by_cases hy : y &&& M.event = 0#w
    · simp only [hx, hy, and_self, if_true]
      omega
    · simp only [hx, hy, and_false, if_true, if_false]
      omega
  · simp only [hx, false_and, if_false]
    omega

theorem pendingEvent_and (x m : BitVec w) : pendingEvent M (x &&& m) ≤ pendingEvent M x := by
  unfold pendingEvent
  by_cases hx : x &&& M.event = 0#w
  · have hzero : x &&& m &&& M.event = 0#w := by
      rw [BitVec.and_assoc, BitVec.and_comm m, ← BitVec.and_assoc, hx, BitVec.zero_and]
    simp only [hx, hzero, if_true, Nat.le_refl]
  · simp only [hx, if_false]
    split <;> omega

theorem Tallied.idle (h : v.Idle) (hs : v.status = []) : Tallied M v Tally.zero where
  stored := by
    simp [Tally.zero, Cell.toStore, Cell.unread, pendingEvent, h.held, hs]
  ended := by
    simp [Tally.zero, Cell.toEnd, h.call]

/-- More raises and fewer ends leave the counts in order. -/
theorem Tallied.mono {t' : Tally} (h : Tallied M v t) (hr : t.raised ≤ t'.raised)
    (hs : t'.stored = t.stored) (he : t'.ended ≤ t.ended) : Tallied M v t' where
  stored := by
    have hstored := h.stored
    omega
  ended := by
    have hended := h.ended
    omega

theorem Tallied.ordered (h : Tallied M v t) : t.ended ≤ t.stored ∧ t.stored ≤ t.raised := by
  have hstored := h.stored
  have hended := h.ended
  omega

theorem Tallied.client (h : Tallied M v t) (hheld : v'.held = v.held)
    (hstatus : v'.status = v.status) (hend : v'.toEnd ≤ v.toEnd) : Tallied M v' t where
  stored := by
    have hstored := h.stored
    unfold Cell.toStore Cell.unread at hstored ⊢
    rwa [hheld, hstatus]
  ended := by
    have hended := h.ended
    omega

theorem unread_raise (v : Cell κ w) (o : Option κ) (bits : BitVec w) (call : Option (Active κ)) :
    pendingEvent M { v with status := v.status.raise o bits, call := call }.unread ≤
      pendingEvent M v.unread + pendingEvent M bits := by
  have hor : ∀ m : BitVec w, pendingEvent M ((bits ||| v.status.value) &&& m) ≤
      pendingEvent M (v.status.value &&& m) + pendingEvent M bits := by
    intro m
    have hdist : (bits ||| v.status.value) &&& m = (bits &&& m) ||| (v.status.value &&& m) := by
      ext i hi
      simp only [BitVec.getElem_or, BitVec.getElem_and]
      cases bits[i] <;> simp
    rw [hdist]
    have hle := pendingEvent_or (M := M) (bits &&& m) (v.status.value &&& m)
    have hbits := pendingEvent_and (M := M) bits m
    omega
  have hplain : pendingEvent M (bits ||| v.status.value) ≤
      pendingEvent M v.status.value + pendingEvent M bits := by
    have hle := pendingEvent_or (M := M) bits v.status.value
    omega
  unfold Cell.unread
  rcases hh : v.held with _ | ⟨place, b, st⟩
  · exact hplain
  · cases place with
    | store => exact hor _
    | clear => exact hor _
    | wake => exact hplain

theorem Tallied.step [DecidableEq κ] {e : Event κ w} (h : Tallied M v t) (hst : Step M v e v') :
    Tallied M v' (t.add M e) := by
  cases hst with
  | other => exact h
  | arm hc _ => exact h.client rfl rfl (by simp [Cell.toEnd])
  | refuse _ _ => exact h.client rfl rfl (by simp [Cell.toEnd])
  | ring hc _ => exact h.client rfl rfl (by simp [Cell.toEnd, hc])
  | sleep hc _ _ => exact h.client rfl rfl (by simp [Cell.toEnd, hc])
  | rouse hc _ => exact h.client rfl rfl (by simp [Cell.toEnd, hc])
  | cut _ _ _ => exact h.client rfl rfl (by simp [Cell.toEnd])
  | complete hc _ hrun =>
      have hseen : v.toEnd = 1 := by simp [Cell.toEnd, hc, hrun]
      have hended := h.ended
      refine ⟨h.stored, ?_⟩
      show t.ended + 1 + 0 ≤ t.stored
      omega
  | @raise o bits _ =>
      have hle := unread_raise (M := M) v o bits (v.call.map fun a => a.mark M o bits)
      have hstored := h.stored
      refine ⟨?_, ?_⟩
      · show t.stored + v.toStore + _ ≤ t.raised + pendingEvent M bits
        omega
      · have hended := h.ended
        unfold Cell.toEnd at hended ⊢
        rwa [Option.isSome_map]
  | @read b hnone hevent =>
      have hstored := h.stored
      have hone : pendingEvent M v.unread = 1 := by
        simp [Cell.unread, hnone, pendingEvent, hevent]
      have hnow : v.toStore = 0 := by simp [Cell.toStore, hnone]
      refine ⟨?_, h.ended⟩
      have hzero : pendingEvent M (v.status.value &&& ~~~v.status.value) = 0 := by
        rw [BitVec.and_not_self]
        simp [pendingEvent]
      show t.stored + 1 + pendingEvent M (v.status.value &&& ~~~v.status.value) ≤ t.raised
      omega
  | @store b st hheld =>
      have hstored := h.stored
      have hended := h.ended
      have hone : v.toStore = 1 := by simp [Cell.toStore, hheld]
      have hsame : v.unread = v.status.value &&& ~~~st.value := by simp [Cell.unread, hheld]
      rw [hsame] at hstored
      refine ⟨?_, ?_⟩
      · show t.stored + 1 + 0 + pendingEvent M (v.status.value &&& ~~~st.value) ≤ t.raised
        omega
      · refine Nat.le_trans (Nat.add_le_add_left (toEnd_le_one _) _) ?_
        show t.ended + 1 ≤ t.stored + 1
        omega
  | @clear b st hheld =>
      have hstored := h.stored
      have hnow : v.toStore = 0 := by simp [Cell.toStore, hheld]
      have hsame : v.unread = v.status.value &&& ~~~st.value := by simp [Cell.unread, hheld]
      rw [hsame] at hstored
      refine ⟨?_, h.ended⟩
      show t.stored + 0 + pendingEvent M (v.status.clear st.value).value ≤ t.raised
      rw [Sticky.value_clear]
      omega
  | @wake b st hheld =>
      have hstored := h.stored
      have hsame : v.unread = v.status.value := by simp [Cell.unread, hheld]
      rw [hsame] at hstored
      refine ⟨?_, ?_⟩
      · show t.stored + 0 + pendingEvent M v.status.value ≤ t.raised
        omega
      · have hended := h.ended
        unfold Cell.toEnd at hended ⊢
        cases b
        · exact hended
        · rwa [if_pos rfl, Option.isSome_map]

/-! ## Which event a step was -/

theorem Step.eq_store [DecidableEq κ] {e : Event κ w} {b b' : Bool}
    {st st' : Sticky (Option κ) w} (h : Step M v e v') (hv : v.held = some ⟨.store, b, st⟩)
    (hv' : v'.held = some ⟨.clear, b', st'⟩) : e = .store := by
  cases h with
  | store _ => rfl
  | read hnone _ => simp [hv] at hnone
  | clear hheld => simp [hv] at hheld
  | wake hheld => simp [hv] at hheld
  | _ => simp [hv] at hv'

theorem Step.eq_complete [DecidableEq κ] {e : Event κ w} {a : Active κ} (h : Step M v e v')
    (hc : v.call = some a) (hp : a.phase = .awake) (hr : v.running = false)
    (hn : v'.call = none) : e = .complete := by
  cases h with
  | complete _ _ _ => rfl
  | refuse hc' harmed =>
      obtain rfl := Option.some.inj (hc.symm.trans hc')
      rw [hp] at harmed
      cases harmed
  | cut _ _ hrun =>
      rw [hr] at hrun
      cases hrun
  | @wake b _ _ => cases b <;> simp [hc] at hn
  | _ => simp [hc] at hn

end

end Doorbell

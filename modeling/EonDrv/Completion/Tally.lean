import EonDrv.Completion.Waits
import EonDrv.Support.DoorbellTally
import EonDrv.Support.Schedule

/-!
# Runs of a channel

Every run of the completion path is a run of each of its doorbell cells.  Runs with a
count beside the state say of every channel how often the device raised an event, how
often the thread stored `COMPLETED`, and how many waits ended because the state had left
`RUNNING`: no completion is used twice.
-/

namespace EonDrv
namespace Completion

open Doorbell (Tally Tallied)

/-- What happens between two states of a run is, on each channel by itself, what a cell
of the doorbell handshake can do. -/
theorem refines_doorbell {reqs : Nat → HdmaRequest} {s t : State} {as : List Action}
    (hs : (system reqs).Reachable s) (h : (system reqs).Takes (fun _ => True) s as t)
    (ch : Chan) :
    ∃ es, es.length = as.length ∧
      Doorbell.Run masks (cell reqs s ch) es (cell reqs t ch) := by
  induction h with
  | nil s => exact ⟨[], rfl, .nil _⟩
  | cons _ hst _ ih =>
      obtain ⟨es, hlen, hrun⟩ := ih (hs.next trivial hst)
      obtain ⟨e, -, hcell⟩ := cell_step (base_of_reachable hs) (fires_of_step hst) ch
      exact ⟨e :: es, congrArg Nat.succ hlen, .cons hcell hrun⟩

theorem upload_refined :
    ∃ as t es, (system sample).Takes (fun _ => True) probed as t ∧ es.length = 28 ∧
      t.req 0 = .unlock .upload 0 ∧
      Doorbell.Run masks (cell sample probed ⟨.rd, 0⟩) es (cell sample t ⟨.rd, 0⟩) := by
  obtain ⟨t, htakes, hpc⟩ := StepSystem.exists_takes (S := system sample) (s := probed)
    (fun t => t.req 0 = .unlock .upload 0)
    (untilUpload 0 ++ stopUpload 0 ++ threadSteps 10 ++ [Action.request 0]) (by decide +kernel)
  obtain ⟨es, hlen, hrun⟩ := refines_doorbell (.start probed_initial) htakes ⟨.rd, 0⟩
  exact ⟨_, t, es, htakes, hlen, hpc, hrun⟩

/-! ## Counts -/

section

variable (reqs : Nat → HdmaRequest)

def raisesEvent (a : Action) (ch : Chan) : Bool :=
  match a with
  | .raise ch' _ bits => ch' = ch && HasEvent bits
  | _ => false

def storesCompleted (s : State) (a : Action) (ch : Chan) : Bool :=
  match a, s.thread.pc with
  | .thread, .store _ ch' _ => ch' = ch
  | _, _ => false

/-- The wait of a stage on the channel ends with the state no longer `RUNNING`. -/
def endsCompleted (s : State) (a : Action) (ch : Chan) : Bool :=
  match a with
  | .request r =>
    match s.req r with
    | .wait st (.check _) => (reqs r).chan st = ch && (s.ctx ch).state ≠ .running
    | _ => false
  | _ => false

def count (s : State) (a : Action) (_ : State) (o : Chan → Tally) : Chan → Tally :=
  fun ch =>
    { raised := (o ch).raised + (raisesEvent a ch).toNat
      stored := (o ch).stored + (storesCompleted s a ch).toNat
      ended := (o ch).ended + (endsCompleted reqs s a ch).toNat }

def counted : StepSystem (State × (Chan → Tally)) Action :=
  (system reqs).observe (fun _ => Tally.zero) (count reqs)

end

section

variable {reqs : Nat → HdmaRequest} {s t : State} {a : Action} {ch : Chan}

theorem storesCompleted_iff :
    storesCompleted s a ch = true ↔
      a = .thread ∧ ∃ sc status, s.thread.pc = .store sc ch status := by
  unfold storesCompleted
  split
  · rename_i hpc
    rw [hpc, decide_eq_true_eq]
    constructor
    · rintro rfl
      exact ⟨rfl, _, _, rfl⟩
    · rintro ⟨-, sc, status, heq⟩
      cases heq
      rfl
  · rename_i hno
    refine iff_of_false Bool.false_ne_true ?_
    rintro ⟨rfl, sc, status, hpc⟩
    exact hno sc ch status rfl hpc

theorem raisesEvent_raise (o : Option Call) (bits : BitVec 32) :
    (raisesEvent (.raise ch o bits) ch).toNat = Doorbell.pendingEvent masks bits := by
  have hself : raisesEvent (.raise ch o bits) ch = decide (HasEvent bits) := by
    simp only [raisesEvent, decide_true, Bool.true_and]
  rw [hself]
  by_cases hzero : bits &&& eventMask = 0#32
  · have hno : ¬ HasEvent bits := not_not.mpr hzero
    rw [decide_eq_false hno]
    exact (if_pos hzero).symm
  · have hevent : HasEvent bits := hzero
    rw [decide_eq_true hevent]
    exact (if_neg hzero).symm

theorem event_of_stores (hst : step reqs s a = some t) (hs : storesCompleted s a ch = true)
    {e : Doorbell.Event Call 32} (he : Doorbell.Step masks (cell reqs s ch) e (cell reqs t ch)) :
    e = .store := by
  obtain ⟨rfl, sc, status, hpc⟩ := storesCompleted_iff.mp hs
  simp only [step, hamaHandleKthread, hpc, Option.some.injEq] at hst
  subst hst
  have hheld : (cell reqs s ch).held = some ⟨.store, sc.wakesFor status, status⟩ := by
    show s.thread.pc.held ch = _
    rw [hpc]
    exact if_pos rfl
  exact he.eq_store hheld (if_pos rfl)

theorem endsCompleted_cases (h : endsCompleted reqs s a ch = true) :
    ∃ r st why, a = .request r ∧ s.req r = .wait st (.check why) ∧ (reqs r).chan st = ch ∧
      (s.ctx ch).state ≠ .running := by
  unfold endsCompleted at h
  split at h
  · split at h
    · rename_i r _ st why hpc
      simp only [decide_eq_true_eq, Bool.and_eq_true] at h
      exact ⟨r, st, why, rfl, hpc, h.1, h.2⟩
    · cases h
  · cases h

theorem event_of_ends (hb : Base reqs s) (hst : step reqs s a = some t)
    (hends : endsCompleted reqs s a ch = true) {e : Doorbell.Event Call 32}
    (he : Doorbell.Step masks (cell reqs s ch) e (cell reqs t ch)) : e = .complete := by
  obtain ⟨r, st, why, rfl, hpc, rfl, hstate⟩ := endsCompleted_cases hends
  simp only [step, stepRequest, hpc, if_pos hstate, Option.some.injEq] at hst
  subst hst
  have hphase : (s.req r).phase = some (st, .awake) := by rw [hpc]; rfl
  have hl := hb.holds (phase_critical hphase)
  have hrun : (cell reqs s ((reqs r).chan st)).running = false := beq_eq_false_iff_ne.mpr hstate
  have hnone : (cell reqs (s.setReq r (.unlock st 0)) ((reqs r).chan st)).call = none := by
    rw [cell_setReq_self hl]
    rfl
  exact he.eq_complete (hb.cell_call hphase) rfl hrun hnone

/-! ## The counts of a channel are the counts of its cell -/

/-- A step counts at least the raises of the event of a cell, its stores, and at
most its ends. -/
theorem tallied_step (hb : Base reqs s) (hst : step reqs s a = some t) {o : Chan → Tally}
    (h : Tallied masks (cell reqs s ch) (o ch)) :
    Tallied masks (cell reqs t ch) (count reqs s a t o ch) := by
  obtain ⟨e, hshow, hcell⟩ := cell_step hb (fires_of_step hst) ch
  refine (h.step hcell).mono ?_ ?_ ?_
  · cases e with
    | raise o' bits =>
        obtain rfl : a = .raise ch o' bits := hshow
        show (o ch).raised + _ ≤ (o ch).raised + _
        rw [raisesEvent_raise]
    | _ => exact Nat.le_add_right ..
  · cases hs : storesCompleted s a ch with
    | true =>
        obtain rfl := event_of_stores hst hs hcell
        show (o ch).stored + (storesCompleted s a ch).toNat = (o ch).stored + 1
        rw [hs]
        rfl
    | false =>
        have hsame : ((o ch).add masks e).stored = (o ch).stored := by
          cases e with
          | store =>
              obtain ⟨ha, sc, status, hpc⟩ := hshow
              rw [storesCompleted_iff.mpr ⟨ha, sc, status, hpc⟩] at hs
              cases hs
          | _ => rfl
        rw [hsame]
        show (o ch).stored + (storesCompleted s a ch).toNat = _
        rw [hs]
        rfl
  · cases hends : endsCompleted reqs s a ch with
    | true =>
        obtain rfl := event_of_ends hb hst hends hcell
        show (o ch).ended + (endsCompleted reqs s a ch).toNat ≤ (o ch).ended + 1
        rw [hends]
        exact Nat.le_refl _
    | false =>
        have hge : (o ch).ended ≤ ((o ch).add masks e).ended := by
          cases e with
          | complete => exact Nat.le_succ _
          | _ => exact Nat.le_refl _
        show (o ch).ended + (endsCompleted reqs s a ch).toNat ≤ _
        rw [hends]
        exact hge

end

/-- In every run, on every channel, no more waits have ended with a completion than
`COMPLETED` was stored, and no more stores were made than events raised. -/
theorem completions_counted (reqs : Nat → HdmaRequest) {s : State} {o : Chan → Tally}
    (h : (counted reqs).Reachable (s, o)) (ch : Chan) :
    (o ch).ended ≤ (o ch).stored ∧ (o ch).stored ≤ (o ch).raised := by
  have hall : ∀ ch, Tallied masks (cell reqs s ch) (o ch) := by
    refine StepSystem.ReachVia.invariant_of (S := counted reqs) (g := fun _ _ => True)
      (J := fun x : State × (Chan → Tally) => Base reqs x.1)
      (I := fun x : State × (Chan → Tally) => ∀ ch, Tallied masks (cell reqs x.1 ch) (x.2 ch))
      (fun x hx => base_of_reachable
        (StepSystem.ReachVia.of_observe (S := system reqs) (g := fun _ _ => True) hx))
      (fun x hx ch => ?_) (fun x a y hb hi _ hst ch => ?_) h
    · obtain ⟨hinit, hzero⟩ := hx
      rw [hzero]
      exact .idle (cell_idle hinit ch) (hinit.intStatus ch)
    · obtain ⟨hone, hrecord⟩ := StepSystem.observe_step hst
      rw [hrecord]
      exact tallied_step hb hone (hi ch)
  exact (hall ch).ordered

theorem upload_counted : ∃ s o, (counted sample).Reachable (s, o) ∧
    (o ⟨.rd, 0⟩).ended = 1 ∧ (o ⟨.rd, 0⟩).stored = 1 ∧ (o ⟨.rd, 0⟩).raised = 1 ∧
      (o ⟨.rd, 0⟩).ended ≤ (o ⟨.rd, 0⟩).stored := by
  obtain ⟨⟨s, o⟩, hs, hended, hstored, hraised⟩ := StepSystem.exists_reachVia
    (S := counted sample) (g := fun _ _ => True)
    (fun x => (x.2 ⟨.rd, 0⟩).ended = 1 ∧ (x.2 ⟨.rd, 0⟩).stored = 1 ∧
      (x.2 ⟨.rd, 0⟩).raised = 1)
    (untilUpload 0 ++ stopUpload 0 ++ threadSteps 10 ++ [Action.request 0])
    (s := (probed, fun _ => Tally.zero)) (.start ⟨probed_initial, rfl⟩) (by decide +kernel)
  exact ⟨s, o, hs, hended, hstored, hraised, (completions_counted sample hs ⟨.rd, 0⟩).1⟩

end Completion
end EonDrv

import EonDrv.Completion.Channel

/-!
# The end of a wait

What ends the wait of a stage, the call that a channel is busy with, and the runs
of sample requests that the results about waits are tried on.
-/

namespace EonDrv
namespace Completion

open Doorbell (Phase Active)

/-- The call in progress on a channel, from its store of `RUNNING` to the end of
its wait. -/
def current (s : State) (ch : Chan) : Option Call :=
  (s.ctx ch).lock.bind fun r => (s.req r).phase.map fun sp => ⟨r, sp.1⟩

/-- The channel whose state the thread is about to set to `COMPLETED`. -/
def storing (s : State) : Option Chan :=
  match s.thread.pc with
  | .store _ ch _ => some ch
  | _ => none

def Finished (s : State) (c : Call) : Prop := s.stopped c = true ∨ s.aborted c = true

instance (s : State) (c : Call) : Decidable (Finished s c) :=
  inferInstanceAs (Decidable (_ ∨ _))

section

variable {reqs : Nat → HdmaRequest}

theorem current_of_call {s : State} {ch : Chan} {a : Active Call}
    (h : (cell reqs s ch).call = some a) : current s ch = some a.call := by
  cases hl : (s.ctx ch).lock with
  | none =>
      rw [cell_call_none hl] at h
      cases h
  | some r =>
      rw [cell_call hl] at h
      obtain ⟨sp, hsp, rfl⟩ := Option.map_eq_some_iff.mp h
      unfold current
      rw [hl]
      show (s.req r).phase.map _ = _
      rw [hsp]
      rfl

theorem cell_call_of_current (reqs : Nat → HdmaRequest) {s : State} {ch : Chan} {c : Call}
    (h : current s ch = some c) :
    ∃ a, (cell reqs s ch).call = some a ∧ a.call = c := by
  cases hl : (s.ctx ch).lock with
  | none =>
      simp only [current, hl, Option.bind_none, reduceCtorEq] at h
  | some r =>
      simp only [current, hl, Option.bind_some, Option.map_eq_some_iff] at h
      obtain ⟨sp, hsp, rfl⟩ := h
      refine ⟨activeAt reqs s r sp, ?_, rfl⟩
      rw [cell_call hl, active, hsp]
      rfl

theorem Base.finished_iff {s : State} (hb : Base reqs s) {ch : Chan} {a : Active Call}
    (h : (cell reqs s ch).call = some a) : a.Finished ↔ Finished s a.call := by
  obtain ⟨r, sp, _, _, rfl⟩ := hb.of_cell_call h
  exact Iff.rfl

theorem Fires.stopped_mono {s t : State} {a : Action} (h : Fires reqs s a t) {c : Call}
    (hc : s.stopped c = true) : t.stopped c = true := by
  cases h with
  | raise _ => exact marked_eq_true.mpr (Or.inl hc)
  | _ => exact hc

theorem Fires.aborted_mono {s t : State} {a : Action} (h : Fires reqs s a t) {c : Call}
    (hc : s.aborted c = true) : t.aborted c = true := by
  cases h with
  | raise _ => exact marked_eq_true.mpr (Or.inl hc)
  | _ => exact hc

theorem Fires.finished_mono {s t : State} {a : Action} (h : Fires reqs s a t) {c : Call}
    (hc : Finished s c) : Finished t c := by
  rcases hc with hc | hc
  · exact Or.inl (h.stopped_mono hc)
  · exact Or.inr (h.aborted_mono hc)

theorem storing_of_held {s : State} {ch : Chan} {b : Bool} {status : IntStatus}
    (h : s.thread.pc.held ch = some ⟨.store, b, status⟩) : storing s = some ch := by
  unfold storing
  cases hpc : s.thread.pc <;> rw [hpc] at h <;> simp only [KthreadPc.held, reduceCtorEq] at h
  · split at h
    · rename_i hch
      rw [hch]
    · cases h
  · split at h <;> simp at h
  · split at h <;> simp at h

/-- How the wait of `r` ends in a step: the state changed, or the wait was cut by
the timeout or by a signal. -/
structure EndsWait (reqs : Nat → HdmaRequest) (s : State) (a : Action) (r : Nat) (st : Stage)
    (why : Wake) (ret : Int) : Prop where
  action : a = .request r
  place : s.req r = .wait st (.check why)
  cause : (s.ctx ((reqs r).chan st)).state ≠ .running ∧ ret = 0 ∨
    (s.ctx ((reqs r).chan st)).state = .running ∧
      (why = .timeout ∧ ret = -1 ∨ why = .signal ∧ ret = 0)

theorem Fires.wait_cases {s t : State} {a : Action} (h : Fires reqs s a t) {r : Nat}
    {st : Stage} {w : WaitPc} (hpc : s.req r = .wait st w) :
    (∃ w', t.req r = .wait st w') ∨
      ∃ why ret, EndsWait reqs s a r st why ret ∧ t.req r = .unlock st ret := by
  have hmoved : ∀ {u : State} {q : Nat} {p : ReqPc}, u.req = s.req →
      (r = q → ∃ w', p = .wait st w') → ∃ w', (u.setReq q p).req r = .wait st w' := by
    intro u q p hu hp
    by_cases hr : r = q
    · obtain ⟨w', hw⟩ := hp hr
      exact ⟨w', by rw [hr, State.setReq_req_self, hw]⟩
    · exact ⟨w, by rw [u.setReq_req_ne hr, hu, hpc]⟩
  cases h with
  | @move _ r' pc hm =>
      refine Or.inl (hmoved rfl fun hr => ?_)
      subst hr
      rw [hpc] at hm
      cases hm
      exact ⟨_, rfl⟩
  | @lock r' st' hpc' _ =>
      exact Or.inl (hmoved (u := s.setCtx _ _) rfl fun hr => by subst hr; simp [hpc] at hpc')
  | @program r' st' k reg val hpc' _ =>
      exact Or.inl (hmoved (u := s.setCtx _ _) rfl fun hr => by subst hr; simp [hpc] at hpc')
  | @setRunning r' st' hpc' =>
      exact Or.inl (hmoved (u := s.setCtx _ _) rfl fun hr => by subst hr; simp [hpc] at hpc')
  | @refuse r' k hpc' => exact Or.inl (hmoved rfl fun hr => by subst hr; simp [hpc] at hpc')
  | @ring r' st' hpc' _ =>
      have hring := hmoved (u := s) (q := r') (p := .wait st' (.check .woken)) rfl
        fun hr => by subst hr; simp [hpc] at hpc'
      exact Or.inl hring
  | @skipRing r' st' hpc' _ =>
      exact Or.inl (hmoved rfl fun hr => by subst hr; simp [hpc] at hpc')
  | @complete r' st' why hpc' hstate =>
      by_cases hr : r = r'
      · subst hr
        obtain ⟨rfl, rfl⟩ := ReqPc.wait.inj (hpc'.symm.trans hpc)
        exact Or.inr ⟨why, 0, ⟨rfl, hpc', Or.inl ⟨hstate, rfl⟩⟩, State.setReq_req_self ..⟩
      · exact Or.inl (hmoved rfl fun hr' => absurd hr' hr)
  | @sleep r' st' hpc' _ =>
      refine Or.inl (hmoved rfl fun hr => ?_)
      subst hr
      obtain ⟨rfl, _⟩ := ReqPc.wait.inj (hpc'.symm.trans hpc)
      exact ⟨_, rfl⟩
  | @timeout r' st' hpc' hstate =>
      by_cases hr : r = r'
      · subst hr
        obtain ⟨rfl, rfl⟩ := ReqPc.wait.inj (hpc'.symm.trans hpc)
        exact Or.inr ⟨.timeout, -1, ⟨rfl, hpc', Or.inr ⟨hstate, Or.inl ⟨rfl, rfl⟩⟩⟩,
          State.setReq_req_self ..⟩
      · exact Or.inl (hmoved rfl fun hr' => absurd hr' hr)
  | @signal r' st' hpc' hstate =>
      by_cases hr : r = r'
      · subst hr
        obtain ⟨rfl, rfl⟩ := ReqPc.wait.inj (hpc'.symm.trans hpc)
        exact Or.inr ⟨.signal, 0, ⟨rfl, hpc', Or.inr ⟨hstate, Or.inr ⟨rfl, rfl⟩⟩⟩,
          State.setReq_req_self ..⟩
      · exact Or.inl (hmoved rfl fun hr' => absurd hr' hr)
  | @unlock r' st' ret hpc' =>
      exact Or.inl (hmoved (u := s.setCtx _ _) rfl fun hr => by subst hr; simp [hpc] at hpc')
  | @rouse _ r' st' why hpc' _ =>
      refine Or.inl (hmoved rfl fun hr => ?_)
      subst hr
      obtain ⟨rfl, _⟩ := ReqPc.wait.inj (hpc'.symm.trans hpc)
      exact ⟨_, rfl⟩
  | @wake sc ch status _ _ =>
      rcases wakeUp_cases reqs s.req ch r with hsame | ⟨st', hst', _, hw⟩
      · exact Or.inl ⟨w, hsame.trans hpc⟩
      · obtain ⟨rfl, _⟩ := ReqPc.wait.inj (hst'.symm.trans hpc)
        exact Or.inl ⟨_, hw⟩
  | _ => exact Or.inl ⟨w, hpc⟩

end

/-! ## Sample runs -/

def probed : State where
  ctx _ := ⟨none, .idle, fun _ => 0, [], [], false⟩
  req _ := .setupSg
  thread := ⟨.wait, 0, 0⟩
  fifo := 0
  shouldStopFlag := false
  kthreadShouldStop := false
  mem _ := 0
  rung _ := false
  stopped _ := false
  aborted _ := false
  terminated _ := false

theorem probed_initial : Initial probed :=
  ⟨fun _ => rfl, fun _ => rfl, fun _ => rfl, fun _ => rfl, fun _ => rfl, rfl, fun _ => rfl,
    fun _ => rfl, fun _ => rfl, fun _ => rfl⟩

/-- An inbound request on channel 0 with one descriptor and no register batch,
whose table goes to `addr` and consists of the byte `b`. -/
def copyIn (addr : BitVec 64) (b : BitVec 8) : HdmaRequest where
  op := .inbound
  hdmaId := 0
  enable := dmaEnable
  regs := ⟨0, 0, fun _ => ⟨0, 0⟩⟩
  desc := ⟨1, 48, 0, 0, addr, .memToDev⟩
  table := List.replicate 48 b

def sample (r : Nat) : HdmaRequest := copyIn 0x1000 (BitVec.ofNat 8 r)

/-- Each on a channel of its own, up to the number of channels. -/
def spread (r : Nat) : HdmaRequest :=
  { sample r with hdmaId := Fin.ofNat maxHdmaNumber r }

/-- The 15 statements of a request up to the wait of its upload. -/
def untilUpload (r : Nat) : List Action := List.replicate 15 (.request r)

def untilData (r : Nat) : List Action := List.replicate 13 (.request r)

def stopUpload (r : Nat) : List Action := [.raise ⟨.rd, 0⟩ (some ⟨r, .upload⟩) stopBit, .irq]
def stopData (r : Nat) : List Action := [.raise ⟨.rd, 0⟩ (some ⟨r, .data⟩) stopBit, .irq]

def threadSteps (n : Nat) : List Action := List.replicate n .thread

end Completion
end EonDrv

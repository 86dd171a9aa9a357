import EonDrv.Machine.Batch
import EonDrv.Support.Schedule

/-!
# Every request can return

A request holds one channel lock at a time, and takes `conbar_lock` under it for the time
of one register write.  No party waits for anything else without a timeout, so from every
state of every run each request and each register ioctl can come to its return, with no
help from the device or the completion thread.
-/

namespace EonDrv
namespace Window

/-- The statements of an access that are left, inside its section. -/
def Pc.left : Pc → Nat
  | .check => 13
  | .remap k => 4 + (8 - k)
  | .setBase => 3
  | .access => 2
  | .unlock => 1
  | _ => 0

theorem length_remapWrites (a : BitVec 64) : (remapWrites a).length = 8 := by
  have hsize : ¬ (0x1000000#64 < configBarSize) := by decide
  simp only [remapWrites, iatuMapInboundBar, iatuMapOutboundBar, iatuMapBar, if_neg hsize]
  rfl

theorem step_critical (acc : Nat → Access) {s : State} {i : Nat}
    (hcrit : (s.pc i).critical = true) (v : BitVec 32) :
    ∃ t, step acc s (.client i v) = some t ∧ (t.pc i).left < (s.pc i).left ∧
      ((t.pc i).critical = true ∨ t.pc i = .done ∧ t.conbarLock = none) := by
  have hgoto : ∀ (u : State) (pc : Pc), u.pc = (s.goto i pc).pc → u.pc i = pc := by
    intro u pc hu
    rw [hu, State.goto_pc_self]
  simp only [step, stepAccess]
  cases hpc : s.pc i with
  | check =>
      simp only
      refine ⟨_, rfl, ?_⟩
      rw [State.goto_pc_self]
      split
      · exact ⟨by decide, Or.inl rfl⟩
      · exact ⟨by decide, Or.inl rfl⟩
  | remap k =>
      simp only
      cases hw : (remapWrites (acc i).mapAddr)[k]? with
      | none =>
          refine ⟨_, rfl, ?_⟩
          rw [State.goto_pc_self]
          refine ⟨?_, Or.inl rfl⟩
          show 3 < 4 + (8 - k)
          omega
      | some w =>
          refine ⟨_, rfl, ?_⟩
          have hlt := (List.getElem?_eq_some_iff.mp hw).1
          rw [length_remapWrites] at hlt
          rw [hgoto _ (.remap (k + 1)) rfl]
          refine ⟨?_, Or.inl rfl⟩
          show 4 + (8 - (k + 1)) < 4 + (8 - k)
          omega
  | setBase =>
      refine ⟨_, rfl, ?_⟩
      rw [hgoto _ .access rfl]
      exact ⟨by decide, Or.inl rfl⟩
  | access =>
      simp only
      cases (acc i).op with
      | none =>
          refine ⟨_, rfl, ?_⟩
          rw [hgoto _ .unlock rfl]
          exact ⟨by decide, Or.inl rfl⟩
      | some op =>
          cases op with
          | writel | readl | write16 | read16 =>
              refine ⟨_, rfl, ?_⟩
              rw [hgoto _ .unlock rfl]
              exact ⟨by decide, Or.inl rfl⟩
  | unlock =>
      refine ⟨_, rfl, ?_⟩
      rw [hgoto _ .done rfl]
      exact ⟨by decide, Or.inr ⟨rfl, rfl⟩⟩
  | enter | rejected | lock | done =>
      rw [hpc] at hcrit
      cases hcrit

end Window

namespace Machine

open Completion (HdmaRequest ReqPc Stage Base)
open Trajectory (Summary)
open StepSystem (Takes summary_takes)

section

variable {reqs : Nat → HdmaRequest} {regArgs : Nat → DpuRegArgs} {regs : Nat → BitVec 32}
  {s t : State} {i r : Nat}

/-! ## Accesses -/

def midway (s : State) (i : Nat) : Prop := s.win.pc i ≠ .enter ∧ returned s i = false

/-- An access that is midway belongs to an ioctl, or its request is at it. -/
theorem running_of_midway (h : (system reqs regArgs regs).Reachable s) :
    ∀ i, midway s i → Running reqs s i := by
  refine StepSystem.Reachable.invariant (I := fun s => ∀ i, midway s i → Running reqs s i)
    (fun s (hi : Initial reqs regArgs regs s) i hmid => absurd (hi.win.pc i) hmid.1)
    (fun s a t ih (hst : step reqs regArgs s a = some t) i hmid => ?_) h
  cases a with
  | comp a =>
      obtain ⟨hready, hcomp, hwin⟩ := step_comp hst
      have hpc : t.win.pc i = s.win.pc i := by
        rw [hwin]
        cases channelWrite reqs s.comp a <;> rfl
      have hret : returned t i = returned s i := by
        unfold returned
        rw [hpc]
      have hrun := ih i ⟨hpc ▸ hmid.1, hret ▸ hmid.2⟩
      rcases hrun with hioctl | ⟨hbatch, hlt⟩
      · exact Or.inl hioctl
      · rcases Completion.step_req_cases hcomp (i / accessStride) with
          hsame | rfl | ⟨ret, -, hfail⟩ | ⟨st, w, w', hw, -⟩
        · exact Or.inr ⟨hsame.trans hbatch, hlt⟩
        · -- the request goes on only after the access
          have hdone : returned s (batchAccess (i / accessStride) (i % accessStride)) = true := by
            simp only [Ready, hbatch] at hready
            exact hready hlt
          rw [show batchAccess (i / accessStride) (i % accessStride) = i from
            Nat.div_add_mod i accessStride, ← hret, hmid.2] at hdone
          cases hdone
        · rcases Completion.stepFail_at hfail with hpc' | hpc' <;> rw [hbatch] at hpc' <;>
            cases hpc'
        · rw [hbatch] at hw
          cases hw
  | access j v =>
      obtain ⟨hrun, hcomp, hwin⟩ := step_access hst
      have hkeep : Running reqs s i → Running reqs t i := by
        unfold Running
        rw [hcomp]
        exact id
      by_cases hij : i = j
      · subst hij
        exact hkeep hrun
      · have hpc := Window.step_pc_ne hwin hij
        refine hkeep (ih i ⟨hpc ▸ hmid.1, ?_⟩)
        have hret := hmid.2
        unfold returned at hret ⊢
        rwa [hpc] at hret

def OnlyAccess : Action → Prop
  | .access _ _ => True
  | .comp _ => False

structure SameBut (i : Nat) (s t : State) : Prop where
  comp : t.comp = s.comp
  others : ∀ j, j ≠ i → t.win.pc j = s.win.pc j

theorem running_congr (h : t.comp = s.comp) (hrun : Running reqs s i) : Running reqs t i := by
  unfold Running at hrun ⊢
  rwa [h]

theorem step_of_window {w : Window.State} {v : BitVec 32} (hrun : Running reqs s i)
    (h : Window.step (accesses reqs regArgs) s.win (.client i v) = some w) :
    (system reqs regArgs regs).step s (.access i v) = some ⟨s.comp, w⟩ := by
  show step reqs regArgs s (.access i v) = _
  simp only [step, hrun, if_true, h, Option.map_some]

theorem exit_access (regArgs : Nat → DpuRegArgs) (regs : Nat → BitVec 32)
    (hrun : Running reqs s i) (hcrit : (s.win.pc i).critical = true) :
    ∃ as t, (system reqs regArgs regs).Takes OnlyAccess s as t ∧ SameBut i s t ∧
      t.win.pc i = .done ∧ t.win.conbarLock = none := by
  have hround : ∀ u : State, SameBut i s u ∧
      ((u.win.pc i).critical = true ∨ u.win.pc i = .done ∧ u.win.conbarLock = none) →
      ¬ (u.win.pc i = .done ∧ u.win.conbarLock = none) →
      ∃ as t, (system reqs regArgs regs).Takes OnlyAccess u as t ∧ (SameBut i s t ∧
        ((t.win.pc i).critical = true ∨ t.win.pc i = .done ∧ t.win.conbarLock = none)) ∧
        ((t.win.pc i = .done ∧ t.win.conbarLock = none) ∨
          (t.win.pc i).left < (u.win.pc i).left) := by
    rintro u ⟨hsame, hpc⟩ hgoal
    have hin := hpc.resolve_right hgoal
    obtain ⟨w, hw, hleft, hnext⟩ := Window.step_critical (accesses reqs regArgs) hin 0
    have hone : OnlyAccess (.access i 0) := trivial
    refine ⟨_, ⟨u.comp, w⟩, Takes.one hone (step_of_window (running_congr hsame.comp hrun) hw),
      ⟨⟨hsame.comp, fun j hj => ?_⟩, hnext⟩, Or.inr hleft⟩
    exact (Window.step_pc_ne hw hj).trans (hsame.others j hj)
  obtain ⟨as, t, htakes, ⟨hsame, -⟩, hgoal⟩ := summary_takes.of_decreasing
    Nat.lt_wfRel.wf (fun u : State => (u.win.pc i).left) hround
    ⟨⟨rfl, fun _ _ => rfl⟩, Or.inl hcrit⟩
  exact ⟨as, t, htakes, hsame, hgoal⟩

theorem conbar_holder (h : (system reqs regArgs regs).Reachable s) {j : Nat}
    (hl : s.win.conbarLock = some j) : (s.win.pc j).critical = true ∧ Running reqs s j := by
  have hin := ((Window.coherent_of_reachable (win_reachable h)).locks j ()).mpr hl
  have hcrit : (s.win.pc j).critical = true := by
    unfold Window.inside at hin
    split at hin
    · assumption
    · cases hin
  refine ⟨hcrit, running_of_midway h j ⟨?_, ?_⟩⟩
  · intro hpc
    rw [hpc] at hcrit
    cases hcrit
  · unfold returned
    cases hpc : s.win.pc j <;> rw [hpc] at hcrit <;> first | rfl | cases hcrit

theorem lock_access (h : (system reqs regArgs regs).Reachable s) (hrun : Running reqs s i)
    (hpc : s.win.pc i = .lock) :
    ∃ as t, (system reqs regArgs regs).Takes OnlyAccess s as t ∧ t.comp = s.comp ∧
      t.win.pc i = .done := by
  have hfree : ∃ as t, (system reqs regArgs regs).Takes OnlyAccess s as t ∧ t.comp = s.comp ∧
      t.win.pc i = .lock ∧ t.win.conbarLock = none := by
    cases hl : s.win.conbarLock with
    | none => exact ⟨[], s, .nil s, rfl, hpc, hl⟩
    | some j =>
        obtain ⟨hcrit, hrunj⟩ := conbar_holder h hl
        obtain ⟨as, t, htakes, hsame, -, hnone⟩ := exit_access regArgs regs hrunj hcrit
        have hij : i ≠ j := by
          rintro rfl
          rw [hpc] at hcrit
          cases hcrit
        exact ⟨as, t, htakes, hsame.comp, (hsame.others i hij).trans hpc, hnone⟩
  obtain ⟨as, t, htakes, hcomp, hlock, hnone⟩ := hfree
  have hrun' := running_congr hcomp hrun
  have hst : Window.step (accesses reqs regArgs) t.win (.client i 0) =
      some { t.win.goto i .check with conbarLock := some i } := by
    simp only [Window.step, Window.stepAccess, hlock, hnone]
  have hone : OnlyAccess (.access i 0) := trivial
  have hcheck : ({ t.win.goto i .check with conbarLock := some i } : Window.State).pc i =
      .check := Window.State.goto_pc_self ..
  obtain ⟨as', u, htakes', hsame, hdone, -⟩ := exit_access (i := i)
    (s := ⟨t.comp, { t.win.goto i .check with conbarLock := some i }⟩) regArgs regs
    (running_congr rfl hrun') (by rw [hcheck]; rfl)
  refine ⟨_, u, summary_takes.append htakes (summary_takes.append
    (Takes.one hone (step_of_window hrun' hst)) htakes'), ?_, hdone⟩
  exact hsame.comp.trans hcomp

theorem return_access (h : (system reqs regArgs regs).Reachable s) (hrun : Running reqs s i) :
    ∃ as t, (system reqs regArgs regs).Takes OnlyAccess s as t ∧ t.comp = s.comp ∧
      returned t i = true := by
  have hdone : ∀ {u : State}, u.win.pc i = .done → returned u i = true := by
    intro u hpc
    unfold returned
    rw [hpc]
  cases hpc : s.win.pc i with
  | done => exact ⟨[], s, .nil s, rfl, hdone hpc⟩
  | rejected =>
      refine ⟨[], s, .nil s, rfl, ?_⟩
      unfold returned
      rw [hpc]
  | lock =>
      obtain ⟨as, t, htakes, hcomp, hpc'⟩ := lock_access h hrun hpc
      exact ⟨as, t, htakes, hcomp, hdone hpc'⟩
  | enter =>
      have hone : OnlyAccess (.access i 0) := trivial
      have hst : Window.step (accesses reqs regArgs) s.win (.client i 0) =
          some (s.win.goto i
            (if (accesses reqs regArgs i).accepted then .lock else .rejected)) := by
        simp only [Window.step, Window.stepAccess, hpc]
      have hstep : (system reqs regArgs regs).step s (.access i 0) = some ⟨s.comp, _⟩ :=
        step_of_window hrun hst
      have htake := Takes.one hone hstep
      split at htake
      · obtain ⟨as, t, htakes, hcomp, hpc'⟩ := lock_access (htake.reachable h)
          (running_congr rfl hrun) (Window.State.goto_pc_self ..)
        exact ⟨_, t, summary_takes.append htake htakes, hcomp, hdone hpc'⟩
      · refine ⟨_, _, htake, rfl, ?_⟩
        unfold returned
        rw [Window.State.goto_pc_self]
  | check | remap k | setBase | access | unlock =>
      obtain ⟨as, t, htakes, hsame, hpc', -⟩ := exit_access regArgs regs hrun
        (by rw [hpc]; rfl)
      exact ⟨as, t, htakes, hsame.comp, hdone hpc'⟩

/-! ## Stages -/

def stageLeft (q : HdmaRequest) : ReqPc → Nat
  | .program st k => 40 + ((q.writes st).length - k)
  | .setRunning _ => 39
  | .batch k => 20 + (q.regs.count - k)
  | .doorbell _ => 10
  | .wait _ (.check .woken) => 4
  | .wait _ .asleep => 3
  | .wait _ (.check _) => 2
  | .unlock _ _ => 1
  | _ => 0

def StageStep (q : HdmaRequest) (st : Stage) (pc pc' : ReqPc) : Prop :=
  pc'.critical = some st ∧ stageLeft q pc' < stageLeft q pc ∨
    ∃ ret, pc' = Completion.afterStage st ret

theorem stageLeft_afterRunning (q : HdmaRequest) (st : Stage) :
    stageLeft q (Completion.afterRunning st) < 39 := by
  cases st with
  | upload => exact (by decide : 10 < 39)
  | data =>
      have hcount := count_lt q.regs
      show 20 + (q.regs.count - 0) < 39
      simp only [regOperationMaxNum] at hcount
      omega

theorem stageLeft_check (q : HdmaRequest) (st : Stage) (why : Completion.Wake) :
    1 < stageLeft q (.wait st (.check why)) := by
  cases why with
  | woken => exact (by decide : 1 < 4)
  | timeout => exact (by decide : 1 < 2)
  | signal => exact (by decide : 1 < 2)

theorem stepRequest_enabled {c : Completion.State} {st : Stage}
    (hcrit : (c.req r).critical = some st) (hawake : ∀ st, c.req r ≠ .wait st .asleep) :
    ∃ c', Completion.stepRequest reqs c r = some c' := by
  unfold Completion.stepRequest
  cases hpc : c.req r with
  | program st' k =>
      simp only
      split <;> exact ⟨_, rfl⟩
  | setRunning st' => exact ⟨_, rfl⟩
  | batch k =>
      simp only
      split
      · split <;> exact ⟨_, rfl⟩
      · exact ⟨_, rfl⟩
  | doorbell st' =>
      simp only
      split <;> exact ⟨_, rfl⟩
  | wait st' w =>
      cases w with
      | asleep => exact absurd hpc (hawake st')
      | check why =>
          simp only
          split
          · exact ⟨_, rfl⟩
          · cases why <;> exact ⟨_, rfl⟩
  | unlock st' ret => exact ⟨_, rfl⟩
  | _ =>
      rw [hpc] at hcrit
      cases hcrit

theorem stageStep_of_step {c c' : Completion.State} {st : Stage}
    (hcrit : (c.req r).critical = some st) (h : Completion.stepRequest reqs c r = some c') :
    StageStep (reqs r) st (c.req r) (c'.req r) := by
  have hadv := Completion.stepRequest_advances h
  cases hpc : c.req r with
  | batch k =>
      rw [hpc] at hcrit
      rcases stepRequest_batch hpc h with ⟨hlt, -, hnext⟩ | hnext | ⟨-, hnext⟩
      · rw [hnext]
        refine Or.inl ⟨hcrit, ?_⟩
        show 20 + ((reqs r).regs.count - (k + 1)) < 20 + ((reqs r).regs.count - k)
        omega
      · rw [hnext]
        exact Or.inl ⟨hcrit, show 1 < 20 + _ by omega⟩
      · rw [hnext]
        exact Or.inl ⟨hcrit, show 10 < 20 + _ by omega⟩
  | program st' k =>
      rw [hpc] at hcrit hadv
      generalize c'.req r = pc' at hadv
      cases hadv with
      | program hw =>
          have hlt := (List.getElem?_eq_some_iff.mp hw).1
          refine Or.inl ⟨hcrit, ?_⟩
          show 40 + (((reqs r).writes st').length - (k + 1)) <
            40 + (((reqs r).writes st').length - k)
          omega
      | programEnd _ => exact Or.inl ⟨hcrit, show 39 < 40 + _ by omega⟩
  | setRunning st' =>
      rw [hpc] at hcrit hadv
      generalize c'.req r = pc' at hadv
      cases hadv
      refine Or.inl ⟨?_, stageLeft_afterRunning _ _⟩
      rw [← hcrit]
      cases st' <;> rfl
  | doorbell st' =>
      rw [hpc] at hcrit hadv
      generalize c'.req r = pc' at hadv
      cases hadv
      exact Or.inl ⟨hcrit, (by decide : 4 < 10)⟩
  | wait st' w =>
      rw [hpc] at hcrit hadv
      generalize c'.req r = pc' at hadv
      cases hadv with
      | sleep _ => exact Or.inl ⟨hcrit, (by decide : 3 < 4)⟩
      | complete _ => exact Or.inl ⟨hcrit, stageLeft_check _ _ _⟩
      | timeout _ => exact Or.inl ⟨hcrit, (by decide : 1 < 2)⟩
      | signal _ => exact Or.inl ⟨hcrit, (by decide : 1 < 2)⟩
  | unlock st' ret =>
      rw [hpc] at hcrit hadv
      obtain rfl : st' = st := Option.some.inj hcrit
      generalize c'.req r = pc' at hadv
      cases hadv
      exact Or.inr ⟨ret, rfl⟩
  | _ =>
      rw [hpc] at hcrit
      cases hcrit

/-! ## Requests -/

/-- What needs neither the device nor the completion thread. -/
def Unaided : Action → Prop
  | .comp (.request _) | .comp (.expire _) | .access _ _ => True
  | .comp _ => False

theorem unaided_of_access (a : Action) (h : OnlyAccess a) : Unaided a := by
  cases a with
  | access i v => trivial
  | comp a => exact h.elim

def Others (r : Nat) (s t : State) : Prop := ∀ j, j ≠ r → t.comp.req j = s.comp.req j

theorem step_of_comp {a : Completion.Action} {c : Completion.State}
    (hready : Ready reqs s a) (h : Completion.step reqs s.comp a = some c) :
    (system reqs regArgs regs).step s (.comp a) =
      some ⟨c, applyWrite s.win (channelWrite reqs s.comp a)⟩ := by
  show step reqs regArgs s (.comp a) = _
  simp only [step, hready, if_true, h, Option.map_some]

/-- Before its next statement a request lets the register write it is at return. -/
theorem ready_request (h : (system reqs regArgs regs).Reachable s) (r : Nat) :
    ∃ as t, (system reqs regArgs regs).Takes Unaided s as t ∧ t.comp = s.comp ∧
      Ready reqs t (.request r) := by
  cases hpc : s.comp.req r with
  | batch k =>
      by_cases hlt : k < (reqs r).regs.count
      · have hk : k < regOperationMaxNum := Nat.lt_trans hlt (count_lt _)
        have hrun : Running reqs s (batchAccess r k) := by
          refine Or.inr ?_
          rw [batchAccess_div r hk, batchAccess_mod r hk]
          exact ⟨hpc, hlt⟩
        obtain ⟨as, t, htakes, hcomp, hret⟩ := return_access h hrun
        refine ⟨as, t, htakes.mono unaided_of_access, hcomp, ?_⟩
        simp only [Ready, hcomp, hpc]
        exact fun _ => hret
      · refine ⟨[], s, .nil s, rfl, ?_⟩
        simp only [Ready, hpc]
        exact fun h => absurd h hlt
  | _ =>
      refine ⟨[], s, .nil s, rfl, ?_⟩
      simp only [Ready, hpc]

theorem take_request (h : (system reqs regArgs regs).Reachable s)
    {c : Completion.State} (hst : Completion.stepRequest reqs s.comp r = some c) :
    ∃ as t, (system reqs regArgs regs).Takes Unaided s as t ∧ t.comp = c := by
  obtain ⟨as, t, htakes, hcomp, hready⟩ := ready_request h r
  have hone : Unaided (.comp (.request r)) := trivial
  have hst' : Completion.step reqs t.comp (.request r) = some c := by
    rw [hcomp]
    exact hst
  exact ⟨_, _, summary_takes.append htakes (Takes.one hone (step_of_comp hready hst')), rfl⟩

theorem take_expire (regArgs : Nat → DpuRegArgs) (regs : Nat → BitVec 32) {st : Stage}
    (hpc : s.comp.req r = .wait st .asleep) :
    ∃ as t, (system reqs regArgs regs).Takes Unaided s as t ∧
      t.comp = s.comp.setReq r (.wait st (.check .timeout)) := by
  have hone : Unaided (.comp (.expire r)) := trivial
  have hst : Completion.step reqs s.comp (.expire r) =
      some (s.comp.setReq r (.wait st (.check .timeout))) := by
    simp only [Completion.step, Completion.stepExpire, hpc]
  have hready : Ready reqs s (.expire r) := trivial
  exact ⟨_, _, Takes.one hone (step_of_comp hready hst), rfl⟩

theorem take_stage (h : (system reqs regArgs regs).Reachable s) {st : Stage}
    (hcrit : (s.comp.req r).critical = some st) :
    ∃ as t, (system reqs regArgs regs).Takes Unaided s as t ∧ Others r s t ∧
      StageStep (reqs r) st (s.comp.req r) (t.comp.req r) := by
  by_cases hasleep : ∃ st', s.comp.req r = .wait st' .asleep
  · obtain ⟨st', hpc⟩ := hasleep
    obtain ⟨as, t, htakes, hcomp⟩ := take_expire regArgs regs hpc
    refine ⟨as, t, htakes, fun j hj => ?_, ?_⟩
    · rw [hcomp]
      exact Completion.State.setReq_req_ne _ hj _
    · rw [hcomp, Completion.State.setReq_req_self]
      rw [hpc] at hcrit ⊢
      exact Or.inl ⟨hcrit, (by decide : 2 < 3)⟩
  · obtain ⟨c, hc⟩ := stepRequest_enabled hcrit (not_exists.mp hasleep)
    obtain ⟨as, t, htakes, hcomp⟩ := take_request h hc
    refine ⟨as, t, htakes, fun j hj => ?_, ?_⟩
    · rw [hcomp]
      exact Completion.stepRequest_req_ne hc hj
    · rw [hcomp]
      exact stageStep_of_step hcrit hc

/-- The holder of a channel lock comes to the end of its stage, and no other request
moves. -/
theorem leave_stage (h : (system reqs regArgs regs).Reachable s) {st : Stage}
    (hcrit : (s.comp.req r).critical = some st) :
    ∃ as t, (system reqs regArgs regs).Takes Unaided s as t ∧ Others r s t ∧
      ∃ ret, t.comp.req r = Completion.afterStage st ret := by
  have hround : ∀ u : State, (system reqs regArgs regs).Reachable u ∧ Others r s u ∧
      ((u.comp.req r).critical = some st ∨ ∃ ret, u.comp.req r = Completion.afterStage st ret) →
      ¬ (∃ ret, u.comp.req r = Completion.afterStage st ret) →
      ∃ as t, (system reqs regArgs regs).Takes Unaided u as t ∧
        ((system reqs regArgs regs).Reachable t ∧ Others r s t ∧
          ((t.comp.req r).critical = some st ∨
            ∃ ret, t.comp.req r = Completion.afterStage st ret)) ∧
        ((∃ ret, t.comp.req r = Completion.afterStage st ret) ∨
          stageLeft (reqs r) (t.comp.req r) < stageLeft (reqs r) (u.comp.req r)) := by
    rintro u ⟨hu, hothers, hpc⟩ hgoal
    obtain ⟨as, t, htakes, hothers', hstep⟩ := take_stage hu (hpc.resolve_right hgoal)
    have hall : Others r s t := fun j hj => (hothers' j hj).trans (hothers j hj)
    rcases hstep with ⟨hin, hlt⟩ | hout
    · exact ⟨as, t, htakes, ⟨htakes.reachable hu, hall, Or.inl hin⟩, Or.inr hlt⟩
    · exact ⟨as, t, htakes, ⟨htakes.reachable hu, hall, Or.inr hout⟩, Or.inl hout⟩
  obtain ⟨as, t, htakes, ⟨-, hothers, -⟩, hgoal⟩ := summary_takes.of_decreasing
    Nat.lt_wfRel.wf (fun u : State => stageLeft (reqs r) (u.comp.req r)) hround
    ⟨h, fun _ _ => rfl, Or.inl hcrit⟩
  exact ⟨as, t, htakes, hothers, hgoal⟩

/-- A request at `spin_lock` takes the lock, after the stage of its holder. -/
theorem take_lock (h : (system reqs regArgs regs).Reachable s) {st : Stage}
    (hpc : s.comp.req r = .lock st) :
    ∃ as t, (system reqs regArgs regs).Takes Unaided s as t ∧
      t.comp.req r = .program st 0 := by
  have hfree : ∃ as t, (system reqs regArgs regs).Takes Unaided s as t ∧
      t.comp.req r = .lock st ∧ (t.comp.ctx ((reqs r).chan st)).lock = none := by
    cases hl : (s.comp.ctx ((reqs r).chan st)).lock with
    | none => exact ⟨[], s, .nil s, hpc, hl⟩
    | some q =>
        have hbase := Completion.base_of_reachable (comp_reachable h)
        obtain ⟨st', hcrit, hch⟩ := hbase.held hl
        have hne : r ≠ q := by
          rintro rfl
          rw [hpc] at hcrit
          cases hcrit
        obtain ⟨as, t, htakes, hothers, ret, hleft⟩ := leave_stage h hcrit
        refine ⟨as, t, htakes, (hothers r hne).trans hpc, ?_⟩
        -- another holder held it before
        cases hl' : (t.comp.ctx ((reqs r).chan st)).lock with
        | none => rfl
        | some q' =>
            have hbase' := Completion.base_of_reachable (comp_reachable (htakes.reachable h))
            obtain ⟨st'', hcrit'', hch''⟩ := hbase'.held hl'
            have hqq : q' ≠ q := by
              rintro rfl
              rw [hleft, Completion.afterStage_critical] at hcrit''
              cases hcrit''
            rw [hothers q' hqq] at hcrit''
            have hheld := hbase.holds hcrit''
            rw [hch'', hl] at hheld
            exact absurd (Option.some.inj hheld).symm hqq
  obtain ⟨as, t, htakes, hpc', hnone⟩ := hfree
  obtain ⟨c, hc, hreq⟩ : ∃ c, Completion.stepRequest reqs t.comp r = some c ∧
      c.req r = .program st 0 := by
    refine ⟨_, by simp only [Completion.stepRequest, hpc', hnone]; rfl, ?_⟩
    exact Completion.State.setReq_req_self ..
  obtain ⟨as', u, htakes', hcomp⟩ := take_request (htakes.reachable h) hc
  exact ⟨_, u, summary_takes.append htakes htakes', by rw [hcomp, hreq]⟩

theorem rank_critical {pc : ReqPc} {st : Stage} (h : pc.critical = some st) :
    pc.rank ≤ st.base + 8 := by
  cases pc <;> simp only [ReqPc.critical, Option.some.injEq, reduceCtorEq] at h
  all_goals subst h
  all_goals simp [ReqPc.rank]

theorem rank_le_done (pc : ReqPc) : pc.rank ≤ 21 := by
  have hbase : ∀ st : Stage, st.base ≤ 10 := by
    intro st
    cases st <;> decide
  cases pc with
  | lock st | program st _ | setRunning st | doorbell st | wait st _ | unlock st _ =>
      have hst := hbase st
      simp only [ReqPc.rank]
      omega
  | setupSg | setDesc | batch _ | teardownDesc _ | teardownSg _ | done _ =>
      simp only [ReqPc.rank, Stage.base]
      omega

theorem rank_lt_afterStage (st : Stage) (ret : Int) :
    st.base + 8 < (Completion.afterStage st ret).rank := by
  cases st with
  | upload =>
      by_cases hret : ret = 0
      · simp [Completion.afterStage, hret, ReqPc.rank, Stage.base]
      · simp [Completion.afterStage, hret, ReqPc.rank, Stage.base]
  | data => simp [Completion.afterStage, ReqPc.rank, Stage.base]

theorem advance_request (h : (system reqs regArgs regs).Reachable s)
    (hpc : ∀ ret, s.comp.req r ≠ .done ret) :
    ∃ as t, (system reqs regArgs regs).Takes Unaided s as t ∧
      (s.comp.req r).rank < (t.comp.req r).rank := by
  have hown : ∀ pc', Completion.stepRequest reqs s.comp r = some (s.comp.setReq r pc') →
      (s.comp.req r).rank < pc'.rank →
      ∃ as t, (system reqs regArgs regs).Takes Unaided s as t ∧
        (s.comp.req r).rank < (t.comp.req r).rank := by
    intro pc' hst hlt
    obtain ⟨as, t, htakes, hcomp⟩ := take_request h hst
    exact ⟨as, t, htakes, by rwa [hcomp, Completion.State.setReq_req_self]⟩
  cases hcrit : (s.comp.req r).critical with
  | some st =>
      obtain ⟨as, t, htakes, -, ret, hleft⟩ := leave_stage h hcrit
      refine ⟨as, t, htakes, ?_⟩
      rw [hleft]
      exact Nat.lt_of_le_of_lt (rank_critical hcrit) (rank_lt_afterStage st ret)
  | none =>
      cases hnow : s.comp.req r with
      | setupSg =>
          rw [← hnow]
          refine hown .setDesc ?_ (by rw [hnow]; decide)
          simp only [Completion.stepRequest, hnow]
      | setDesc =>
          rw [← hnow]
          refine hown (.lock .upload) ?_ (by rw [hnow]; decide)
          simp only [Completion.stepRequest, hnow]
      | lock st =>
          obtain ⟨as, t, htakes, hpc'⟩ := take_lock h hnow
          refine ⟨as, t, htakes, ?_⟩
          rw [hpc']
          exact Nat.lt_succ_self _
      | teardownDesc ret =>
          rw [← hnow]
          refine hown (.teardownSg ret) ?_ (by rw [hnow]; exact Nat.lt_succ_self _)
          simp only [Completion.stepRequest, hnow]
      | teardownSg ret =>
          rw [← hnow]
          refine hown (.done (if ret = 0 then 0 else (reqs r).errorReturn ret)) ?_
            (by rw [hnow]; exact Nat.lt_succ_self _)
          simp only [Completion.stepRequest, hnow]
      | done ret => exact absurd hnow (hpc ret)
      | program _ _ | setRunning _ | batch _ | doorbell _ | wait _ _ | unlock _ _ =>
          rw [hnow] at hcrit
          cases hcrit

theorem return_request (h : (system reqs regArgs regs).Reachable s) (r : Nat) :
    ∃ as t, (system reqs regArgs regs).Takes Unaided s as t ∧
      ∃ ret, t.comp.req r = .done ret := by
  have hround : ∀ u : State, (system reqs regArgs regs).Reachable u →
      ¬ (∃ ret, u.comp.req r = .done ret) →
      ∃ as t, (system reqs regArgs regs).Takes Unaided u as t ∧
        (system reqs regArgs regs).Reachable t ∧
        ((∃ ret, t.comp.req r = .done ret) ∨
          21 - (t.comp.req r).rank < 21 - (u.comp.req r).rank) := by
    intro u hu hgoal
    obtain ⟨as, t, htakes, hlt⟩ := advance_request hu (not_exists.mp hgoal)
    refine ⟨as, t, htakes, htakes.reachable hu, Or.inr ?_⟩
    have hle := rank_le_done (t.comp.req r)
    omega
  obtain ⟨as, t, htakes, -, hgoal⟩ := summary_takes.of_decreasing
    Nat.lt_wfRel.wf (fun u : State => 21 - (u.comp.req r).rank) hround h
  exact ⟨as, t, htakes, hgoal⟩

/-! ## Everything that was called -/

theorem done_stays {a : Action} {ret : Int} (h : s.comp.req r = .done ret)
    (hst : (system reqs regArgs regs).step s a = some t) : t.comp.req r = .done ret := by
  replace hst : step reqs regArgs s a = some t := hst
  cases a with
  | access i v => rw [(step_access hst).2.1, h]
  | comp a =>
      obtain ⟨-, hcomp, -⟩ := step_comp hst
      rcases Completion.step_req_cases hcomp r with hsame | rfl | ⟨ret', -, hfail⟩ |
        ⟨_, _, _, hw, _⟩
      · exact hsame.trans h
      · have hadv := Completion.stepRequest_advances hcomp
        rw [h] at hadv
        generalize t.comp.req r = pc' at hadv
        cases hadv
      · rcases Completion.stepFail_at hfail with hpc | hpc <;> rw [h] at hpc <;> cases hpc
      · rw [h] at hw
        cases hw

theorem returned_stays {a : Action} (h : returned s i = true)
    (hst : (system reqs regArgs regs).step s a = some t) : returned t i = true := by
  have hcongr : t.win.pc i = s.win.pc i → returned t i = true := by
    intro hpc
    unfold returned at h ⊢
    rwa [hpc]
  replace hst : step reqs regArgs s a = some t := hst
  cases a with
  | comp a =>
      obtain ⟨-, -, hwin⟩ := step_comp hst
      refine hcongr ?_
      rw [hwin]
      cases channelWrite reqs s.comp a <;> rfl
  | access j v =>
      obtain ⟨-, -, hwin⟩ := step_access hst
      by_cases hij : i = j
      · subst hij
        unfold returned at h
        simp only [Window.step, Window.stepAccess] at hwin
        split at h
        · rename_i hpc
          rw [hpc] at hwin
          cases hwin
        · rename_i hpc
          rw [hpc] at hwin
          cases hwin
        · cases h
      · exact hcongr (Window.step_pc_ne hwin hij)

/-- In every state of every run the driver can go on by itself, with neither the device
nor the completion thread taking a step, until any given HDMA requests and register ioctls
have all returned. -/
theorem can_return (h : (system reqs regArgs regs).Reachable s) (rs js : List Nat) :
    ∃ as t, (system reqs regArgs regs).Takes Unaided s as t ∧
      (∀ r ∈ rs, ∃ ret, t.comp.req r = .done ret) ∧
      ∀ j ∈ js, returned t (ioctlAccess j) = true := by
  have hreqs : ∃ as t, (system reqs regArgs regs).Takes Unaided s as t ∧
      ∀ r ∈ rs, ∃ ret, t.comp.req r = .done ret := by
    induction rs with
    | nil => exact ⟨[], s, .nil s, fun r hr => absurd hr List.not_mem_nil⟩
    | cons r rest ih =>
        obtain ⟨as, t, htakes, hall⟩ := ih
        obtain ⟨as', u, htakes', hdone⟩ := return_request (htakes.reachable h) r
        refine ⟨_, u, summary_takes.append htakes htakes', fun q hq => ?_⟩
        rcases List.mem_cons.mp hq with rfl | hq
        · exact hdone
        · obtain ⟨ret, hret⟩ := hall q hq
          exact ⟨ret, htakes'.keeps (I := fun s => s.comp.req q = .done ret)
            (fun _ _ _ _ hd hst => done_stays hd hst) hret⟩
  obtain ⟨as, t, htakes, hall⟩ := hreqs
  suffices hregs : ∃ as u, (system reqs regArgs regs).Takes Unaided t as u ∧
      ∀ j ∈ js, returned u (ioctlAccess j) = true by
    obtain ⟨as', u, htakes', hret⟩ := hregs
    refine ⟨_, u, summary_takes.append htakes htakes', fun r hr => ?_, hret⟩
    obtain ⟨ret, hdone⟩ := hall r hr
    exact ⟨ret, htakes'.keeps (I := fun s => s.comp.req r = .done ret)
      (fun _ _ _ _ hd hst => done_stays hd hst) hdone⟩
  induction js with
  | nil => exact ⟨[], t, .nil t, fun j hj => absurd hj List.not_mem_nil⟩
  | cons j rest ih =>
      obtain ⟨as', u, htakes', hret⟩ := ih
      have hrun : Running reqs u (ioctlAccess j) := by
        refine Or.inl ?_
        simp only [ioctlAccess, accessStride, regOperationMaxNum]
        omega
      obtain ⟨as'', w, htakes'', -, hj⟩ :=
        return_access (htakes'.reachable (htakes.reachable h)) hrun
      have hmono := htakes''.mono unaided_of_access
      refine ⟨_, w, summary_takes.append htakes' hmono, fun q hq => ?_⟩
      rcases List.mem_cons.mp hq with rfl | hq
      · exact hj
      · exact hmono.keeps (I := fun s => returned s (ioctlAccess q) = true)
          (fun _ _ _ _ hd hst => returned_stays hd hst) (hret q hq)

end

/-- Request 0 sleeps with the lock of its channel, and request 1 spins for it. -/
theorem spinning_returns :
    ∃ s, (system batched pokes fun _ => 0).Reachable s ∧ s.comp.req 0 = .wait .upload .asleep ∧
      s.comp.req 1 = .lock .upload ∧ (s.comp.ctx ⟨.rd, 0⟩).lock = some 0 ∧
      ∃ as t, (system batched pokes fun _ => 0).Takes Unaided s as t ∧
        (∀ r ∈ [0, 1], ∃ ret, t.comp.req r = .done ret) ∧
        ∀ j ∈ [0], returned t (ioctlAccess j) = true := by
  obtain ⟨s, hs, hasleep, hspin, hlock⟩ := StepSystem.exists_reachVia
    (S := system batched pokes fun _ => 0) (g := fun _ _ => True) (s := probedDriver)
    (fun s => s.comp.req 0 = .wait .upload .asleep ∧ s.comp.req 1 = .lock .upload ∧
      (s.comp.ctx ⟨.rd, 0⟩).lock = some 0)
    (List.replicate 16 (.comp (.request 0)) ++ List.replicate 2 (.comp (.request 1)))
    (.start probedDriver_initial) (by decide +kernel)
  exact ⟨s, hs, hasleep, hspin, hlock, can_return hs [0, 1] [0]⟩

end Machine
end EonDrv

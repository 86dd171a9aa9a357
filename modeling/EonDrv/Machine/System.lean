import EonDrv.Completion.Base
import EonDrv.Window.Coherence

/-!
# The whole driver on one register BAR

The completion path and the register window, step by step next to each other.
They share `bar[ATU_HDMA_BAR]`: the channel blocks that the requests and the
thread write, and the iATU block that a moved window is programmed into.  A write
of a register batch is an access of its own under `conbar_lock`, made while the
request holds its channel lock.

What an access reads or writes through its window is at the SoC, and not in this
BAR.
-/

namespace EonDrv
namespace Machine

open Completion (HdmaRequest)
open RegisterFile (store)

/-- The batch writes of a request and one register ioctl, numbered together. -/
def accessStride : Nat := regOperationMaxNum + 1

def batchAccess (r k : Nat) : Nat := accessStride * r + k
def ioctlAccess (j : Nat) : Nat := accessStride * j + regOperationMaxNum

section

variable (reqs : Nat → HdmaRequest) (regArgs : Nat → DpuRegArgs)

/-- Write `k` of the batch of a request, as `dma_llmode_transmit` passes it on. -/
def batchArgs (r k : Nat) : DpuRegArgs :=
  let w := (reqs r).regs.write k
  ⟨w.regAddr, w.regData, regWrite⟩

def accesses (i : Nat) : Window.Access :=
  let n := i / accessStride
  let k := i % accessStride
  if k = regOperationMaxNum then ⟨.eonRwReg, regArgs n⟩
  else ⟨.regsOperations, batchArgs reqs n k⟩

/-- `win.regs` is the BAR by offset, channel blocks included. -/
structure State where
  comp : Completion.State
  win : Window.State

/-- `regs_operations` has returned. -/
def returned (s : State) (i : Nat) : Bool :=
  match s.win.pc i with
  | .done | .rejected => true
  | _ => false

/-- Whether a party may take its next statement: a batch goes on after the access
it made, and the access runs while its request is at it. -/
def Ready (s : State) : Completion.Action → Prop
  | .request r =>
    match s.comp.req r with
    | .batch k => k < (reqs r).regs.count → returned s (batchAccess r k) = true
    | _ => True
  | _ => True

def Running (s : State) (i : Nat) : Prop :=
  let n := i / accessStride
  let k := i % accessStride
  k = regOperationMaxNum ∨ s.comp.req n = .batch k ∧ k < (reqs n).regs.count

instance (s : State) (a : Completion.Action) : Decidable (Ready reqs s a) := by
  unfold Ready
  rcases a with r | _ | _ | _ | _ | _ | _ | _ | _ <;> dsimp only <;> try infer_instance
  rcases s.comp.req r <;> infer_instance

instance (s : State) (i : Nat) : Decidable (Running reqs s i) :=
  inferInstanceAs (Decidable (_ ∨ _ ∧ _))

def channelWrite (c : Completion.State) : Completion.Action → Option (Chan × HdmaReg × BitVec 32)
  | .request r =>
    match c.req r with
    | .program st k => (((reqs r).writes st)[k]?).map fun w => ((reqs r).chan st, w)
    | .doorbell st =>
      if (reqs r).rings st then some ((reqs r).chan st, .doorbell, 1#32) else none
    | _ => none
  | .thread =>
    match c.thread.pc with
    | .clear _ ch status => some (ch, .intClear, hdmaClearIntrStatus status.value)
    | _ => none
  | _ => none

def applyWrite (w : Window.State) : Option (Chan × HdmaReg × BitVec 32) → Window.State
  | some (ch, reg, val) => { w with regs := store w.regs (hdmaRegOff ch reg, val) }
  | none => w

inductive Action
  | comp (a : Completion.Action)
  | access (i : Nat) (v : BitVec 32)

def step (s : State) : Action → Option State
  | .comp a =>
    if Ready reqs s a then
      (Completion.step reqs s.comp a).map fun c =>
        ⟨c, applyWrite s.win (channelWrite reqs s.comp a)⟩
    else none
  | .access i v =>
    if Running reqs s i then
      (Window.step (accesses reqs regArgs) s.win (.client i v)).map fun w => ⟨s.comp, w⟩
    else none

/-- The state `eon_probe` leaves, over registers that hold anything. -/
structure Initial (regs : Nat → BitVec 32) (s : State) : Prop where
  comp : Completion.Initial s.comp
  win : Window.Initial regs (accesses reqs regArgs) s.win

def system (regs : Nat → BitVec 32) : StepSystem State Action where
  init := Initial reqs regArgs regs
  step := step reqs regArgs

end

/-! ## What one step can do -/

section

variable {reqs : Nat → HdmaRequest} {regArgs : Nat → DpuRegArgs}

theorem step_comp {s t : State} {a : Completion.Action}
    (h : step reqs regArgs s (.comp a) = some t) :
    Ready reqs s a ∧ Completion.step reqs s.comp a = some t.comp ∧
      t.win = applyWrite s.win (channelWrite reqs s.comp a) := by
  simp only [step] at h
  split at h
  · rename_i hready
    obtain ⟨c, hc, rfl⟩ := Option.map_eq_some_iff.mp h
    exact ⟨hready, hc, rfl⟩
  · cases h

theorem step_access {s t : State} {i : Nat} {v : BitVec 32}
    (h : step reqs regArgs s (.access i v) = some t) :
    Running reqs s i ∧ t.comp = s.comp ∧
      Window.step (accesses reqs regArgs) s.win (.client i v) = some t.win := by
  simp only [step] at h
  split at h
  · rename_i hrun
    obtain ⟨w, hw, rfl⟩ := Option.map_eq_some_iff.mp h
    exact ⟨hrun, rfl, hw⟩
  · cases h

/-- The window sees a statement of the completion path as a channel write, or not
at all. -/
theorem applyWrite_cases (acc : Nat → Window.Access) (w : Window.State)
    (o : Option (Chan × HdmaReg × BitVec 32)) :
    applyWrite w o = w ∨
      ∃ ch reg val, o = some (ch, reg, val) ∧
        Window.step acc w (.channel ch reg val) = some (applyWrite w o) := by
  cases o with
  | none => exact Or.inl rfl
  | some p => exact Or.inr ⟨p.1, p.2.1, p.2.2, rfl, rfl⟩

/-! ## The two components -/

theorem comp_reachable {regs : Nat → BitVec 32} {s : State}
    (h : (system reqs regArgs regs).Reachable s) : (Completion.system reqs).Reachable s.comp := by
  refine h.map (T := Completion.system reqs) State.comp
    (fun _ (hi : Initial reqs regArgs regs _) => hi.comp)
    fun s a t _ (hst : step reqs regArgs s a = some t) => ?_
  cases a with
  | comp a => exact Or.inr ⟨a, trivial, (step_comp hst).2.1⟩
  | access i v => exact Or.inl (step_access hst).2.1

theorem win_reachable {regs : Nat → BitVec 32} {s : State}
    (h : (system reqs regArgs regs).Reachable s) :
    (Window.system regs (accesses reqs regArgs)).Reachable s.win := by
  refine h.map (T := Window.system regs (accesses reqs regArgs)) State.win
    (fun _ (hi : Initial reqs regArgs regs _) => hi.win)
    fun s a t _ (hst : step reqs regArgs s a = some t) => ?_
  cases a with
  | comp a =>
      obtain ⟨-, -, hwin⟩ := step_comp hst
      rcases applyWrite_cases (accesses reqs regArgs) s.win (channelWrite reqs s.comp a) with
        hsame | ⟨ch, reg, val, -, hch⟩
      · exact Or.inl (hwin.trans hsame)
      · exact Or.inr ⟨.channel ch reg val, trivial, hch.trans (congrArg some hwin.symm)⟩
  | access i v => exact Or.inr ⟨.client i v, trivial, (step_access hst).2.2⟩

end

end Machine
end EonDrv

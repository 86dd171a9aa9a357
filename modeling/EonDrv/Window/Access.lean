import EonDrv.Window.Iatu
import EonDrv.Support.Locks
import EonDrv.Support.StepSystem

/-!
# The register window

`eon_rw_reg` and `regs_operations` reach SoC registers through a 16M window of
`bar[CONFIG_BAR_INDEX]`, whose target `config_bar_base` caches.  Any number of
accesses run one statement at a time, with the section under `conbar_lock`
spelled out, next to writes of channel registers in the same BAR as the iATU.
-/

namespace EonDrv
namespace Window

open RegisterFile (Holds store storeAll)

inductive Path
  | eonRwReg
  | regsOperations
  deriving DecidableEq

inductive IoOp
  | writel
  | readl
  | write16
  | read16
  deriving DecidableEq

structure Access where
  path : Path
  args : DpuRegArgs

/-- The `switch` on `rw_flag`.  `regs_operations` has no 16-bit cases. -/
def Access.op (x : Access) : Option IoOp :=
  if x.args.rwFlag = regWrite then some .writel
  else if x.args.rwFlag = regRead then some .readl
  else
    match x.path with
    | .regsOperations => none
    | .eonRwReg =>
      if x.args.rwFlag = regWrite16 then some .write16
      else if x.args.rwFlag = regRead16 then some .read16
      else none

def Access.accepted (x : Access) : Bool := regAddrAccepted x.args.regAddr

def Access.offset (x : Access) : BitVec 64 := x.args.regAddr &&& (configBarSize - 1)

def Access.mapAddr (x : Access) : BitVec 64 := x.args.regAddr - x.offset

inductive Pc
  | enter
  | rejected
  | lock
  | check
  | remap (k : Nat)
  | setBase
  | access
  | unlock
  | done
  deriving DecidableEq

def Pc.critical : Pc → Bool
  | .check | .remap _ | .setBase | .access | .unlock => true
  | _ => false

/-- From the first write of the remap to the store of `config_bar_base`. -/
def Pc.remapping : Pc → Bool
  | .remap (_ + 1) | .setBase => true
  | _ => false

/-- An access that reached the SoC, at the byte `soc`. -/
structure Entry where
  client : Nat
  op : IoOp
  soc : BitVec 64
  value : BitVec 32
  deriving DecidableEq

/-- `regs` is `bar[ATU_HDMA_BAR]` by offset, and `data` the `reg_data` of each
access. -/
structure State where
  regs : Nat → BitVec 32
  configBarBase : BitVec 64
  conbarLock : Option Nat
  pc : Nat → Pc
  data : Nat → BitVec 32
  log : List Entry

def State.goto (s : State) (i : Nat) (pc : Pc) : State :=
  { s with pc := Function.update s.pc i pc }

/-- The next statement of access `i`.  `v` is what a read would return. -/
def stepAccess (acc : Nat → Access) (s : State) (i : Nat) (v : BitVec 32) : Option State :=
  let x := acc i
  match s.pc i with
  | .enter => some (s.goto i (if x.accepted then .lock else .rejected))
  | .lock =>
    match s.conbarLock with
    | none => some { s.goto i .check with conbarLock := some i }
    | some _ => none
  | .check => some (s.goto i (if x.mapAddr ≠ s.configBarBase then .remap 0 else .access))
  | .remap k =>
    match (remapWrites x.mapAddr)[k]? with
    | some w => some { s.goto i (.remap (k + 1)) with regs := store s.regs w }
    | none => some (s.goto i .setBase)
  | .setBase => some { s.goto i .access with configBarBase := x.mapAddr }
  | .access =>
    -- an access at `offset` of the BAR reaches `offset` in the target of region 1
    let soc := target s.regs .inbound 1 + x.offset
    let d := s.data i
    match x.op with
    | some .writel => some { s.goto i .unlock with log := ⟨i, .writel, soc, d⟩ :: s.log }
    | some .readl =>
      some { s.goto i .unlock with
        log := ⟨i, .readl, soc, v⟩ :: s.log
        data := Function.update s.data i v }
    | some .write16 =>
      some { s.goto i .unlock with
        log := ⟨i, .write16, soc, (d.truncate 16).zeroExtend 32⟩ :: s.log }
    | some .read16 =>
      some { s.goto i .unlock with
        log := ⟨i, .read16, soc, (v.truncate 16).zeroExtend 32⟩ :: s.log
        data := Function.update s.data i ((v.truncate 16).zeroExtend 32) }
    | none => some (s.goto i .unlock)
  | .unlock => some { s.goto i .done with conbarLock := none }
  | .rejected => none
  | .done => none

inductive Action
  | client (i : Nat) (v : BitVec 32)
  -- `hdma_writel` and `eon_writel` to a channel register
  | channel (ch : Chan) (r : HdmaReg) (v : BitVec 32)

def step (acc : Nat → Access) (s : State) : Action → Option State
  | .client i v => stepAccess acc s i v
  | .channel ch r v => some { s with regs := store s.regs (hdmaRegOff ch r, v) }

/-- The state `eon_probe` leaves: the writes of `iatu_config` over registers that
hold anything, and no window yet. -/
structure Initial (regs : Nat → BitVec 32) (acc : Nat → Access) (s : State) : Prop where
  regs : s.regs = storeAll regs iatuConfig
  base : s.configBarBase = 0
  lock : s.conbarLock = none
  pc : ∀ i, s.pc i = .enter
  data : ∀ i, s.data i = (acc i).args.regData
  log : s.log = []

def system (regs : Nat → BitVec 32) (acc : Nat → Access) : StepSystem State Action where
  init := Initial regs acc
  step := step acc

/-! ## What one statement can do -/

section

variable (acc : Nat → Access)

inductive Fires : State → Action → State → Prop
  | accept {s : State} {i : Nat} {v : BitVec 32} :
      s.pc i = .enter → (acc i).accepted = true → Fires s (.client i v) (s.goto i .lock)
  | reject {s : State} {i : Nat} {v : BitVec 32} :
      s.pc i = .enter → (acc i).accepted = false → Fires s (.client i v) (s.goto i .rejected)
  | lock {s : State} {i : Nat} {v : BitVec 32} :
      s.pc i = .lock → s.conbarLock = none →
      Fires s (.client i v) { s.goto i .check with conbarLock := some i }
  | miss {s : State} {i : Nat} {v : BitVec 32} :
      s.pc i = .check → (acc i).mapAddr ≠ s.configBarBase →
      Fires s (.client i v) (s.goto i (.remap 0))
  | hit {s : State} {i : Nat} {v : BitVec 32} :
      s.pc i = .check → s.configBarBase = (acc i).mapAddr →
      Fires s (.client i v) (s.goto i .access)
  | write {s : State} {i k : Nat} {v : BitVec 32} {w : Nat × BitVec 32} :
      s.pc i = .remap k → (remapWrites (acc i).mapAddr)[k]? = some w →
      Fires s (.client i v) { s.goto i (.remap (k + 1)) with regs := store s.regs w }
  | mapped {s : State} {i k : Nat} {v : BitVec 32} :
      s.pc i = .remap k → (remapWrites (acc i).mapAddr)[k]? = none →
      Fires s (.client i v) (s.goto i .setBase)
  | setBase {s : State} {i : Nat} {v : BitVec 32} :
      s.pc i = .setBase →
      Fires s (.client i v) { s.goto i .access with configBarBase := (acc i).mapAddr }
  | access {s : State} {i : Nat} {v : BitVec 32} {op : IoOp} {x : BitVec 32}
      {data : Nat → BitVec 32} :
      s.pc i = .access →
      Fires s (.client i v)
        { s.goto i .unlock with
          log := ⟨i, op, target s.regs .inbound 1 + (acc i).offset, x⟩ :: s.log
          data := data }
  | skip {s : State} {i : Nat} {v : BitVec 32} :
      s.pc i = .access → Fires s (.client i v) (s.goto i .unlock)
  | unlock {s : State} {i : Nat} {v : BitVec 32} :
      s.pc i = .unlock →
      Fires s (.client i v) { s.goto i .done with conbarLock := none }
  | channel {s : State} {ch : Chan} {r : HdmaReg} {v : BitVec 32} :
      Fires s (.channel ch r v) { s with regs := store s.regs (hdmaRegOff ch r, v) }

variable {acc}

theorem fires_of_step {s t : State} {a : Action} (h : step acc s a = some t) :
    Fires acc s a t := by
  cases a with
  | channel ch r v =>
      simp only [step, Option.some.injEq] at h
      exact h ▸ .channel
  | client i v =>
      simp only [step, stepAccess] at h
      cases hpc : s.pc i with
      | enter =>
          simp only [hpc, Option.some.injEq] at h
          cases hacc : (acc i).accepted with
          | true =>
              rw [hacc] at h
              exact h ▸ .accept hpc hacc
          | false =>
              rw [hacc] at h
              exact h ▸ .reject hpc hacc
      | lock =>
          simp only [hpc] at h
          cases hl : s.conbarLock with
          | none =>
              simp only [hl, Option.some.injEq] at h
              exact h ▸ .lock hpc hl
          | some j => simp [hl] at h
      | check =>
          simp only [hpc, Option.some.injEq] at h
          by_cases hbase : (acc i).mapAddr ≠ s.configBarBase
          · rw [if_pos hbase] at h
            exact h ▸ .miss hpc hbase
          · rw [if_neg hbase] at h
            exact h ▸ .hit hpc (not_not.mp hbase).symm
      | remap k =>
          simp only [hpc] at h
          cases hw : (remapWrites (acc i).mapAddr)[k]? with
          | none =>
              simp only [hw, Option.some.injEq] at h
              exact h ▸ .mapped hpc hw
          | some w =>
              simp only [hw, Option.some.injEq] at h
              exact h ▸ .write hpc hw
      | setBase =>
          simp only [hpc, Option.some.injEq] at h
          exact h ▸ .setBase hpc
      | access =>
          simp only [hpc] at h
          split at h <;> simp only [Option.some.injEq] at h
          · exact h ▸ .access hpc
          · exact h ▸ .access hpc
          · exact h ▸ .access hpc
          · exact h ▸ .access hpc
          · exact h ▸ .skip hpc
      | unlock =>
          simp only [hpc, Option.some.injEq] at h
          exact h ▸ .unlock hpc
      | rejected => simp [hpc] at h
      | done => simp [hpc] at h

end

end Window
end EonDrv

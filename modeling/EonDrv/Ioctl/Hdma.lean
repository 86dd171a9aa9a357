import EonDrv.Ioctl.Stages

/-!
# The ioctl entry points

`eon_hdma`, `eon_rw_reg` and `device_ioctl`.  The four stages of a transfer are a
parameter here, so that every combination of their results is a run.
-/

namespace EonDrv.Ioctl

open Ledger (Use)

inductive Stage
  | dpuSetupSg
  | setHdmaDesc
  | tranferDesc
  | dmaLlmodeTransmit
  deriving DecidableEq

structure Stages where
  dpuSetupSg : DpuXferInfo → BitVec 64 → Traced Effect (Int × DpuXferInfo)
  setHdmaDesc : DpuXferInfo → DpuDescInfo → Traced Effect (Int × DpuDescInfo)
  tranferDesc : Chan → DpuDescInfo → Traced Effect Int
  dmaLlmodeTransmit : Chan → DpuDescInfo → BitVec 32 → RegInfos → Traced Effect Int

def Kernel.stages (k : Kernel) : Stages where
  dpuSetupSg := dpuSetupSg k
  setHdmaDesc := fun xfer desc => do
    let (ret, desc, _) ← setHdmaDesc k xfer desc
    return (ret, desc)
  tranferDesc := tranferDesc k
  dmaLlmodeTransmit := dmaLlmodeTransmit k

inductive Event
  | effect (e : Effect)
  | returned (dir : DmaDir) (stage : Stage) (code : Int)

def quiet {α : Type} (m : Traced Effect α) : Traced Event α := m.mapTrace .effect

def stage {α : Type} (dir : DmaDir) (s : Stage) (code : α → Int) (m : Traced Effect α) :
    Traced Event α :=
  ⟨m.val, m.trace.map .effect ++ [.returned dir s (code m.val)]⟩

/-! ## Transfers -/

/-- `= { 0 }`, with the fields that the two functions set. -/
def initXfer (src dst len : BitVec 64) (dir : DmaDir) : DpuXferInfo where
  sgt := ⟨0#64, []⟩
  sglen := 0#32
  align := ⟨src, dst, 0#64⟩
  hmemInfo := ⟨0#64, 0#64, fun _ => 0#64, 0#32⟩
  size := len
  dir := dir

def initDesc (descAddr : BitVec 64) (dir : DmaDir) : DpuDescInfo :=
  ⟨0#64, 0#64, 0#64, 0#64, descAddr, dir⟩

/-- The arguments of a transfer.  The table is uploaded through `chDesc`. -/
structure Transfer where
  chDesc : Chan
  chData : Chan
  xfer : DpuXferInfo
  hostAddr : BitVec 64
  descAddr : BitVec 64
  enable : BitVec 32
  regs : RegInfos

/-- The body of the two transfer functions.  They differ in `err`, what the error
labels return for a stage that failed. -/
def hdmaTransfer (st : Stages) (t : Transfer) (err : Int → Int) : Traced Event Int := do
  let dir := t.xfer.dir
  let (ret, xfer) ← stage dir .dpuSetupSg Prod.fst (st.dpuSetupSg t.xfer t.hostAddr)
  if ret ≠ 0 then
    return ret
  let (ret, desc) ← stage dir .setHdmaDesc Prod.fst
    (st.setHdmaDesc xfer (initDesc t.descAddr dir))
  if ret ≠ 0 then
    quiet (dpuTeardownSg xfer)
    return err ret
  let ret ← stage dir .tranferDesc id (st.tranferDesc t.chDesc desc)
  if ret ≠ 0 then
    quiet (teardownDmaDesc desc)
    quiet (dpuTeardownSg xfer)
    return err ret
  let ret ← stage dir .dmaLlmodeTransmit id
    (st.dmaLlmodeTransmit t.chData desc t.enable t.regs)
  if ret ≠ 0 then
    quiet (teardownDmaDesc desc)
    quiet (dpuTeardownSg xfer)
    return err ret
  quiet (teardownDmaDesc desc)
  quiet (dpuTeardownSg xfer)
  return ret

def inboundTransfer (ch : Chan) (hostSrc deviceDes len descAddr : BitVec 64)
    (enable : BitVec 32) (regs : RegInfos) : Transfer :=
  ⟨ch, ch, initXfer hostSrc deviceDes len .memToDev, hostSrc, descAddr, enable, regs⟩

/-- Every error label returns `ret`. -/
def eonHdmaInbound (st : Stages) (ch : Chan) (hostSrc deviceDes len descAddr : BitVec 64)
    (enable : BitVec 32) (regs : RegInfos) : Traced Event Int :=
  hdmaTransfer st (inboundTransfer ch hostSrc deviceDes len descAddr enable regs) id

def outboundTransfer (ch chDesc : Chan) (hostDes deviceSrc len descAddr : BitVec 64)
    (enable : BitVec 32) (regs : RegInfos) : Transfer :=
  ⟨chDesc, ch, initXfer deviceSrc hostDes len .devToMem, hostDes, descAddr, enable, regs⟩

/-- The error labels return `tc`, which is never set. -/
def eonHdmaOutbound (st : Stages) (ch chDesc : Chan) (hostDes deviceSrc len descAddr : BitVec 64)
    (enable : BitVec 32) (regs : RegInfos) : Traced Event Int :=
  hdmaTransfer st (outboundTransfer ch chDesc hostDes deviceSrc len descAddr enable regs)
    fun _ => 0

/-! ## Commands -/

def iocIn : BitVec 32 := 0x40000000#32
def iocOut : BitVec 32 := 0x80000000#32
def eonIoctlHdma : BitVec 32 := 0xc1485303#32
def eonIoctlIatu : BitVec 32 := 0xc0205304#32

def enotty : Int := 25

/-- The dispatch on `op`; an unknown one leaves `ret` at 0.  The table of an outbound
transfer is uploaded through the read context of the same index. -/
def hdmaOp (st : Stages) (args : HdmaMemArgs) (id : Fin maxHdmaNumber) : Traced Event Int :=
  if args.op = commandHdmaInbound then
    eonHdmaInbound st ⟨.rd, id⟩ args.hostAddr args.deviceAddr args.memSize args.descAddr
      args.enable args.regs
  else if args.op = commandHdmaOutbound then
    eonHdmaOutbound st ⟨.wr, id⟩ ⟨.rd, id⟩ args.hostAddr args.deviceAddr args.memSize
      args.descAddr args.enable args.regs
  else
    pure 0

/-- The value after the copy back, which only a call without an error makes. -/
def copyOut (k : Kernel) (cmd : BitVec 32) (ret : Int) : Int :=
  if ret = 0 ∧ cmd &&& iocOut ≠ 0#32 ∧ k.copyToUser then -3 else ret

/-- `args` is the block after `copy_from_user`.  The exit for a bad index does not
free it. -/
def eonHdma (k : Kernel) (st : Stages) (cmd : BitVec 32) (args : HdmaMemArgs) :
    Traced Event Int := do
  let hdmaArgs ← quiet (kmalloc k.kmallocArgs)
  if hdmaArgs = 0#64 then
    return -1
  if cmd &&& iocIn ≠ 0#32 ∧ k.copyFromUser then
    quiet (kfree hdmaArgs)
    return -2
  if h : args.hdmaId.toNat < maxHdmaNumber then
    let ret ← hdmaOp st args ⟨args.hdmaId.toNat, h⟩
    quiet (kfree hdmaArgs)
    return copyOut k cmd ret
  else
    return -1

/-- The access between the lock and the copy back is that of the window. -/
def eonRwReg (k : Kernel) (cmd : BitVec 32) (args : DpuRegArgs) : Traced Effect Int := do
  let regsArgs ← kmalloc k.kmallocArgs
  if regsArgs = 0#64 then
    return -1
  if cmd &&& iocIn ≠ 0#32 ∧ k.copyFromUser then
    kfree regsArgs
    return -2
  if regAddrAccepted args.regAddr then
    acquire .conbarLock
    let ret := copyOut k cmd 0
    release .conbarLock
    kfree regsArgs
    return ret
  else
    return -1

/-- The argument block in the two types that the commands give it. -/
def deviceIoctl (k : Kernel) (st : Stages) (cmd : BitVec 32) (hdmaArgs : HdmaMemArgs)
    (regsArgs : DpuRegArgs) : Traced Event Int :=
  if cmd = eonIoctlHdma then eonHdma k st cmd hdmaArgs
  else if cmd = eonIoctlIatu then quiet (eonRwReg k cmd regsArgs)
  else pure (-enotty)

end EonDrv.Ioctl

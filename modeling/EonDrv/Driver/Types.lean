import Mathlib

/-!
# Data of the driver

The constants and structures of `eon_drv.h`, `hdma.h` and `test_dev.h` that the
modelled functions read or write.
-/

namespace EonDrv

abbrev maxHdmaNumber : Nat := 16

instance : NeZero maxHdmaNumber := ⟨by decide⟩

def regsAddrMin : BitVec 64 := 0x40000000#64
def regsAddrMax : BitVec 64 := 0xf0000000#64

def configBarSize : BitVec 64 := 0x1000000#64

abbrev regOperationMaxNum : Nat := 0x10

def commandHdmaInbound : BitVec 32 := 1#32
def commandHdmaOutbound : BitVec 32 := 2#32

/-- `dma_enable` of `enum dma_ctrl`. -/
def dmaEnable : BitVec 32 := 1#32

/-- `reg_enable` of `enum reg_ctrl`. -/
def regEnable : BitVec 8 := 1#8

def regWrite : BitVec 8 := 1#8
def regRead : BitVec 8 := 2#8
def regWrite16 : BitVec 8 := 3#8
def regRead16 : BitVec 8 := 4#8

inductive HdmaState
  | idle
  | running
  | completed
  | failed
  deriving DecidableEq

/-- `rw_type` of `hdma_init`: `hdmar` holds the read contexts, `hdmaw` the write
contexts. -/
inductive RwType
  | rd
  | wr
  deriving DecidableEq

/-- A channel context, `hdmar[id]` or `hdmaw[id]`. -/
structure Chan where
  rwType : RwType
  id : Fin maxHdmaNumber
  deriving DecidableEq

/-- The two directions a transfer can have here, of the kernel's
`dma_transfer_direction`. -/
inductive DmaDir
  | memToDev
  | devToMem
  deriving DecidableEq

structure RegAddrData where
  regAddr : BitVec 64
  regData : BitVec 32
  deriving DecidableEq

structure RegInfos where
  regOperation : BitVec 8
  num : BitVec 8
  writeData : Fin regOperationMaxNum → RegAddrData

structure HdmaMemArgs where
  hostAddr : BitVec 64
  deviceAddr : BitVec 64
  memSize : BitVec 64
  descAddr : BitVec 64
  hdmaId : BitVec 32
  op : BitVec 32
  enable : BitVec 32
  regs : RegInfos

structure DpuRegArgs where
  regAddr : BitVec 64
  regData : BitVec 32
  rwFlag : BitVec 8
  deriving DecidableEq

/-- A kernel pointer; 0 is `NULL`. -/
abbrev Ptr := BitVec 64

/-- An entry of a mapped scatter list, by `sg_dma_address` and `sg_dma_len`. -/
structure SgEntry where
  dmaAddress : BitVec 64
  dmaLen : BitVec 32
  deriving DecidableEq

structure SgTable where
  addr : Ptr
  sgl : List SgEntry

structure XferJob where
  src : BitVec 64
  dst : BitVec 64
  size : BitVec 64

/-- `blocks` points to an array; `pages i` is what `blocks[i].pages` reads. -/
structure DpuHostMemInfo where
  addr : BitVec 64
  blocks : Ptr
  pages : Int → Ptr
  blocksNr : BitVec 32

structure DpuXferInfo where
  sgt : SgTable
  sglen : BitVec 32
  align : XferJob
  hmemInfo : DpuHostMemInfo
  size : BitVec 64
  dir : DmaDir

structure DpuDescInfo where
  descNum : BitVec 64
  descSize : BitVec 64
  descHostAddr : Ptr
  descAddr : BitVec 64
  descDeviceAddr : BitVec 64
  dir : DmaDir
  deriving DecidableEq

/-- The address check that opens `regs_operations` and `eon_rw_reg`. -/
def regAddrAccepted (addr : BitVec 64) : Bool :=
  !(decide (regsAddrMax < addr) || decide (addr < regsAddrMin))

/-- The batch loop of `dma_llmode_transmit` runs. -/
def RegInfos.runs (regs : RegInfos) : Bool :=
  regs.regOperation == regEnable && decide (regs.num.toNat < regOperationMaxNum)

/-- Write `k` of the batch; the loop indexes below `num`, which `runs` keeps
inside the array. -/
def RegInfos.write (regs : RegInfos) (k : Nat) : RegAddrData :=
  regs.writeData (Fin.ofNat regOperationMaxNum k)

def RegInfos.count (regs : RegInfos) : Nat :=
  if regs.runs then regs.num.toNat else 0

end EonDrv

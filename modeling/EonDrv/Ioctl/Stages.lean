import EonDrv.Ioctl.Kernel

/-!
# The stages of a request

The functions of `test_dev.c` that `eon_hdma_inbound` and `eon_hdma_outbound` call
in turn, with what they take and give back on every path.
-/

namespace EonDrv.Ioctl

open Traced (emitAll)

def pageSize : BitVec 64 := 0x1000#64

/-- `PAGE_MASK` of the kernel clears the offset bits. -/
def pageMask : BitVec 64 := ~~~0xfff#64

def getPagesNr (buf len : BitVec 64) : BitVec 64 :=
  ((buf + len + pageSize - 1#64) - (buf &&& pageMask)) >>> 12

/-! ## Pinning -/

/-- `pages_tmp[i]` after `get_user_pages_fast`. -/
def Kernel.pageAt (k : Kernel) (buf : BitVec 64) (nr : BitVec 32) (i : Nat) : Ptr :=
  ((k.getUserPages buf nr).pages[i]?).getD (k.stalePages i)

/-- `blocks[i].pages` after the fill loop.  The `int` index of the loop is compared
with an `unsigned long`, so it does not get past the largest `int`; an entry below
the count that it does not reach is still cleared. -/
def Kernel.blockAt (k : Kernel) (buf nr : BitVec 64) (i : Int) : Ptr :=
  if 0 ≤ i ∧ i < nr.toNat ∧ i < 2 ^ 31 then k.pageAt buf (nr.truncate 32) i.toNat
  else if 0 ≤ i ∧ i < nr.toNat then 0#64
  else k.staleBlocks i

/-- The count is a 64-bit value, `blocks_nr` and the comparison with the returned
`int` are unsigned 32-bit. -/
def dpuGetPages (k : Kernel) (buf len : BitVec 64) (info : DpuHostMemInfo) :
    Traced Effect (Int × DpuHostMemInfo) := do
  let info := { info with addr := buf }
  let blocksNr := getPagesNr buf len
  let blocksTmp ← vmalloc (k.vmallocBlocks (blocksNr * 16#64))
  if blocksTmp = 0#64 then
    return (-1, info)
  let info := { info with blocksNr := blocksNr.truncate 32 }
  let pagesTmp ← vmalloc (k.vmallocPages (info.blocksNr.zeroExtend 64 * 8#64))
  if pagesTmp = 0#64 then
    vfree blocksTmp
    return (-2, info)
  let pin := k.getUserPages buf info.blocksNr
  emitAll (pin.pages.map fun p => .use (.acquire (.page p)))
  if pin.ret < info.blocksNr then
    if 0 < pin.ret.toInt then
      putPages pin.pages
    vfree pagesTmp
    vfree blocksTmp
    return (-3, info)
  let info := { info with blocks := blocksTmp, pages := k.blockAt buf blocksNr }
  vfree pagesTmp
  return (0, info)

/-- The entries `dpu_put_pages` visits: its index is an `int`, its bound unsigned. -/
def visitedPages (info : DpuHostMemInfo) : List Ptr :=
  if info.blocks = 0#64 then []
  else (List.range info.blocksNr.toNat).map fun i => info.pages (BitVec.ofNat 32 i).toInt

def dpuPutPages (info : DpuHostMemInfo) : Traced Effect Unit := do
  putPages (visitedPages info)
  vfree info.blocks

/-! ## Scatter list -/

/-- The loop over the table: entry `i` covers what is left of the count, up to the
end of a page. -/
def fillSg (pages : Int → Ptr) (hostAddr count : BitVec 64) (i : Nat) : Nat → List SgPage
  | 0 => []
  | n + 1 =>
      let offset : BitVec 32 := (hostAddr &&& ~~~pageMask).truncate 32
      let size : BitVec 32 := (pageSize - offset.zeroExtend 64).truncate 32
      let nbytes : BitVec 32 :=
        if size < count.truncate 32 then size else count.truncate 32
      ⟨pages i, nbytes, offset⟩ ::
        fillSg pages (hostAddr + nbytes.zeroExtend 64) (count - nbytes.zeroExtend 64) (i + 1) n

def dpuSetupSg (k : Kernel) (xfer : DpuXferInfo) (hostAddr : BitVec 64) :
    Traced Effect (Int × DpuXferInfo) := do
  let count := xfer.size
  let (ret, hmemInfo) ← dpuGetPages k hostAddr count xfer.hmemInfo
  let xfer := { xfer with hmemInfo := hmemInfo }
  if ret ≠ 0 then
    return (ret, xfer)
  let sgNr := hmemInfo.blocksNr
  let sgt ← kmalloc k.kzallocSgt
  if sgt = 0#64 then
    dpuPutPages hmemInfo
    return (-1, xfer)
  if k.sgAllocTable sgNr then
    kfree sgt
    dpuPutPages hmemInfo
    return (-2, xfer)
  acquire (.sgTable sgt)
  -- `sg_nr` is an `int`, so the loop and the mapping see no entry of a count with the sign bit
  let sgl := fillSg hmemInfo.pages hostAddr count 0 sgNr.toInt.toNat
  match k.pciMapSg sgl xfer.dir with
  | none =>
      release (.sgTable sgt)
      kfree sgt
      dpuPutPages hmemInfo
      return (-3, xfer)
  | some dma =>
      acquire (.sgMapping sgt)
      return (0, { xfer with
        sgt := ⟨sgt, (List.range sgNr.toNat).map dma⟩
        sglen := sgNr
        align := { xfer.align with size := xfer.size } })

def dpuTeardownSg (xfer : DpuXferInfo) : Traced Effect Unit := do
  release (.sgTable xfer.sgt.addr)
  kfree xfer.sgt.addr
  dpuPutPages xfer.hmemInfo

/-! ## Descriptor table -/

/-- The sum is taken in 32 bits. -/
def descsSize (xfer : DpuXferInfo) : BitVec 64 := (xfer.sglen + 1#32).zeroExtend 64 * 24#64

/-- The words the loop and `set_link_element` leave in the buffer. -/
def descTable (k : Kernel) (xfer : DpuXferInfo) (desc : DpuDescInfo) : Descriptor.Words :=
  let filled := Descriptor.fillDescs xfer k.staleDescs
  Descriptor.setLinkElement filled.mem filled.desc desc.descDeviceAddr 1#8 0#8

/-- The result carries the words of the table. -/
def setHdmaDesc (k : Kernel) (xfer : DpuXferInfo) (desc : DpuDescInfo) :
    Traced Effect (Int × DpuDescInfo × Descriptor.Words) := do
  let descsHostAddr ← kmalloc (k.kmallocDescs (descsSize xfer))
  if descsHostAddr = 0#64 then
    return (-1, desc, k.staleDescs)
  let desc := { desc with descHostAddr := descsHostAddr }
  let descAddr := k.pciMapSingle descsHostAddr (descsSize xfer) desc.dir
  if k.pciDmaMappingError descAddr then
    kfree descsHostAddr
    return (-1, desc, k.staleDescs)
  acquire (.singleMapping descAddr (descsSize xfer) desc.dir)
  return (0, { desc with
    descSize := descsSize xfer
    descNum := xfer.sglen.zeroExtend 64
    descAddr := descAddr }, descTable k xfer desc)

def teardownDmaDesc (desc : DpuDescInfo) : Traced Effect Unit := do
  release (.singleMapping desc.descAddr desc.descSize desc.dir)
  kfree desc.descHostAddr

/-! ## Transfers -/

def writeAll (ch : Chan) (ws : List (HdmaReg × BitVec 32)) : Traced Effect Unit :=
  emitAll (ws.map (.write ch))

/-- A timed wait that ran out. -/
def waitCode (rv : Int) : Int := if rv = 0 then -1 else 0

def hdmaStartTransfer (ch : Chan) : Traced Effect Unit := writeAll ch [(.doorbell, 1#32)]

def tranferDesc (k : Kernel) (ch : Chan) (desc : DpuDescInfo) : Traced Effect Int := do
  acquire (.hdmaLock ch)
  writeAll ch (tranferDescWrites desc)
  hdmaStartTransfer ch
  release (.hdmaLock ch)
  return waitCode k.waitDesc

/-- The lock of `regs_operations` and what it returns; the access it guards is
that of the window. -/
def regsOperations (addr : BitVec 64) : Traced Effect Int := do
  if regAddrAccepted addr then
    acquire .conbarLock
    release .conbarLock
    return 0
  else
    return -1

/-- The loop over the writes of the batch, up to the first refused one. -/
def regsBatch (regs : RegInfos) (i : Nat) : Nat → Traced Effect Int
  | 0 => return 0
  | n + 1 => do
      let rv ← regsOperations (regs.write i).regAddr
      if rv ≠ 0 then
        return rv
      regsBatch regs (i + 1) n

def dmaLlmodeTransmit (k : Kernel) (ch : Chan) (desc : DpuDescInfo) (enable : BitVec 32)
    (regs : RegInfos) : Traced Effect Int := do
  acquire (.hdmaLock ch)
  writeAll ch (dmaLlmodeTransmitWrites desc)
  let rv ← regsBatch regs 0 regs.count
  if rv ≠ 0 then
    release (.hdmaLock ch)
    return rv
  if enable = dmaEnable then
    hdmaStartTransfer ch
  release (.hdmaLock ch)
  return waitCode k.waitData

end EonDrv.Ioctl

import EonDrv.Driver.Registers
import EonDrv.Support.BitField
import EonDrv.Support.RegisterFile

/-!
# Elements of a descriptor table

`set_data_element` and `set_link_element` of `hdma.c` as stores into the words of
a buffer, and the fill loop of `set_hdma_desc`.  An element is six words; the
bits of the first word that no field assignment reaches keep what `kmalloc` left
there.
-/

namespace EonDrv.Descriptor

open BitField RegisterFile

abbrev Words := Nat → BitVec 32

/-- `sizeof(struct dma_cmd_desc)` and `sizeof(struct end_element)`. -/
def descBytes : Nat := 24

/-! ## Bit positions of the first word -/

def cbBit : Nat := 0
def tcbBit : Nat := 1
def llpBit : Nat := 2
def lieBit : Nat := 3
def rieBit : Nat := 4

def bit (v : BitVec 8) : Bool := v.getLsbD 0

def dataFlags (old : BitVec 32) (lie rie cb : BitVec 8) : BitVec 32 :=
  withBit (withBit (withBit (withBit old cbBit (bit cb)) llpBit false) lieBit (bit lie))
    rieBit (bit rie)

def linkFlags (old : BitVec 32) (tcb cb : BitVec 8) : BitVec 32 :=
  withBit (withBit (withBit old cbBit (bit cb)) tcbBit (bit tcb)) llpBit true

/-- The stores of `set_data_element` at the word index `desc`, which finds `old`
in the first word. -/
def dataStores (old : BitVec 32) (desc : Nat) (src dst : BitVec 64) (len : BitVec 32)
    (lie rie cb : BitVec 8) : List (Nat × BitVec 32) :=
  [(desc, dataFlags old lie rie cb), (desc + 4, low32 dst), (desc + 5, high32 dst),
    (desc + 2, low32 src), (desc + 3, high32 src), (desc + 1, len)]

/-- The direction argument of the source is not read. -/
def setDataElement (mem : Words) (desc : Nat) (src dst : BitVec 64) (len : BitVec 32)
    (lie rie cb : BitVec 8) : Words :=
  storeAll mem (dataStores (mem desc) desc src dst len lie rie cb)

def linkStores (old : BitVec 32) (desc : Nat) (addr : BitVec 64) (tcb cb : BitVec 8) :
    List (Nat × BitVec 32) :=
  [(desc, linkFlags old tcb cb), (desc + 2, low32 addr), (desc + 3, high32 addr)]

def setLinkElement (mem : Words) (desc : Nat) (addr : BitVec 64) (tcb cb : BitVec 8) : Words :=
  storeAll mem (linkStores (mem desc) desc addr tcb cb)

/-! ## The fill loop of `set_hdma_desc` -/

/-- The variables of the loop.  `desc` is `descs_host_addr`, as a word index from
the start of the buffer. -/
structure FillState where
  i : BitVec 32
  xferLen : BitVec 64
  offset : BitVec 64
  desc : Nat
  mem : Words

/-- One round of `for_each_sg`. -/
def fillStep (xfer : DpuXferInfo) (s : FillState) (sg : SgEntry) : FillState :=
  let len := sg.dmaLen.zeroExtend 64
  let hostAddr := sg.dmaAddress + s.offset
  let (srcAddr, desAddr) :=
    if xfer.dir = .memToDev then (hostAddr, xfer.align.dst + s.xferLen)
    else (xfer.align.src + s.xferLen, hostAddr)
  let last : BitVec 8 := if s.i = xfer.sglen - 1#32 then 1#8 else 0#8
  { i := s.i + 1#32
    xferLen := s.xferLen + len
    offset := 0
    desc := s.desc + 6
    mem := setDataElement s.mem s.desc srcAddr desAddr (len.truncate 32) last last 1#8 }

/-- `for_each_sg` takes `sglen` entries of the list. -/
def fillDescs (xfer : DpuXferInfo) (mem : Words) : FillState :=
  (xfer.sgt.sgl.take xfer.sglen.toNat).foldl (fillStep xfer) ⟨0, 0, 0, 0, mem⟩

end EonDrv.Descriptor

import EonDrv.Driver.Types

/-!
# Channel registers

The register block of a channel context as `hdma_init` lays it out, and the
register writes of the small functions of `hdma.c`, in the order in which the
functions issue them.
-/

namespace EonDrv

/-- The fields of `struct hdma_regs`. -/
inductive HdmaReg
  | en
  | doorbell
  | elemPf
  | llpLow
  | llpHigh
  | cycleOff
  | xferSize
  | sarLow
  | sarHigh
  | darLow
  | darHigh
  | watermark
  | control1
  | funcNum
  | qos
  | status
  | intStatus
  | intSetup
  | intClear
  | msiStopLow
  | msiStopHigh
  | msiWatermarkLow
  | msiWatermarkHigh
  | msiAbortLow
  | msiAbortHigh
  | msiMsgd
  deriving DecidableEq

namespace HdmaReg

/-- The last summand of the `HDMA_*_OFF_*` macros. -/
def offset : HdmaReg → Nat
  | en => 0x0
  | doorbell => 0x4
  | elemPf => 0x8
  | llpLow => 0x10
  | llpHigh => 0x14
  | cycleOff => 0x18
  | xferSize => 0x1c
  | sarLow => 0x20
  | sarHigh => 0x24
  | darLow => 0x28
  | darHigh => 0x2c
  | watermark => 0x30
  | control1 => 0x34
  | funcNum => 0x38
  | qos => 0x3c
  | status => 0x80
  | intStatus => 0x84
  | intSetup => 0x88
  | intClear => 0x8c
  | msiStopLow => 0x90
  | msiStopHigh => 0x94
  | msiWatermarkLow => 0x98
  | msiWatermarkHigh => 0x9c
  | msiAbortLow => 0xa0
  | msiAbortHigh => 0xa4
  | msiMsgd => 0xa8

theorem offset_injective : Function.Injective offset := by
  intro a b h
  cases a <;> cases b <;> first | rfl | simp [offset] at h

theorem offset_lt (r : HdmaReg) : r.offset < 0xac := by
  cases r <;> decide

end HdmaReg

def hdmaSize : Nat := 0x800
def hdmaBaseBarOffset : Nat := 0x1000
def hdmaSocOffset : Nat := 0

/-- The read blocks start 0x400 after the write blocks of the same channel. -/
def RwType.blockOffset : RwType → Nat
  | .wr => 0
  | .rd => 0x400

/-- The offset in `bar[ATU_HDMA_BAR]` of a register of a context, the address
that `hdma_init` stores for it. -/
def hdmaRegOff (ch : Chan) (r : HdmaReg) : Nat :=
  hdmaBaseBarOffset + hdmaSocOffset + ch.rwType.blockOffset + ch.id.val * hdmaSize + r.offset

theorem hdmaRegOff_lt (ch : Chan) (r : HdmaReg) : hdmaRegOff ch r < 0x9000 := by
  have hid : ch.id.val < 16 := ch.id.isLt
  have hr := r.offset_lt
  have hb : ch.rwType.blockOffset ≤ 0x400 := by cases ch.rwType <;> decide
  simp only [hdmaRegOff, hdmaBaseBarOffset, hdmaSocOffset, hdmaSize]
  omega

theorem hdmaRegOff_injective {ch ch' : Chan} {r r' : HdmaReg}
    (h : hdmaRegOff ch r = hdmaRegOff ch' r') : ch = ch' ∧ r = r' := by
  obtain ⟨t, i⟩ := ch
  obtain ⟨t', i'⟩ := ch'
  have hr := r.offset_lt
  have hr' := r'.offset_lt
  simp only [hdmaRegOff, hdmaBaseBarOffset, hdmaSocOffset, hdmaSize] at h
  cases t <;> cases t' <;> simp only [RwType.blockOffset] at h
  · have hi : i.val = i'.val := by omega
    have ho : r.offset = r'.offset := by omega
    exact ⟨by rw [Fin.ext hi], HdmaReg.offset_injective ho⟩
  · omega
  · omega
  · have hi : i.val = i'.val := by omega
    have ho : r.offset = r'.offset := by omega
    exact ⟨by rw [Fin.ext hi], HdmaReg.offset_injective ho⟩

/-! ## Blocks -/

def hdmaBlockBase (ch : Chan) : Nat :=
  hdmaBaseBarOffset + hdmaSocOffset + ch.rwType.blockOffset + ch.id.val * hdmaSize

def hdmaBlockSize : Nat := 0x400

def InBlock (ch : Chan) (off : Nat) : Prop :=
  hdmaBlockBase ch ≤ off ∧ off < hdmaBlockBase ch + hdmaBlockSize

theorem hdmaRegOff_eq (ch : Chan) (r : HdmaReg) : hdmaRegOff ch r = hdmaBlockBase ch + r.offset :=
  rfl

theorem inBlock_hdmaRegOff (ch : Chan) (r : HdmaReg) {b : Nat} (hb : b < 4) :
    InBlock ch (hdmaRegOff ch r + b) := by
  have hr := r.offset_lt
  simp only [InBlock, hdmaRegOff_eq, hdmaBlockSize]
  omega

theorem InBlock.unique {ch ch' : Chan} {off : Nat} (h : InBlock ch off) (h' : InBlock ch' off) :
    ch = ch' := by
  obtain ⟨t, i⟩ := ch
  obtain ⟨t', i'⟩ := ch'
  simp only [InBlock, hdmaBlockBase, hdmaBlockSize, hdmaBaseBarOffset, hdmaSocOffset,
    hdmaSize] at h h'
  cases t <;> cases t' <;> simp only [RwType.blockOffset] at h h'
  · have hi : i.val = i'.val := by omega
    rw [Fin.ext hi]
  · omega
  · omega
  · have hi : i.val = i'.val := by omega
    rw [Fin.ext hi]

theorem InBlock.lt {ch : Chan} {off : Nat} (h : InBlock ch off) : off < 0x9000 := by
  have hid : ch.id.val < 16 := ch.id.isLt
  have hb : ch.rwType.blockOffset ≤ 0x400 := by cases ch.rwType <;> decide
  simp only [InBlock, hdmaBlockBase, hdmaBlockSize, hdmaBaseBarOffset, hdmaSocOffset,
    hdmaSize] at h
  omega

/-! ## Register writes of `hdma.c` -/

def low32 (x : BitVec 64) : BitVec 32 := x.truncate 32
def high32 (x : BitVec 64) : BitVec 32 := (x >>> 32).truncate 32

theorem high32_append_low32 (x : BitVec 64) : high32 x ++ low32 x = x := by
  ext i hi
  rw [BitVec.getElem_append, ← BitVec.getLsbD_eq_getElem]
  simp only [high32, low32, BitVec.truncate_eq_setWidth]
  split
  · simp
  · have hi' : 32 + (i - 32) = i := by omega
    simp [BitVec.getLsbD_ushiftRight, hi']

def hdmaSetAttr (control1 pf cycleOff : BitVec 32) : List (HdmaReg × BitVec 32) :=
  [(.elemPf, pf), (.cycleOff, cycleOff), (.control1, control1)]

/-- A zero mask is replaced by the union of the seven named bits. -/
def hdmaEnableIntr (mask : BitVec 32) : List (HdmaReg × BitVec 32) :=
  [(.intSetup, if mask = 0#32 then 0x7f#32 else mask)]

def setXferData (xferSize : BitVec 32) (src des : BitVec 64) : List (HdmaReg × BitVec 32) :=
  [(.xferSize, xferSize), (.sarLow, low32 src), (.sarHigh, high32 src),
    (.darLow, low32 des), (.darHigh, high32 des)]

def hdmaSetDescPointer (addr : BitVec 64) : List (HdmaReg × BitVec 32) :=
  [(.llpLow, low32 addr), (.llpHigh, high32 addr)]

/-- The mask `hdma_clear_intr_status` writes to `int_clear`. -/
def hdmaClearIntrStatus (val : BitVec 32) : BitVec 32 :=
  if val = 0#32 then 7#32 else val

/-- The writes of `tranfer_desc` before it sets the state.  The size is passed
as a 32-bit argument. -/
def tranferDescWrites (desc : DpuDescInfo) : List (HdmaReg × BitVec 32) :=
  hdmaSetAttr 0xd0000#32 0#32 0#32 ++ hdmaEnableIntr 0x3d#32 ++
    setXferData (desc.descSize.truncate 32) desc.descAddr desc.descDeviceAddr

/-- The writes of `dma_llmode_transmit` before it sets the state. -/
def dmaLlmodeTransmitWrites (desc : DpuDescInfo) : List (HdmaReg × BitVec 32) :=
  hdmaSetAttr 0x003#32 0#32 2#32 ++ hdmaEnableIntr 0x18#32 ++
    hdmaSetDescPointer desc.descDeviceAddr

end EonDrv

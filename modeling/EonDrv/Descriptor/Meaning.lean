import EonDrv.Descriptor.Fill
import EonDrv.Ioctl.Outcomes

/-!
# What the descriptor table means

The table that `set_hdma_desc` leaves, uploaded by `tranfer_desc` and run by the
engine that `dma_llmode_transmit` starts, is the requested copy.
-/

namespace EonDrv.Descriptor

open Ioctl RegisterFile

/-! ## What the registers say -/

section Registers

variable (regs : HdmaReg → BitVec 32) (desc : DpuDescInfo)

/-- The bytes that `tranfer_desc` uploads. -/
def uploadBytes : Nat := (storeAll regs (tranferDescWrites desc) .xferSize).toNat

def uploadAddr : BitVec 64 :=
  storeAll regs (tranferDescWrites desc) .darHigh ++ storeAll regs (tranferDescWrites desc) .darLow

def startAddr : BitVec 64 :=
  storeAll regs (dmaLlmodeTransmitWrites desc) .llpHigh ++
    storeAll regs (dmaLlmodeTransmitWrites desc) .llpLow

/-- The cycle state is bit 1 of `cycle_off`. -/
def cycleState : Bool := (storeAll regs (dmaLlmodeTransmitWrites desc) .cycleOff).getLsbD 1

theorem tranferDescWrites_nodup : ((tranferDescWrites desc).map Prod.fst).Nodup := by
  simp [tranferDescWrites, hdmaSetAttr, hdmaEnableIntr, setXferData]

theorem dmaLlmodeTransmitWrites_nodup : ((dmaLlmodeTransmitWrites desc).map Prod.fst).Nodup := by
  simp [dmaLlmodeTransmitWrites, hdmaSetAttr, hdmaEnableIntr, hdmaSetDescPointer]

theorem tranferDescWrites_shown {r : HdmaReg} {v : BitVec 32}
    (h : (r, v) ∈ tranferDescWrites desc) : storeAll regs (tranferDescWrites desc) r = v :=
  holds_storeAll (tranferDescWrites_nodup desc) (r, v) h

theorem dmaLlmodeTransmitWrites_shown {r : HdmaReg} {v : BitVec 32}
    (h : (r, v) ∈ dmaLlmodeTransmitWrites desc) :
    storeAll regs (dmaLlmodeTransmitWrites desc) r = v :=
  holds_storeAll (dmaLlmodeTransmitWrites_nodup desc) (r, v) h

theorem uploadBytes_eq : uploadBytes regs desc = desc.descSize.toNat % 2 ^ 32 := by
  unfold uploadBytes
  rw [tranferDescWrites_shown regs desc
    (show (HdmaReg.xferSize, desc.descSize.truncate 32) ∈ _ by
      simp [tranferDescWrites, setXferData])]
  exact BitVec.toNat_setWidth ..

theorem uploadAddr_eq : uploadAddr regs desc = desc.descDeviceAddr := by
  unfold uploadAddr
  rw [tranferDescWrites_shown regs desc
      (show (HdmaReg.darHigh, high32 desc.descDeviceAddr) ∈ _ by
        simp [tranferDescWrites, setXferData]),
    tranferDescWrites_shown regs desc
      (show (HdmaReg.darLow, low32 desc.descDeviceAddr) ∈ _ by
        simp [tranferDescWrites, setXferData])]
  exact high32_append_low32 _

theorem startAddr_eq : startAddr regs desc = desc.descDeviceAddr := by
  unfold startAddr
  rw [dmaLlmodeTransmitWrites_shown regs desc
      (show (HdmaReg.llpHigh, high32 desc.descDeviceAddr) ∈ _ by
        simp [dmaLlmodeTransmitWrites, hdmaSetDescPointer]),
    dmaLlmodeTransmitWrites_shown regs desc
      (show (HdmaReg.llpLow, low32 desc.descDeviceAddr) ∈ _ by
        simp [dmaLlmodeTransmitWrites, hdmaSetDescPointer])]
  exact high32_append_low32 _

theorem cycleState_eq : cycleState regs desc = true := by
  unfold cycleState
  rw [dmaLlmodeTransmitWrites_shown regs desc
    (show (HdmaReg.cycleOff, 2#32) ∈ _ by simp [dmaLlmodeTransmitWrites, hdmaSetAttr])]
  decide

end Registers

/-! ## The table -/

theorem descsSize_eq (x : MappedXfer) :
    (descsSize x.toDpuXferInfo).toNat = descBytes * (x.sgt.sgl.length + 1) := by
  have hlen := x.sgl_length
  have hlt := x.sglen_lt
  have hsum : (x.sglen + 1#32).toNat = x.sgt.sgl.length + 1 := by
    rw [BitVec.toNat_add, BitVec.toNat_ofNat]
    omega
  have hwide : ((x.sglen + 1#32).zeroExtend 64).toNat = x.sgt.sgl.length + 1 := by
    rw [BitVec.toNat_setWidth, hsum]
    omega
  rw [descsSize, BitVec.toNat_mul, hwide, BitVec.toNat_ofNat, descBytes]
  omega

/-- A size that `kmalloc` served fits the register. -/
theorem descsSize_lt {k : Kernel} (hk : k.KmallocBounded) {xfer : DpuXferInfo}
    (hptr : k.kmallocDescs (descsSize xfer) ≠ 0#64) : (descsSize xfer).toNat < 2 ^ 32 := by
  by_contra hge
  have hlarge : kmallocMaxSize < descsSize xfer := by
    rw [kmallocMaxSize, BitVec.lt_def, BitVec.toNat_ofNat]
    omega
  exact hptr (hk _ hlarge)

section Table

variable (k : Kernel) (x : MappedXfer) (desc : DpuDescInfo)

theorem readElement_descTable {j : Nat} (hj : j < x.sgt.sgl.length) :
    let e := readElement (descTable k x.toDpuXferInfo desc) j
    e.cb = true ∧ e.llp = false ∧
      e.copy = requestedCopy x.dir (deviceSide x.toDpuXferInfo) x.sgt.sgl j x.sgt.sgl[j] := by
  have hfilled := filled_fillDescs x k.staleDescs
  have hread : readElement (descTable k x.toDpuXferInfo desc) j =
      readElement (fillDescs x.toDpuXferInfo k.staleDescs).mem j := by
    rw [descTable, hfilled.desc_eq]
    exact readElement_setLinkElement_ne _ _ _ _ (Nat.ne_of_lt hj)
  simp only [hread]
  exact hfilled.written j x.sgt.sgl[j] hj (List.getElem?_eq_getElem hj)

theorem lastElement_descTable :
    let e := readElement (descTable k x.toDpuXferInfo desc) x.sgt.sgl.length
    e.cb = false ∧ e.tcb = true ∧ e.llp = true ∧ e.llPointer = desc.descDeviceAddr := by
  have hfilled := filled_fillDescs x k.staleDescs
  rw [descTable, hfilled.desc_eq]
  exact linkElement_means _ x.sgt.sgl.length desc.descDeviceAddr 1#8 0#8

theorem elements_succ (mem : Words) (n : Nat) :
    elements mem (descBytes * (n + 1)) = (List.range n).map (readElement mem) ++
      [readElement mem n] := by
  rw [elements, Nat.mul_div_cancel_left _ (by decide), List.range_succ, List.map_append]
  rfl

/-- The elements of the loop are data elements, executable in cycle state 1. -/
theorem data_descTable {e : Element}
    (he : e ∈ (List.range x.sgt.sgl.length).map
      (readElement (descTable k x.toDpuXferInfo desc))) : e.cb = true ∧ e.llp = false := by
  obtain ⟨j, hj, rfl⟩ := List.mem_map.mp he
  have hread := readElement_descTable k x desc (List.mem_range.mp hj)
  exact ⟨hread.1, hread.2.1⟩

theorem copies_descTable :
    ((List.range x.sgt.sgl.length).map
        (readElement (descTable k x.toDpuXferInfo desc))).map Element.copy =
      requested x.dir (deviceSide x.toDpuXferInfo) x.sgt.sgl := by
  apply List.ext_getElem
  · simp [requested]
  · intro j hj _
    have hlt : j < x.sgt.sgl.length := by simpa using hj
    simp only [List.getElem_map, List.getElem_range, requested, List.getElem_mapIdx]
    exact (readElement_descTable k x desc hlt).2.2

theorem run_descTable :
    let table := descTable k x.toDpuXferInfo desc
    run true (elements table (descBytes * (x.sgt.sgl.length + 1))) =
      ⟨requested x.dir (deviceSide x.toDpuXferInfo) x.sgt.sgl, x.sgt.sgl.length + 1,
        .cycle (readElement table x.sgt.sgl.length)⟩ := by
  intro table
  have hlast := lastElement_descTable k x desc
  have hdata : ∀ e ∈ (List.range x.sgt.sgl.length).map (readElement table),
      e.cb = true ∧ e.llp = false := fun _ => data_descTable k x desc
  have hcopies := copies_descTable k x desc
  have hstop : (readElement table x.sgt.sgl.length).cb ≠ true := by
    rw [hlast.1]
    decide
  rw [elements_succ, run_append hdata hstop [], hcopies, List.length_map, List.length_range]

end Table

section Upload

variable {k : Kernel} (hk : k.KmallocBounded) {x : MappedXfer} {desc : DpuDescInfo}
  (hok : (setHdmaDesc k x.toDpuXferInfo desc).val.1 = 0)

include hok

theorem setHdmaDesc_val :
    k.kmallocDescs (descsSize x.toDpuXferInfo) ≠ 0#64 ∧
      (setHdmaDesc k x.toDpuXferInfo desc).val.2.1.descSize = descsSize x.toDpuXferInfo ∧
      (setHdmaDesc k x.toDpuXferInfo desc).val.2.1.descDeviceAddr = desc.descDeviceAddr ∧
      (setHdmaDesc k x.toDpuXferInfo desc).val.2.2 = descTable k x.toDpuXferInfo desc := by
  rcases setHdmaDesc_cases k x.toDpuXferInfo desc with ⟨hval, -⟩ | ⟨hval, -⟩ | ⟨hptr, hval, -⟩
  · rw [hval] at hok
    cases hok
  · rw [hval] at hok
    cases hok
  · rw [hval]
    exact ⟨hptr, rfl, rfl, rfl⟩

include hk

/-- The whole table is uploaded. -/
theorem setHdmaDesc_uploadBytes (regs : HdmaReg → BitVec 32) :
    uploadBytes regs (setHdmaDesc k x.toDpuXferInfo desc).val.2.1 =
      descBytes * (x.sgt.sgl.length + 1) := by
  obtain ⟨hptr, hsize, -, -⟩ := setHdmaDesc_val hok
  rw [uploadBytes_eq, hsize, Nat.mod_eq_of_lt (descsSize_lt hk hptr)]
  exact descsSize_eq x

theorem run_uploaded (regs : HdmaReg → BitVec 32) :
    let out := (setHdmaDesc k x.toDpuXferInfo desc).val
    run (cycleState regs out.2.1) (elements out.2.2 (uploadBytes regs out.2.1)) =
      ⟨requested x.dir (deviceSide x.toDpuXferInfo) x.sgt.sgl, x.sgt.sgl.length + 1,
        .cycle (readElement (descTable k x.toDpuXferInfo desc) x.sgt.sgl.length)⟩ := by
  intro out
  obtain ⟨-, -, -, htable⟩ := setHdmaDesc_val hok
  rw [setHdmaDesc_uploadBytes hk hok regs, cycleState_eq, htable]
  exact run_descTable k x desc

end Upload

/-- The table that a successful `set_hdma_desc` leaves is uploaded whole, link
element included, and run from its first byte: the engine performs the requested
copies in order and stops at the link element, the last one uploaded. -/
theorem setHdmaDesc_means (k : Kernel) (hk : k.KmallocBounded) (x : MappedXfer)
    (desc : DpuDescInfo) (regs : HdmaReg → BitVec 32)
    (hok : (setHdmaDesc k x.toDpuXferInfo desc).val.1 = 0) :
    let (_, desc', table) := (setHdmaDesc k x.toDpuXferInfo desc).val
    let n := x.sgt.sgl.length
    let uploaded := elements table (uploadBytes regs desc')
    let r := run (cycleState regs desc') uploaded
    uploadBytes regs desc' = descBytes * (n + 1) ∧
      startAddr regs desc' = uploadAddr regs desc' ∧
      r.copies.length = n ∧
      r.copies = requested x.dir (deviceSide x.toDpuXferInfo) x.sgt.sgl ∧
      r.elements = n + 1 ∧
      ∃ link, uploaded.getLast? = some link ∧ r.stop = .cycle link ∧ link.tcb = true ∧
        link.llp = true ∧ link.llPointer = desc.descDeviceAddr := by
  have hbytes := setHdmaDesc_uploadBytes hk hok regs
  have hrun := run_uploaded hk hok regs
  have hlast := lastElement_descTable k x desc
  obtain ⟨-, -, -, htable⟩ := setHdmaDesc_val hok
  simp only at hrun ⊢
  rw [hrun, startAddr_eq, uploadAddr_eq, hbytes]
  refine ⟨rfl, rfl, ?_, rfl, rfl, _, ?_, rfl, hlast.2⟩
  · simp [requested]
  · rw [elements_succ, List.getLast?_concat, htable]

/-- Two pages to the last page of the device address space, so that the second
copy wraps. -/
def twoPages : MappedXfer where
  sgt := ⟨0x5000#64, [⟨0x123450000#64, 0x1000#32⟩, ⟨0x8000#64, 0x234#32⟩]⟩
  sglen := 2#32
  align := ⟨0x7000#64, 0xfffffffffffff000#64, 0x1234#64⟩
  hmemInfo := ⟨0x7000#64, 0x2000#64, fun _ => 0x4000#64, 2#32⟩
  size := 0x1234#64
  dir := .memToDev
  sgl_length := rfl
  sglen_pos := by decide
  sglen_lt := by decide

def twoPagesDesc : DpuDescInfo := ⟨0, 0, 0, 0, 0x48001000#64, .memToDev⟩

theorem setHdmaDesc_means_twoPages :
    let regs : HdmaReg → BitVec 32 := fun _ => 0#32
    let (_, desc', table) := (setHdmaDesc granting twoPages.toDpuXferInfo twoPagesDesc).val
    (run (cycleState regs desc') (elements table (uploadBytes regs desc'))).copies =
      [⟨0x1000#32, 0x123450000#64, 0xfffffffffffff000#64, false, false⟩,
        ⟨0x234#32, 0x8000#64, 0#64, true, true⟩] := by
  have hmeans := setHdmaDesc_means granting granting_kmallocBounded twoPages twoPagesDesc
    (fun _ => 0#32) (by decide)
  exact hmeans.2.2.2.1.trans (by decide)

end EonDrv.Descriptor

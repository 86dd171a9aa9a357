import EonDrv.Descriptor.Meaning
import EonDrv.Ioctl.Neutral
import EonDrv.Support.Streaming

/-!
# The memory behind the mappings

A transfer with the bytes of its two kinds of mapped memory, the descriptor table and
the user's pages: when each is mapped, written by the CPU or the device, and unmapped.
-/

namespace EonDrv.Ioctl

open Streaming (Layer Buffer Direction)

/-- The driver passes `DMA_MEM_TO_DEV` and `DMA_DEV_TO_MEM`, which have the values of
`DMA_TO_DEVICE` and `DMA_FROM_DEVICE`. -/
def dataDirection : DmaDir → Direction
  | .memToDev => ⟨true, false⟩
  | .devToMem => ⟨false, true⟩

abbrev PageByte := Nat × Nat

/-- What memory holds before the transfer, the bounce slots included, and what the
device stores into the pages for the table it fetched. -/
structure Contents where
  descs : Descriptor.Words
  descSlot : Descriptor.Words
  pages : PageByte → BitVec 8
  pageSlots : PageByte → BitVec 8
  device : List (BitVec 32) → PageByte → Option (BitVec 8)

structure Mapped where
  table : Buffer Nat (BitVec 32)
  pages : Buffer PageByte (BitVec 8)

section

variable (l : Layer) (k : Kernel) (c : Contents)

/-- The table has no bytes before `kmalloc` returns its buffer. -/
def Contents.initial : Mapped := ⟨⟨c.descs, c.descSlot⟩, ⟨c.pages, c.pageSlots⟩⟩

/-- `pci_map_sg` is the last call of `dpu_setup_sg` that can fail. -/
def mapSg (xfer : DpuXferInfo) (hostAddr : BitVec 64) (m : Mapped) : Mapped :=
  if (dpuSetupSg k xfer hostAddr).val.1 = 0 then
    { m with pages := m.pages.map (dataDirection xfer.dir) }
  else m

/-- The loop and `set_link_element`. -/
def writeTable (xfer : DpuXferInfo) (desc : DpuDescInfo) (mem : Descriptor.Words) :
    Descriptor.Words :=
  let filled := Descriptor.fillDescs xfer mem
  Descriptor.setLinkElement filled.mem filled.desc desc.descDeviceAddr 1#8 0#8

/-- `set_hdma_desc` maps the buffer and then writes it. -/
def mapTable (xfer : DpuXferInfo) (desc : DpuDescInfo) (m : Mapped) : Mapped :=
  if (setHdmaDesc k xfer desc).val.1 = 0 then
    let table := m.table.map (dataDirection desc.dir)
    { m with table := table.store (writeTable xfer desc) }
  else m

/-- The upload reads the words that `set_xfer_data` programs. -/
def fetchTable (desc : DpuDescInfo) (m : Mapped) : List (BitVec 32) :=
  (List.range (Descriptor.uploadBytes (fun _ => 0#32) desc / 4)).map (m.table.fetch l)

/-- The data stage.  A transfer from the device stores into the pages, if its doorbell is
rung. -/
def moveData (dir : DmaDir) (enable : BitVec 32) (fetched : List (BitVec 32)) (m : Mapped) :
    Mapped :=
  match dir with
  | .memToDev => m
  | .devToMem =>
    if enable = dmaEnable then { m with pages := m.pages.deviceStore l (c.device fetched) } else m

/-- `teardown_dma_desc`. -/
def unmapTable (desc : DpuDescInfo) (m : Mapped) : Mapped :=
  { m with table := m.table.unmap l (dataDirection desc.dir) }

/-- `dpu_teardown_sg` does not unmap. -/
def releaseSg (m : Mapped) : Mapped := m

/-- What is left of a transfer: its result, the table the device fetched, whether every
stage returned 0, and the user's pages at the return. -/
structure Outcome where
  ret : Int
  fetched : Option (List (BitVec 32))
  success : Bool
  pages : PageByte → BitVec 8

def runTransfer (t : Transfer) (err : Int → Int) : Outcome :=
  let dir := t.xfer.dir
  let (ret, xfer) := (dpuSetupSg k t.xfer t.hostAddr).val
  let m := mapSg k t.xfer t.hostAddr c.initial
  if ret ≠ 0 then
    ⟨ret, none, false, m.pages.cpu⟩
  else
    let (ret, desc, _) := (setHdmaDesc k xfer (initDesc t.descAddr dir)).val
    let m := mapTable k xfer (initDesc t.descAddr dir) m
    if ret ≠ 0 then
      ⟨err ret, none, false, (releaseSg m).pages.cpu⟩
    else
      let fetched := fetchTable l desc m
      let ret := (tranferDesc k t.chDesc desc).val
      if ret ≠ 0 then
        ⟨err ret, some fetched, false, (releaseSg (unmapTable l desc m)).pages.cpu⟩
      else
        let m := moveData l c dir t.enable fetched m
        let ret := (dmaLlmodeTransmit k t.chData desc t.enable t.regs).val
        if ret ≠ 0 then
          ⟨err ret, some fetched, false, (releaseSg (unmapTable l desc m)).pages.cpu⟩
        else
          ⟨ret, some fetched, true, (releaseSg (unmapTable l desc m)).pages.cpu⟩

/-- Whatever memory and slots hold, the two layers show the device one table, and leave
one result in the pages of a successful transfer from the device. -/
structure MappingIndependent (t : Transfer) (err : Int → Int) : Prop where
  table : ∀ c, (runTransfer .direct k c t err).fetched = (runTransfer .bounce k c t err).fetched
  pages : ∀ c, t.xfer.dir = .devToMem → (runTransfer .direct k c t err).success = true →
    (runTransfer .direct k c t err).pages = (runTransfer .bounce k c t err).pages

def tableSize (t : Transfer) : BitVec 64 :=
  (pinCount t.hostAddr t.xfer.size + 1#32).zeroExtend 64 * 24#64

/-- The setup goes through, and the upload is started. -/
structure Starts (t : Transfer) : Prop where
  pinned : ¬ PinFails k t.hostAddr t.xfer.size
  mapped : ¬ SgFails k t.hostAddr t.xfer.size t.xfer.dir
  kmalloc : k.kmallocDescs (tableSize t) ≠ 0#64
  single : k.pciDmaMappingError
    (k.pciMapSingle (k.kmallocDescs (tableSize t)) (tableSize t) t.xfer.dir) = false

/-- No wait times out, and no write of the batch is refused. -/
structure Completes (t : Transfer) : Prop where
  waitDesc : k.waitDesc ≠ 0
  batch : ∀ i, i < t.regs.count → regAddrAccepted (t.regs.write i).regAddr = true
  waitData : k.waitData ≠ 0

end

/-! ## The transfer without its memory -/

theorem runTransfer_ret (l : Layer) (k : Kernel) (c : Contents) (t : Transfer)
    (err : Int → Int) : (runTransfer l k c t err).ret = (hdmaTransfer k.stages t err).val := by
  let xfer := (dpuSetupSg k t.xfer t.hostAddr).val.2
  let out := setHdmaDesc k xfer (initDesc t.descAddr t.xfer.dir)
  by_cases hsetup : (dpuSetupSg k t.xfer t.hostAddr).val.1 = 0
  · by_cases hdesc : out.val.1 = 0
    · by_cases hupload : (tranferDesc k t.chDesc out.val.2.1).val = 0
      · by_cases hdata : (dmaLlmodeTransmit k t.chData out.val.2.1 t.enable t.regs).val = 0
        · simp [runTransfer, hdmaTransfer, Kernel.stages, stage, quiet, hsetup, hdesc, hupload,
            hdata, out, xfer]
        · simp [runTransfer, hdmaTransfer, Kernel.stages, stage, quiet, hsetup, hdesc, hupload,
            hdata, out, xfer]
      · simp [runTransfer, hdmaTransfer, Kernel.stages, stage, quiet, hsetup, hdesc, hupload,
          out, xfer]
    · simp [runTransfer, hdmaTransfer, Kernel.stages, stage, quiet, hsetup, hdesc, out, xfer]
  · simp [runTransfer, hdmaTransfer, Kernel.stages, stage, quiet, hsetup]

theorem writeTable_staleDescs (k : Kernel) (xfer : DpuXferInfo) (desc : DpuDescInfo) :
    writeTable xfer desc k.staleDescs = descTable k xfer desc := rfl

theorem setHdmaDesc_ok {k : Kernel} {xfer : DpuXferInfo} {desc : DpuDescInfo}
    (hptr : k.kmallocDescs (descsSize xfer) ≠ 0#64)
    (hmap : k.pciDmaMappingError (k.pciMapSingle (k.kmallocDescs (descsSize xfer))
      (descsSize xfer) desc.dir) = false) :
    (setHdmaDesc k xfer desc).val.1 = 0 ∧
      (setHdmaDesc k xfer desc).val.2.1.descSize = descsSize xfer ∧
      (setHdmaDesc k xfer desc).val.2.1.dir = desc.dir := by
  refine ⟨?_, ?_, ?_⟩ <;> simp [setHdmaDesc, kmalloc, hptr, hmap]

theorem setHdmaDesc_fails {k : Kernel} {xfer : DpuXferInfo} {desc : DpuDescInfo}
    (h : k.kmallocDescs (descsSize xfer) = 0#64 ∨
      k.pciDmaMappingError (k.pciMapSingle (k.kmallocDescs (descsSize xfer))
        (descsSize xfer) desc.dir) = true) :
    (setHdmaDesc k xfer desc).val.1 ≠ 0 := by
  by_cases hptr : k.kmallocDescs (descsSize xfer) = 0#64
  · simp [setHdmaDesc, kmalloc, hptr]
  · simp [setHdmaDesc, kmalloc, hptr, h.resolve_left hptr]

theorem waitCode_eq_zero {rv : Int} : waitCode rv = 0 ↔ rv ≠ 0 := by
  unfold waitCode
  split <;> simp_all

theorem regsBatch_eq_zero (regs : RegInfos) (i n : Nat) :
    (regsBatch regs i n).val = 0 ↔
      ∀ j, i ≤ j → j < i + n → regAddrAccepted (regs.write j).regAddr = true := by
  induction n generalizing i with
  | zero =>
      refine iff_of_true rfl fun j hlo hhi => ?_
      omega
  | succ n ih =>
      cases haddr : regAddrAccepted (regs.write i).regAddr with
      | true =>
          have hskip : (regsBatch regs i (n + 1)).val = (regsBatch regs (i + 1) n).val := by
            simp [regsBatch, regsOperations, haddr]
          rw [hskip, ih]
          constructor
          · intro h j hlo hhi
            rcases Nat.eq_or_lt_of_le hlo with rfl | hlt
            · exact haddr
            · exact h j hlt (by omega)
          · intro h j hlo hhi
            exact h j (by omega) (by omega)
      | false =>
          have hstop : (regsBatch regs i (n + 1)).val = -1 := by
            simp [regsBatch, regsOperations, haddr]
          rw [hstop]
          refine iff_of_false (by decide) fun h => ?_
          rw [h i (Nat.le_refl i) (by omega)] at haddr
          cases haddr

theorem dmaLlmodeTransmit_eq_zero (k : Kernel) (ch : Chan) (desc : DpuDescInfo)
    (enable : BitVec 32) (regs : RegInfos) :
    (dmaLlmodeTransmit k ch desc enable regs).val = 0 ↔
      (∀ i, i < regs.count → regAddrAccepted (regs.write i).regAddr = true) ∧
        k.waitData ≠ 0 := by
  have hbatch := regsBatch_eq_zero regs 0 regs.count
  simp only [Nat.zero_le, true_implies, Nat.zero_add] at hbatch
  rw [← hbatch, ← waitCode_eq_zero]
  by_cases hrv : (regsBatch regs 0 regs.count).val = 0
  · have hval : (dmaLlmodeTransmit k ch desc enable regs).val = waitCode k.waitData := by
      by_cases henable : enable = dmaEnable
      · simp [dmaLlmodeTransmit, hrv, henable]
      · simp [dmaLlmodeTransmit, hrv, henable]
    rw [hval]
    exact (and_iff_right hrv).symm
  · have hval : (dmaLlmodeTransmit k ch desc enable regs).val =
        (regsBatch regs 0 regs.count).val := by
      simp [dmaLlmodeTransmit, hrv]
    rw [hval]
    exact iff_of_false hrv fun h => hrv h.1

/-! ## The first word of the table -/

theorem fillStep_mem (xfer : DpuXferInfo) (s : Descriptor.FillState) (sg : SgEntry) :
    ∃ src dst len lie rie,
      (Descriptor.fillStep xfer s sg).mem =
        Descriptor.setDataElement s.mem s.desc src dst len lie rie 1#8 :=
  ⟨_, _, _, _, _, rfl⟩

theorem fillDescs_word_zero (xfer : DpuXferInfo) (sgl : List SgEntry) {s : Descriptor.FillState}
    (h : 6 ≤ s.desc) :
    (sgl.foldl (Descriptor.fillStep xfer) s).mem 0 = s.mem 0 ∧
      6 ≤ (sgl.foldl (Descriptor.fillStep xfer) s).desc := by
  induction sgl generalizing s with
  | nil => exact ⟨rfl, h⟩
  | cons sg rest ih =>
      have hdesc : 6 ≤ (Descriptor.fillStep xfer s sg).desc := by
        show 6 ≤ s.desc + 6
        omega
      have hmem : (Descriptor.fillStep xfer s sg).mem 0 = s.mem 0 := by
        obtain ⟨src, dst, len, lie, rie, hstep⟩ := fillStep_mem xfer s sg
        rw [hstep, Descriptor.setDataElement_of_outside _ _ _ _ _ _ _ (by omega)]
      rw [List.foldl_cons, ← hmem]
      exact ih hdesc

/-- Word 0 has `CB` of a data element or `LLP` of the link element. -/
theorem writeTable_word_zero (xfer : DpuXferInfo) (desc : DpuDescInfo) (mem : Descriptor.Words) :
    writeTable xfer desc mem 0 ≠ 0#32 := by
  intro hzero
  unfold writeTable at hzero
  cases hsgl : xfer.sgt.sgl.take xfer.sglen.toNat with
  | nil =>
      simp only [Descriptor.fillDescs, hsgl, List.foldl_nil] at hzero
      have hllp := (Descriptor.linkElement_means mem 0 desc.descDeviceAddr 1#8 0#8).2.2.1
      simp only [Descriptor.Element.llp, Descriptor.readElement, Nat.mul_zero, hzero] at hllp
      revert hllp
      decide
  | cons sg rest =>
      simp only [Descriptor.fillDescs, hsgl, List.foldl_cons] at hzero
      have hfirst : 6 ≤ (Descriptor.fillStep xfer ⟨0, 0, 0, 0, mem⟩ sg).desc := Nat.le_refl 6
      obtain ⟨hmem, hdesc⟩ := fillDescs_word_zero xfer rest hfirst
      rw [Descriptor.setLinkElement_of_outside _ _ _ _ (by omega), hmem] at hzero
      obtain ⟨src, dst, len, lie, rie, hstep⟩ := fillStep_mem xfer ⟨0, 0, 0, 0, mem⟩ sg
      have hcb := (Descriptor.dataElement_means mem 0 src dst len lie rie 1#8).1
      simp only [Descriptor.Element.cb, Descriptor.readElement, Nat.mul_zero] at hcb
      rw [hstep] at hzero
      rw [hzero] at hcb
      revert hcb
      decide

/-! ## The two kinds of transfers -/

section

variable {k : Kernel} {t : Transfer} {err : Int → Int}

theorem runTransfer_not_starts (h : ¬ Starts k t) (l : Layer) (c : Contents) :
    (runTransfer l k c t err).fetched = none ∧ (runTransfer l k c t err).success = false := by
  by_cases hsetup : (dpuSetupSg k t.xfer t.hostAddr).val.1 = 0
  · have hpin : ¬ PinFails k t.hostAddr t.xfer.size := fun hp =>
      (dpuSetupSg_pinFails hp).1 hsetup
    have hsg : ¬ SgFails k t.hostAddr t.xfer.size t.xfer.dir := fun hs =>
      (dpuSetupSg_sgFails hpin hs).1 hsetup
    obtain ⟨⟨dma, -, hval⟩, -⟩ := dpuSetupSg_ok hpin hsg
    have hdesc : (setHdmaDesc k (mappedInfo k t.xfer t.hostAddr dma)
        (initDesc t.descAddr t.xfer.dir)).val.1 ≠ 0 := by
      refine setHdmaDesc_fails ?_
      by_contra hgranted
      rw [not_or] at hgranted
      exact h ⟨hpin, hsg, hgranted.1, Bool.eq_false_iff.mpr hgranted.2⟩
    constructor <;> simp [runTransfer, hval, hdesc]
  · constructor <;> simp [runTransfer, hsetup]

def tableWords (t : Transfer) : Nat := (tableSize t).toNat % 2 ^ 32 / 4

def uploaded (l : Layer) (c : Contents) (t : Transfer) (xfer : DpuXferInfo) :
    List (BitVec 32) :=
  (List.range (tableWords t)).map
    (((Buffer.mk c.descs c.descSlot).map (dataDirection t.xfer.dir)).store
      (writeTable xfer (initDesc t.descAddr t.xfer.dir)) |>.fetch l)

theorem moveData_devToMem_pages (l : Layer) (c : Contents) (enable : BitVec 32)
    (fetched : List (BitVec 32)) (m : Mapped) :
    (moveData l c .devToMem enable fetched m).pages =
      if enable = dmaEnable then m.pages.deviceStore l (c.device fetched) else m.pages := by
  rw [moveData]
  by_cases henable : enable = dmaEnable
  · rw [if_pos henable, if_pos henable]
  · rw [if_neg henable, if_neg henable]

theorem runTransfer_starts (err : Int → Int) (h : Starts k t) :
    ∃ xfer, ∀ l c,
      (runTransfer l k c t err).fetched = some (uploaded l c t xfer) ∧
      ((runTransfer l k c t err).success = true ↔ Completes k t) ∧
      (Completes k t → t.xfer.dir = .devToMem → (runTransfer l k c t err).pages =
        if t.enable = dmaEnable then
          ((Buffer.mk c.pages c.pageSlots).deviceStore l (c.device (uploaded l c t xfer))).cpu
        else c.pages) := by
  obtain ⟨⟨dma, -, hval⟩, -⟩ := dpuSetupSg_ok h.pinned h.mapped
  refine ⟨mappedInfo k t.xfer t.hostAddr dma, fun l c => ?_⟩
  let x := mappedInfo k t.xfer t.hostAddr dma
  let d := initDesc t.descAddr t.xfer.dir
  let m := mapTable k x d (mapSg k t.xfer t.hostAddr c.initial)
  have hok : (setHdmaDesc k x d).val.1 = 0 ∧ (setHdmaDesc k x d).val.2.1.descSize = tableSize t ∧
      (setHdmaDesc k x d).val.2.1.dir = t.xfer.dir := setHdmaDesc_ok h.kmalloc h.single
  obtain ⟨hdesc, hsize, -⟩ := hok
  have hsetup : (dpuSetupSg k t.xfer t.hostAddr).val.1 = 0 := by rw [hval]
  have hm : m = ⟨((Buffer.mk c.descs c.descSlot).map (dataDirection t.xfer.dir)).store
      (writeTable x d), (Buffer.mk c.pages c.pageSlots).map (dataDirection t.xfer.dir)⟩ := by
    simp only [m, mapTable, mapSg, hdesc, hsetup, if_true]
    rfl
  have hfetch : fetchTable l (setHdmaDesc k x d).val.2.1 m = uploaded l c t x := by
    rw [fetchTable, Descriptor.uploadBytes_eq, hsize, hm]
    rfl
  have hupload : ∀ desc, (tranferDesc k t.chDesc desc).val = waitCode k.waitDesc := fun _ => rfl
  have hdata := dmaLlmodeTransmit_eq_zero k t.chData (setHdmaDesc k x d).val.2.1 t.enable t.regs
  by_cases hwait : k.waitDesc = 0
  · have hcode : waitCode k.waitDesc ≠ 0 := by simp [waitCode, hwait]
    have hno : ¬ Completes k t := fun hc => hc.waitDesc hwait
    simp [runTransfer, hval, hdesc, hupload, hcode, hno, hfetch, x, d, m] at hfetch ⊢
  · have hcode : waitCode k.waitDesc = 0 := waitCode_eq_zero.mpr hwait
    have hcompletes : Completes k t ↔
        (dmaLlmodeTransmit k t.chData (setHdmaDesc k x d).val.2.1 t.enable t.regs).val = 0 := by
      rw [hdata]
      exact ⟨fun hc => ⟨hc.batch, hc.waitData⟩, fun hb => ⟨hwait, hb.1, hb.2⟩⟩
    by_cases hret :
        (dmaLlmodeTransmit k t.chData (setHdmaDesc k x d).val.2.1 t.enable t.regs).val = 0
    · have hyes : Completes k t := hcompletes.mpr hret
      have hpages : t.xfer.dir = .devToMem →
          (moveData l c t.xfer.dir t.enable (uploaded l c t x) m).pages.cpu =
            if t.enable = dmaEnable then
              ((Buffer.mk c.pages c.pageSlots).deviceStore l (c.device (uploaded l c t x))).cpu
            else c.pages := by
        intro hdir
        rw [hm, hdir, moveData_devToMem_pages, apply_ite Buffer.cpu]
        rfl
      simp [runTransfer, hval, hdesc, hupload, hcode, hyes, hret, hfetch, releaseSg, unmapTable,
        x, d, m] at hfetch hret hpages ⊢
      exact hpages
    · have hno : ¬ Completes k t := fun hc => hret (hcompletes.mp hc)
      simp [runTransfer, hval, hdesc, hupload, hcode, hno, hret, hfetch, x, d, m] at hfetch hret ⊢

theorem uploaded_nil (h : tableWords t = 0) (l : Layer) (c : Contents) (xfer : DpuXferInfo) :
    uploaded l c t xfer = [] := by
  rw [uploaded, h]
  rfl

def zeroed : Contents where
  descs _ := 0#32
  descSlot _ := 0#32
  pages _ := 0#8
  pageSlots _ := 0#8
  device _ _ := some 1#8

/-- The first word of the table is missing in the slot. -/
theorem uploaded_ne (h : tableWords t ≠ 0) (xfer : DpuXferInfo) :
    uploaded .direct zeroed t xfer ≠ uploaded .bounce zeroed t xfer := by
  intro heq
  obtain ⟨n, hn⟩ := Nat.exists_eq_succ_of_ne_zero h
  have hhead := congrArg List.head? heq
  simp only [uploaded, hn, List.range_succ_eq_map, List.map_cons, List.head?_cons,
    Option.some.injEq, Buffer.fetch_direct_store, Buffer.fetch_bounce_store, zeroed,
    ite_self] at hhead
  exact writeTable_word_zero _ _ _ hhead

/-- The mapping does not matter exactly when the device is not started, or when it is
given no table and writes no byte of the pages that counts. -/
theorem mappingIndependent_iff (k : Kernel) (t : Transfer) (err : Int → Int) :
    MappingIndependent k t err ↔
      ¬ Starts k t ∨ tableWords t = 0 ∧
        ¬ (t.xfer.dir = .devToMem ∧ t.enable = dmaEnable ∧ Completes k t) := by
  by_cases h : Starts k t
  · obtain ⟨xfer, hrun⟩ := runTransfer_starts err h
    constructor
    · intro hind
      have htable := hind.table zeroed
      rw [(hrun .direct zeroed).1, (hrun .bounce zeroed).1, Option.some.injEq] at htable
      refine Or.inr ⟨?_, ?_⟩
      · by_contra hwords
        exact uploaded_ne hwords xfer htable
      · rintro ⟨hdir, henable, hc⟩
        have hpages := hind.pages zeroed hdir ((hrun .direct zeroed).2.1.mpr hc)
        rw [(hrun .direct zeroed).2.2 hc hdir, (hrun .bounce zeroed).2.2 hc hdir, if_pos henable,
          if_pos henable, Buffer.cpu_deviceStore_direct, Buffer.cpu_deviceStore_bounce] at hpages
        have hbyte : 1#8 = 0#8 := congrFun hpages (0, 0)
        cases hbyte
    · rintro (hno | ⟨hwords, hno⟩)
      · exact absurd h hno
      · refine ⟨fun c => ?_, fun c hdir hsuccess => ?_⟩
        · rw [(hrun .direct c).1, (hrun .bounce c).1, uploaded_nil hwords, uploaded_nil hwords]
        · -- a successful read leaves the pages alone only when its doorbell is not rung
          have hc := (hrun .direct c).2.1.mp hsuccess
          have henable : ¬ t.enable = dmaEnable := fun hrung => hno ⟨hdir, hrung, hc⟩
          rw [(hrun .direct c).2.2 hc hdir, (hrun .bounce c).2.2 hc hdir, if_neg henable,
            if_neg henable]
  · refine iff_of_true ⟨fun c => ?_, fun c _ hsuccess => ?_⟩ (Or.inl h)
    · rw [(runTransfer_not_starts h .direct c).1, (runTransfer_not_starts h .bounce c).1]
    · rw [(runTransfer_not_starts h .direct c).2] at hsuccess
      cases hsuccess

end

def pageIn : Transfer :=
  inboundTransfer ⟨.rd, 0⟩ 0x7fff0000#64 0x50000000#64 0x1000#64 0x48001000#64 dmaEnable
    ⟨0, 0, fun _ => ⟨0, 0⟩⟩

def pageOut : Transfer :=
  outboundTransfer ⟨.wr, 0⟩ ⟨.rd, 0⟩ 0x7fff0000#64 0x50000000#64 0x1000#64 0x48001000#64 dmaEnable
    ⟨0, 0, fun _ => ⟨0, 0⟩⟩

/-- Through bounce buffers the device fetches zeros in place of the table, and a read
that returns 0 leaves the page as it was. -/
theorem bounce_differs :
    (runTransfer .bounce granting zeroed pageIn id).fetched = some (List.replicate 12 0#32) ∧
      (runTransfer .direct granting zeroed pageIn id).fetched ≠
        (runTransfer .bounce granting zeroed pageIn id).fetched ∧
      (runTransfer .bounce granting zeroed pageOut id).ret = 0 ∧
      (runTransfer .bounce granting zeroed pageOut id).pages (0, 0) = 0#8 ∧
      (runTransfer .direct granting zeroed pageOut id).pages (0, 0) = 1#8 ∧
      ¬ MappingIndependent granting pageIn id ∧ ¬ MappingIndependent granting pageOut id := by
  have hin : (runTransfer .direct granting zeroed pageIn id).fetched ≠
      (runTransfer .bounce granting zeroed pageIn id).fetched := by decide
  have hbounce : (runTransfer .bounce granting zeroed pageOut id).pages (0, 0) = 0#8 := by decide
  have hdirect : (runTransfer .direct granting zeroed pageOut id).pages (0, 0) = 1#8 := by decide
  refine ⟨by decide, hin, by decide, hbounce, hdirect, fun h => hin (h.table zeroed), fun h => ?_⟩
  have hsame := congrFun (h.pages zeroed rfl (by decide)) (0, 0)
  rw [hbounce, hdirect] at hsame
  cases hsame

end EonDrv.Ioctl

import EonDrv.Ioctl.Mapping
import EonDrv.Support.Overwrite

/-!
# What the table keeps of its buffer

`kmalloc` does not clear the buffer of the table, and no assignment of `set_data_element`
or `set_link_element` reaches the reserved fields.  Those bits are uploaded with what the
memory held before.
-/

namespace EonDrv.Descriptor

open BitField RegisterFile Ioctl

/-! ## Elements -/

/-- `reserved0` and `reserved1` of `struct dma_cmd_desc`. -/
def DataReserved (b : Nat) : Prop := b = 1 ∨ 5 ≤ b

/-- A data element keeps the reserved bits of its first word, and what is outside. -/
def DataKeeps (k i b : Nat) : Prop := i < 6 * k ∨ 6 * k + 6 ≤ i ∨ i = 6 * k ∧ DataReserved b

/-- A link element keeps `reserved0`, `reserved1` and `reserved[2]`, and what is outside. -/
def LinkKeeps (k i b : Nat) : Prop :=
  i < 6 * k ∨ 6 * k + 6 ≤ i ∨ i = 6 * k ∧ 3 ≤ b ∨ i = 6 * k + 1 ∨ i = 6 * k + 4 ∨ i = 6 * k + 5

theorem dataFlags_getLsbD (old : BitVec 32) (lie rie cb : BitVec 8) {b : Nat} (hb : b < 32) :
    (dataFlags old lie rie cb).getLsbD b =
      if b = rieBit then bit rie else if b = lieBit then bit lie
      else if b = llpBit then false else if b = cbBit then bit cb else old.getLsbD b := by
  rw [dataFlags, getLsbD_withBit _ _ _ _ hb, getLsbD_withBit _ _ _ _ hb,
    getLsbD_withBit _ _ _ _ hb, getLsbD_withBit _ _ _ _ hb]

theorem linkFlags_getLsbD (old : BitVec 32) (tcb cb : BitVec 8) {b : Nat} (hb : b < 32) :
    (linkFlags old tcb cb).getLsbD b =
      if b = llpBit then true else if b = tcbBit then bit tcb
      else if b = cbBit then bit cb else old.getLsbD b := by
  rw [linkFlags, getLsbD_withBit _ _ _ _ hb, getLsbD_withBit _ _ _ _ hb,
    getLsbD_withBit _ _ _ _ hb]

theorem setDataElement_overwrites (k : Nat) (src dst : BitVec 64) (len : BitVec 32)
    (lie rie cb : BitVec 8) :
    Overwrites (DataKeeps k) fun mem => setDataElement mem (6 * k) src dst len lie rie cb := by
  have hwords := fun mem => setDataElement_holds mem (6 * k) src dst len lie rie cb
  simp only [Holds, dataStores, List.forall_mem_cons, List.not_mem_nil, false_imp_iff,
    implies_true, and_true] at hwords
  constructor
  · rintro mem i b hlt (hi | hi | ⟨rfl, hb⟩)
    · rw [setDataElement_of_outside _ _ _ _ _ _ _ (Or.inl hi)]
    · rw [setDataElement_of_outside _ _ _ _ _ _ _ (Or.inr hi)]
    · unfold DataReserved at hb
      rw [(hwords mem).1, dataFlags_getLsbD _ _ _ _ hlt, if_neg (by unfold rieBit; omega),
        if_neg (by unfold lieBit; omega), if_neg (by unfold llpBit; omega),
        if_neg (by unfold cbBit; omega)]
  · intro mem mem' i b hlt hb
    obtain ⟨h0, h4, h5, h2, h3, h1⟩ := hwords mem
    obtain ⟨h0', h4', h5', h2', h3', h1'⟩ := hwords mem'
    simp only [DataKeeps, not_or, not_and] at hb
    obtain ⟨hlo, hhi, hreserved⟩ := hb
    have hi : i = 6 * k ∨ i = 6 * k + 1 ∨ i = 6 * k + 2 ∨ i = 6 * k + 3 ∨ i = 6 * k + 4 ∨
        i = 6 * k + 5 := by omega
    rcases hi with rfl | rfl | rfl | rfl | rfl | rfl
    · have hbits : b = cbBit ∨ b = llpBit ∨ b = lieBit ∨ b = rieBit := by
        have hnot := hreserved rfl
        unfold DataReserved at hnot
        simp only [cbBit, llpBit, lieBit, rieBit]
        omega
      rw [h0, h0', dataFlags_getLsbD _ _ _ _ hlt, dataFlags_getLsbD _ _ _ _ hlt]
      rcases hbits with rfl | rfl | rfl | rfl <;> rfl
    · rw [h1, h1']
    · rw [h2, h2']
    · rw [h3, h3']
    · rw [h4, h4']
    · rw [h5, h5']

theorem setLinkElement_overwrites (k : Nat) (addr : BitVec 64) (tcb cb : BitVec 8) :
    Overwrites (LinkKeeps k) fun mem => setLinkElement mem (6 * k) addr tcb cb := by
  have hwords := fun mem => setLinkElement_holds mem (6 * k) addr tcb cb
  simp only [Holds, linkStores, List.forall_mem_cons, List.not_mem_nil, false_imp_iff,
    implies_true, and_true] at hwords
  have hother : ∀ mem i, i ≠ 6 * k → i ≠ 6 * k + 2 → i ≠ 6 * k + 3 →
      setLinkElement mem (6 * k) addr tcb cb i = mem i := by
    intro mem i h0 h2 h3
    apply storeAll_of_not_mem
    simp [linkStores, h0, h2, h3]
  constructor
  · intro mem i b hlt hb
    unfold LinkKeeps at hb
    by_cases hi : i = 6 * k
    · subst hi
      rw [(hwords mem).1, linkFlags_getLsbD _ _ _ hlt, if_neg (by unfold llpBit; omega),
        if_neg (by unfold tcbBit; omega), if_neg (by unfold cbBit; omega)]
    · rw [hother mem i hi (by omega) (by omega)]
  · intro mem mem' i b hlt hb
    obtain ⟨h0, h2, h3⟩ := hwords mem
    obtain ⟨h0', h2', h3'⟩ := hwords mem'
    unfold LinkKeeps at hb
    have hi : i = 6 * k ∧ b < 3 ∨ i = 6 * k + 2 ∨ i = 6 * k + 3 := by omega
    rcases hi with ⟨rfl, hlow⟩ | rfl | rfl
    · have hbits : b = cbBit ∨ b = tcbBit ∨ b = llpBit := by
        simp only [cbBit, tcbBit, llpBit]
        omega
      rw [h0, h0', linkFlags_getLsbD _ _ _ hlt, linkFlags_getLsbD _ _ _ hlt]
      rcases hbits with rfl | rfl | rfl <;> rfl
    · rw [h2, h2']
    · rw [h3, h3']

/-! ## The table -/

def RoundsKeep (k n i b : Nat) : Prop :=
  i < 6 * k ∨ 6 * (k + n) ≤ i ∨ i % 6 = 0 ∧ DataReserved b

/-- The reserved bits of a table of `n` data elements, and what is behind its link element. -/
def TableKeeps (n i b : Nat) : Prop := RoundsKeep 0 n i b ∧ LinkKeeps n i b

/-- A round overwrites its element; where it goes on does not depend on the memory. -/
theorem fillStep_overwrites (xfer : DpuXferInfo) (s : FillState) (sg : SgEntry) {k : Nat}
    (hdesc : s.desc = 6 * k) :
    ∃ f, Overwrites (DataKeeps k) f ∧
      ∀ mem, fillStep xfer { s with mem := mem } sg = { fillStep xfer s sg with mem := f mem } := by
  let last : BitVec 8 := if s.i = xfer.sglen - 1#32 then 1#8 else 0#8
  let len : BitVec 32 := (sg.dmaLen.zeroExtend 64).truncate 32
  have hround : ∃ src dst, ∀ mem, fillStep xfer { s with mem := mem } sg =
      { fillStep xfer s sg with mem := setDataElement mem s.desc src dst len last last 1#8 } := by
    by_cases hdir : xfer.dir = .memToDev
    · refine ⟨sg.dmaAddress + s.offset, xfer.align.dst + s.xferLen, fun mem => ?_⟩
      simp only [fillStep, hdir, if_true, last, len]
    · refine ⟨xfer.align.src + s.xferLen, sg.dmaAddress + s.offset, fun mem => ?_⟩
      simp only [fillStep, hdir, if_false, last, len]
  obtain ⟨src, dst, hround⟩ := hround
  have hover := setDataElement_overwrites k src dst len last last 1#8
  rw [← hdesc] at hover
  exact ⟨_, hover, hround⟩

theorem foldl_overwrites (xfer : DpuXferInfo) (sgl : List SgEntry) {s : FillState} {k : Nat}
    (hdesc : s.desc = 6 * k) :
    Overwrites (RoundsKeep k sgl.length) fun mem =>
      (sgl.foldl (fillStep xfer) { s with mem := mem }).mem := by
  induction sgl generalizing s k with
  | nil =>
      refine Overwrites.id.congr fun i b => ?_
      simp only [RoundsKeep, List.length_nil, true_iff]
      omega
  | cons sg rest ih =>
      obtain ⟨f, hf, hround⟩ := fillStep_overwrites xfer s sg hdesc
      have hnext : (fillStep xfer s sg).desc = 6 * (k + 1) := by
        show s.desc + 6 = _
        omega
      have hrest := (ih hnext).comp hf
      simp only [← hround] at hrest
      refine hrest.congr fun i b => ?_
      simp only [DataKeeps, RoundsKeep, DataReserved, List.length_cons]
      omega

theorem foldl_desc (xfer : DpuXferInfo) (sgl : List SgEntry) (s : FillState) :
    (sgl.foldl (fillStep xfer) s).desc = s.desc + 6 * sgl.length := by
  induction sgl generalizing s with
  | nil => rfl
  | cons sg rest ih =>
      have hround : (fillStep xfer s sg).desc = s.desc + 6 := rfl
      rw [List.foldl_cons, ih, hround, List.length_cons]
      omega

theorem writeTable_overwrites (x : MappedXfer) (desc : DpuDescInfo) :
    Overwrites (TableKeeps x.sgt.sgl.length) (writeTable x.toDpuXferInfo desc) := by
  have hfill := foldl_overwrites x.toDpuXferInfo x.sgt.sgl
    (s := ⟨0, 0, 0, 0, fun _ => 0#32⟩) (k := 0) rfl
  have hlink := (setLinkElement_overwrites x.sgt.sgl.length desc.descDeviceAddr 1#8 0#8).comp hfill
  have htable : writeTable x.toDpuXferInfo desc = fun mem =>
      setLinkElement (x.sgt.sgl.foldl (fillStep x.toDpuXferInfo) ⟨0, 0, 0, 0, mem⟩).mem
        (6 * x.sgt.sgl.length) desc.descDeviceAddr 1#8 0#8 := by
    funext mem
    rw [writeTable, fillDescs, ← x.sgl_length, List.take_length, foldl_desc, Nat.zero_add]
  rw [htable]
  exact hlink

/-! ## Two runs -/

/-- Equal scatter lists, directions, device addresses and link addresses. -/
structure SameRequest (x x' : MappedXfer) (desc desc' : DpuDescInfo) : Prop where
  sgl : x.sgt.sgl = x'.sgt.sgl
  dir : x.dir = x'.dir
  device : deviceSide x.toDpuXferInfo = deviceSide x'.toDpuXferInfo
  pointer : desc.descDeviceAddr = desc'.descDeviceAddr

section

variable {x x' : MappedXfer} {desc desc' : DpuDescInfo} (h : SameRequest x x' desc desc')

include h

theorem SameRequest.sglen : x.sglen = x'.sglen := by
  apply BitVec.eq_of_toNat_eq
  rw [← x.sgl_length, ← x'.sgl_length, h.sgl]

theorem SameRequest.fillStep : fillStep x.toDpuXferInfo = fillStep x'.toDpuXferInfo := by
  have hdevice := h.device
  funext s sg
  cases hdir : x.dir with
  | memToDev =>
      have hdir' : x'.dir = .memToDev := h.dir ▸ hdir
      simp only [deviceSide, hdir, hdir'] at hdevice
      simp only [Descriptor.fillStep, hdir, hdir', hdevice, h.sglen, if_true]
  | devToMem =>
      have hdir' : x'.dir = .devToMem := h.dir ▸ hdir
      simp only [deviceSide, hdir, hdir'] at hdevice
      simp only [Descriptor.fillStep, hdir, hdir', hdevice, h.sglen, reduceCtorEq, if_false]

theorem SameRequest.writeTable :
    writeTable x.toDpuXferInfo desc = writeTable x'.toDpuXferInfo desc' := by
  funext mem
  rw [Ioctl.writeTable, Ioctl.writeTable, fillDescs, fillDescs, h.fillStep, h.sgl, h.sglen,
    h.pointer]

end

def byteAt (mem : Words) (b : Nat) : BitVec 8 := (mem (b / 4) >>> (8 * (b % 4))).truncate 8

def uploadedBytes (regs : HdmaReg → BitVec 32) (desc : DpuDescInfo) (table : Words) :
    List (BitVec 8) :=
  (List.range (uploadBytes regs desc)).map (byteAt table)

theorem byteAt_getLsbD (mem : Words) (i : Nat) {j : Nat} (hj : j < 32) :
    (byteAt mem (4 * i + j / 8)).getLsbD (j % 8) = (mem i).getLsbD j := by
  have hword : (4 * i + j / 8) / 4 = i := by omega
  have hbit : 8 * ((4 * i + j / 8) % 4) + j % 8 = j := by omega
  have hlt : j % 8 < 8 := Nat.mod_lt _ (by omega)
  rw [byteAt, hword, BitVec.truncate_eq_setWidth, BitVec.getLsbD_setWidth,
    BitVec.getLsbD_ushiftRight, hbit, decide_eq_true hlt, Bool.true_and]

theorem map_byteAt_eq_iff (mem mem' : Words) (n : Nat) :
    (List.range (4 * n)).map (byteAt mem) = (List.range (4 * n)).map (byteAt mem') ↔
      ∀ i, i < n → mem i = mem' i := by
  rw [List.map_inj_left]
  simp only [List.mem_range]
  constructor
  · intro hbytes i hi
    refine BitVec.eq_of_getLsbD_eq fun j hj => ?_
    rw [← byteAt_getLsbD mem i hj, ← byteAt_getLsbD mem' i hj, hbytes _ (by omega)]
  · intro hwords b hb
    rw [byteAt, byteAt, hwords (b / 4) (by omega)]

/-- Two runs of `set_hdma_desc` show the device the same table. -/
structure SameUpload (k k' : Kernel) (x x' : MappedXfer) (desc desc' : DpuDescInfo)
    (regs regs' : HdmaReg → BitVec 32) : Prop where
  length : (uploadedBytes regs (setHdmaDesc k x.toDpuXferInfo desc).val.2.1
    (setHdmaDesc k x.toDpuXferInfo desc).val.2.2).length = descBytes * (x.sgt.sgl.length + 1)
  bytes : uploadedBytes regs (setHdmaDesc k x.toDpuXferInfo desc).val.2.1
      (setHdmaDesc k x.toDpuXferInfo desc).val.2.2 =
    uploadedBytes regs' (setHdmaDesc k' x'.toDpuXferInfo desc').val.2.1
      (setHdmaDesc k' x'.toDpuXferInfo desc').val.2.2

/-- Before the two runs the buffers agree on the reserved bits of a table of `n` data
elements. -/
def AgreeReserved (k k' : Kernel) (n : Nat) : Prop :=
  ∀ i b, i < 6 * (n + 1) → b < 32 → TableKeeps n i b →
    (k.staleDescs i).getLsbD b = (k'.staleDescs i).getLsbD b

/-- The upload depends on the request alone exactly when the two buffers held the same
reserved bits before. -/
theorem sameUpload_iff {k k' : Kernel} (hk : k.KmallocBounded) (hk' : k'.KmallocBounded)
    {x x' : MappedXfer} {desc desc' : DpuDescInfo} (h : SameRequest x x' desc desc')
    (regs regs' : HdmaReg → BitVec 32) (hok : (setHdmaDesc k x.toDpuXferInfo desc).val.1 = 0)
    (hok' : (setHdmaDesc k' x'.toDpuXferInfo desc').val.1 = 0) :
    SameUpload k k' x x' desc desc' regs regs' ↔ AgreeReserved k k' x.sgt.sgl.length := by
  have hbytes := setHdmaDesc_uploadBytes hk hok regs
  have hbytes' := setHdmaDesc_uploadBytes hk' hok' regs'
  obtain ⟨-, -, -, htable⟩ := setHdmaDesc_val hok
  obtain ⟨-, -, -, htable'⟩ := setHdmaDesc_val hok'
  rw [← h.sgl] at hbytes'
  rw [← writeTable_staleDescs] at htable htable'
  rw [← h.writeTable] at htable'
  have hwords : descBytes * (x.sgt.sgl.length + 1) = 4 * (6 * (x.sgt.sgl.length + 1)) := by
    unfold descBytes
    omega
  have hover := writeTable_overwrites x desc
  have hequal := map_byteAt_eq_iff (writeTable x.toDpuXferInfo desc k.staleDescs)
    (writeTable x.toDpuXferInfo desc k'.staleDescs) (6 * (x.sgt.sgl.length + 1))
  constructor
  · intro hsame i b hi hb hkept
    have hbytesEq := hsame.bytes
    rw [uploadedBytes, uploadedBytes, hbytes, hbytes', htable, htable', hwords, hequal]
      at hbytesEq
    exact (hover.eq_iff _ _ i).mp (hbytesEq i hi) b hb hkept
  · intro hagree
    refine ⟨by rw [uploadedBytes, List.length_map, List.length_range, hbytes], ?_⟩
    rw [uploadedBytes, uploadedBytes, hbytes, hbytes', htable, htable', hwords, hequal]
    intro i hi
    exact (hover.eq_iff _ _ i).mpr fun b hb hkept => hagree i b hi hb hkept

/-- A kernel whose `kmalloc` hands out cleared memory. -/
def clearing : Kernel := { granting with staleDescs := fun _ => 0#32 }

/-- One that hands out memory with ones in the word of `sar_low`. -/
def staleSar : Kernel :=
  { granting with staleDescs := fun i => if i = 2 then 0xffffffff#32 else 0#32 }

/-- The assignment to `sar_low` covers the difference. -/
theorem staleSar_sameUpload :
    SameUpload clearing staleSar twoPages twoPages twoPagesDesc twoPagesDesc (fun _ => 0#32)
      fun _ => 0xffffffff#32 := by
  have hcleared : clearing.KmallocBounded := granting_kmallocBounded
  have hstale : staleSar.KmallocBounded := granting_kmallocBounded
  refine (sameUpload_iff hcleared hstale ⟨rfl, rfl, rfl, rfl⟩ _ _ (by decide) (by decide)).mpr ?_
  intro i b hi hb hkept
  have hsar : i ≠ 2 := by
    rintro rfl
    revert hkept
    simp [TableKeeps, RoundsKeep, twoPages]
  show (0#32).getLsbD b = (if i = 2 then 0xffffffff#32 else 0#32).getLsbD b
  rw [if_neg hsar]

/-- Cleared memory in the one run and ones in the other: the first byte of the table and
the second word of its link element tell them apart. -/
theorem stale_reaches_device :
    (setHdmaDesc clearing twoPages.toDpuXferInfo twoPagesDesc).val.1 = 0 ∧
      (setHdmaDesc granting twoPages.toDpuXferInfo twoPagesDesc).val.1 = 0 ∧
      byteAt (setHdmaDesc clearing twoPages.toDpuXferInfo twoPagesDesc).val.2.2 0 = 0x01#8 ∧
      byteAt (setHdmaDesc granting twoPages.toDpuXferInfo twoPagesDesc).val.2.2 0 = 0xe3#8 ∧
      (setHdmaDesc clearing twoPages.toDpuXferInfo twoPagesDesc).val.2.2 13 = 0#32 ∧
      (setHdmaDesc granting twoPages.toDpuXferInfo twoPagesDesc).val.2.2 13 = 0xffffffff#32 ∧
      SameRequest twoPages twoPages twoPagesDesc twoPagesDesc ∧
      ¬ SameUpload clearing granting twoPages twoPages twoPagesDesc twoPagesDesc
        (fun _ => 0#32) fun _ => 0#32 := by
  refine ⟨by decide, by decide, by decide, by decide, by decide, by decide,
    ⟨rfl, rfl, rfl, rfl⟩, fun hsame => ?_⟩
  have hfirst := congrArg List.head? hsame.bytes
  revert hfirst
  decide

end EonDrv.Descriptor

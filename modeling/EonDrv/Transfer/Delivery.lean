import EonDrv.Ioctl.Mapping
import EonDrv.Ioctl.Request
import EonDrv.Transfer.Block

/-!
# What a transfer does to memory

The upload and the data stage of one transfer on the memories of the host and the
device: from `get_user_pages_fast` to the last copy of the engine, the bytes of the
caller's range and of the device range are exchanged one by one and nothing else
changes.
-/

namespace EonDrv.Transfer

open Completion (storeBytes)
open Descriptor (Words descBytes readElement requested uploadBytes uploadAddr startAddr cycleState)
open Ioctl (Kernel PinsInOrder Tiles SgPage PinFails SgFails sgPages pinCount initDesc tableSize)
open ScatterGather (perform block)

/-! ## Ranges of device addresses -/

/-- `a` is one of the `len` addresses from `addr` on. -/
def InRange (addr : BitVec 64) (len : Nat) (a : BitVec 64) : Prop := (a - addr).toNat < len

theorem inRange_iff {addr a : BitVec 64} {len : Nat} (h : addr.toNat + len ≤ 2 ^ 64) :
    InRange addr len a ↔ addr.toNat ≤ a.toNat ∧ a.toNat < addr.toNat + len := by
  have hlt := a.isLt
  rw [InRange, BitVec.toNat_sub]
  omega

theorem inRange_add (addr : BitVec 64) {len j : Nat} (hlen : len ≤ 2 ^ 64) (hj : j < len) :
    InRange addr len (addr + BitVec.ofNat 64 j) := by
  rw [InRange, BitVec.add_comm, BitVec.add_sub_cancel, BitVec.toNat_ofNat,
    Nat.mod_eq_of_lt (by omega)]
  exact hj

theorem add_ofNat_injective (addr : BitVec 64) {i j : Nat} (hi : i < 2 ^ 64) (hj : j < 2 ^ 64)
    (h : addr + BitVec.ofNat 64 i = addr + BitVec.ofNat 64 j) : i = j := by
  have hnat := congrArg BitVec.toNat ((BitVec.add_right_inj addr).mp h)
  rwa [BitVec.toNat_ofNat, BitVec.toNat_ofNat, Nat.mod_eq_of_lt hi, Nat.mod_eq_of_lt hj] at hnat

theorem storeBytes_of_not_inRange {mem : DeviceMem} {addr a : BitVec 64} {bs : List (BitVec 8)}
    (h : ¬ InRange addr bs.length a) : storeBytes mem addr bs a = mem a := by
  rw [storeBytes, List.getD_eq_default _ _ (Nat.not_lt.mp h)]

/-! ## The two stages -/

section

variable (k : Kernel) (iommu : BitVec 64 → HostByte) (regs : HdmaReg → BitVec 32)

/-- The table that `set_hdma_desc` leaves for a transfer, and its buffer. -/
def transferTable (t : Ioctl.Transfer) : Words :=
  (Ioctl.setHdmaDesc k (t.setup k.stages).val.2 (initDesc t.descAddr t.xfer.dir)).val.2.2

def transferDesc (t : Ioctl.Transfer) : DpuDescInfo := (t.table k.stages).val.2

def uploadTable (t : Ioctl.Transfer) (m : Memories) : Memories :=
  let desc := transferDesc k t
  { m with
    device := storeBytes m.device (uploadAddr regs desc)
      (tableBytes (transferTable k t) (uploadBytes regs desc / 4)) }

/-- The data stage reads no more elements than were uploaded. -/
def runData (t : Ioctl.Transfer) (m : Memories) : Option Memories :=
  let desc := transferDesc k t
  runFrom iommu t.chData.rwType (cycleState regs desc) (uploadBytes regs desc / descBytes)
    (startAddr regs desc) m

/-- A set-up stage fails, and no channel is programmed. -/
def SetupFails (t : Ioctl.Transfer) : Prop :=
  (t.setup k.stages).val.1 ≠ 0 ∨ (t.table k.stages).val.1 ≠ 0

instance (t : Ioctl.Transfer) : Decidable (SetupFails k t) := inferInstanceAs (Decidable (_ ∨ _))

/-- The batch is accepted and the data doorbell is rung. -/
def DataRung (t : Ioctl.Transfer) : Prop :=
  (∀ i, i < t.regs.count → regAddrAccepted (t.regs.write i).regAddr = true) ∧
    t.enable = dmaEnable

instance (t : Ioctl.Transfer) : Decidable (DataRung t) := inferInstanceAs (Decidable (_ ∧ _))

/-- The memories after a transfer, when the engine is done by the end of each wait. -/
def moveTransfer (t : Ioctl.Transfer) (m : Memories) : Option Memories :=
  if SetupFails k t then some m
  else if DataRung t then runData k iommu regs t (uploadTable k regs t m)
  else some (uploadTable k regs t m)

end

/-- The set-up stages succeed on a kernel that pins the pages of the range in order and
maps them as they come; `structPage n` is page `n` of the caller. -/
structure Served (k : Kernel) (iommu : BitVec 64 → HostByte) (structPage : Nat → Ptr)
    (t : Ioctl.Transfer) : Prop where
  kmalloc : k.KmallocBounded
  setup : (t.setup k.stages).val.1 = 0
  table : (t.table k.stages).val.1 = 0
  pos : 0 < t.xfer.size.toNat
  small : t.xfer.size.toNat < 2 ^ 32
  inOrder : PinsInOrder k structPage t.hostAddr t.xfer.size
  mapped : ∀ dma, k.pciMapSg (sgPages k t.hostAddr t.xfer.size) t.xfer.dir = some dma →
    MapsBytes iommu (sgPages k t.hostAddr t.xfer.size)
      ((List.range (sgPages k t.hostAddr t.xfer.size).length).map dma)

/-- The table lies outside of the device range that the transfer moves. -/
def TableApart (t : Ioctl.Transfer) : Prop :=
  ∀ a, InRange t.descAddr (tableSize t).toNat a →
    ¬ InRange (Descriptor.deviceSide t.xfer) t.xfer.size.toNat a

/-- No two pages of the caller's range are one page. -/
def PagesApart (structPage : Nat → Ptr) (t : Ioctl.Transfer) : Prop :=
  ∀ i j, i < t.xfer.size.toNat → j < t.xfer.size.toNat →
    structPage ((t.hostAddr.toNat + i) / 4096) = structPage ((t.hostAddr.toNat + j) / 4096) →
      (t.hostAddr.toNat + i) / 4096 = (t.hostAddr.toNat + j) / 4096

/-! ## The list and the table of a served transfer -/

section

variable {k : Kernel} {iommu : BitVec 64 → HostByte} {structPage : Nat → Ptr} {t : Ioctl.Transfer}

theorem Served.pinned (h : Served k iommu structPage t) :
    ¬ PinFails k t.hostAddr t.xfer.size ∧ ¬ SgFails k t.hostAddr t.xfer.size t.xfer.dir :=
  ⟨fun hp => Ioctl.setup_fails_of (.inl hp) h.setup,
    fun hs => Ioctl.setup_fails_of (.inr hs) h.setup⟩

theorem Served.count (h : Served k iommu structPage t) :
    (pinCount t.hostAddr t.xfer.size).toNat =
        Pages.count 4096 t.hostAddr.toNat t.xfer.size.toNat ∧
      (sgPages k t.hostAddr t.xfer.size).length = (pinCount t.hostAddr t.xfer.size).toNat ∧
      0 < (pinCount t.hostAddr t.xfer.size).toNat ∧
      (pinCount t.hostAddr t.xfer.size).toNat < 2 ^ 31 := by
  obtain ⟨hcount, -, hlt⟩ := Ioctl.pinCount_of_small t.hostAddr h.small
  have hint := Ioctl.pinCount_toInt hlt
  have hpos : 0 < Pages.count 4096 t.hostAddr.toNat t.xfer.size.toNat := by
    have hfirst := Nat.div_mul_le_self t.hostAddr.toNat 4096
    have hsize := h.pos
    rw [Pages.lt_count_iff (by omega), Nat.add_zero]
    omega
  refine ⟨by omega, ?_, by omega, hlt⟩
  rw [Ioctl.sgPages_eq_map, List.length_map, List.length_range, hint]

theorem Served.tiles (h : Served k iommu structPage t) :
    Tiles structPage t.hostAddr.toNat t.xfer.size.toNat (sgPages k t.hostAddr t.xfer.size) := by
  obtain ⟨hpin, -⟩ := h.pinned
  obtain ⟨hcount, hlen, -, hlt⟩ := h.count
  obtain ⟨-, hnr, -⟩ := Ioctl.pinCount_of_small t.hostAddr h.small
  obtain ⟨pages, hpages, horder⟩ := h.inOrder
  have hall : (Ioctl.pin k t.hostAddr t.xfer.size).pages.length =
      (Ioctl.getPagesNr t.hostAddr t.xfer.size).toNat := by
    rw [hpages, hnr, ← hcount]
    exact Ioctl.pinned_length hpin hpages
  rw [Ioctl.sgPages_eq_map, Ioctl.pinCount_toInt hlt, hcount]
  refine Ioctl.tiles_of_range h.pos h.small structPage fun i hi => ?_
  have hentry := Ioctl.getElem?_pinned hpin hall (i := i) (by omega)
  rw [hpages] at hentry
  exact horder i _ hentry

structure TableOf (k : Kernel) (t : Ioctl.Transfer) (mapped : List SgEntry) : Prop where
  bytes : ∀ regs, uploadBytes regs (transferDesc k t) = descBytes * (mapped.length + 1)
  size : (tableSize t).toNat = descBytes * (mapped.length + 1)
  descSize : (transferDesc k t).descSize = tableSize t
  addr : (transferDesc k t).descDeviceAddr = t.descAddr
  bounded : descBytes * (mapped.length + 1) < 2 ^ 32
  data : ∀ e ∈ (List.range mapped.length).map (readElement (transferTable k t)),
    e.cb = true ∧ e.llp = false
  copies : ((List.range mapped.length).map (readElement (transferTable k t))).map
    Descriptor.Element.copy = requested t.xfer.dir (Descriptor.deviceSide t.xfer) mapped
  stop : (readElement (transferTable k t) mapped.length).cb ≠ true

theorem Served.tableOf (h : Served k iommu structPage t) :
    ∃ mapped, MapsBytes iommu (sgPages k t.hostAddr t.xfer.size) mapped ∧ TableOf k t mapped := by
  obtain ⟨hpin, hsg⟩ := h.pinned
  obtain ⟨-, hlen, hpos, hlt⟩ := h.count
  obtain ⟨⟨dma, hdma, hval⟩, -⟩ := Ioctl.dpuSetupSg_ok hpin hsg
  have hmaps := h.mapped dma hdma
  rw [hlen] at hmaps
  let x := Ioctl.mappedXfer k t dma hpos hlt
  have hx : (t.setup k.stages).val.2 = x.toDpuXferInfo := congrArg Prod.snd hval
  have hok : (Ioctl.setHdmaDesc k x.toDpuXferInfo (initDesc t.descAddr t.xfer.dir)).val.1 = 0 := by
    rw [← hx]
    exact h.table
  have hlist : x.sgt.sgl = (List.range (pinCount t.hostAddr t.xfer.size).toNat).map dma := rfl
  obtain ⟨hptr, hsize, haddr, htable⟩ := Descriptor.setHdmaDesc_val hok
  have hdesc : transferDesc k t =
      (Ioctl.setHdmaDesc k x.toDpuXferInfo (initDesc t.descAddr t.xfer.dir)).val.2.1 := by
    rw [← hx]
    rfl
  have htab : transferTable k t =
      Ioctl.descTable k x.toDpuXferInfo (initDesc t.descAddr t.xfer.dir) := by
    rw [← htable, ← hx]
    rfl
  have hfit := Descriptor.descsSize_lt h.kmalloc hptr
  rw [Descriptor.descsSize_eq] at hfit
  refine ⟨_, hmaps, ?_⟩
  rw [← hlist]
  refine ⟨fun regs => ?_, Descriptor.descsSize_eq x, ?_, ?_, hfit, ?_, ?_, ?_⟩
  · rw [hdesc]
    exact Descriptor.setHdmaDesc_uploadBytes h.kmalloc hok regs
  · rw [hdesc]
    exact hsize
  · rw [hdesc]
    exact haddr
  · rw [htab]
    exact fun e he => Descriptor.data_descTable k x _ he
  · rw [htab]
    exact Descriptor.copies_descTable k x _
  · rw [htab, (Descriptor.lastElement_descTable k x _).1]
    decide

/-! ## The run -/

theorem length_busBytes (h : Served k iommu structPage t) {mapped : List SgEntry}
    (hmaps : MapsBytes iommu (sgPages k t.hostAddr t.xfer.size) mapped) :
    (busBytes mapped).length = t.xfer.size.toNat := by
  have hlen := congrArg List.length (hmaps.trans (pageBytes_of_tiles h.tiles))
  rwa [List.length_map, List.length_map, List.length_range] at hlen

def ShowsTable (k : Kernel) (t : Ioctl.Transfer) (n : Nat) (mem : DeviceMem) : Prop :=
  ∀ j, j ≤ n → elementAt mem (t.descAddr + BitVec.ofNat 64 (24 * j)) =
    readElement (transferTable k t) j

theorem showsTable_storeBytes (k : Kernel) (t : Ioctl.Transfer) {n : Nat} {mem : DeviceMem}
    (hbound : descBytes * (n + 1) < 2 ^ 32) :
    ShowsTable k t n
      (storeBytes mem t.descAddr (tableBytes (transferTable k t) (6 * (n + 1)))) := by
  rw [descBytes] at hbound
  intro j hj
  exact elementAt_storeBytes (by omega) (by omega)

/-- Where the table is shown, the engine runs it and stops at its link element. -/
theorem runFrom_shown (h : Served k iommu structPage t) {mapped : List SgEntry}
    (hmaps : MapsBytes iommu (sgPages k t.hostAddr t.xfer.size) mapped)
    (htable : TableOf k t mapped) {rwType : RwType}
    (hapart : rwType = .rd → t.xfer.dir = .memToDev ∧ TableApart t) {m : Memories}
    (hshows : ShowsTable k t mapped.length m.device) {fuel : Nat}
    (hfuel : mapped.length + 1 ≤ fuel) :
    runFrom iommu rwType true fuel t.descAddr m =
      some (doMoves iommu rwType
        ((requested t.xfer.dir (Descriptor.deviceSide t.xfer) mapped).flatMap copyMoves) m) := by
  have hsize := htable.size
  have hbound := htable.bounded
  rw [descBytes] at hsize hbound
  rw [← htable.copies, List.flatMap_map]
  refine runFrom_elements htable.data htable.stop ?_ ?_ ?_
  · intro j e he
    have hall : (List.range mapped.length).map (readElement (transferTable k t)) ++
        [readElement (transferTable k t) mapped.length] =
          (List.range (mapped.length + 1)).map (readElement (transferTable k t)) := by
      rw [List.range_succ, List.map_append]
      rfl
    rw [hall] at he
    have hj := (List.getElem?_eq_some_iff.mp he).1
    rw [List.length_map, List.length_range] at hj
    rw [List.getElem?_map, List.getElem?_range hj] at he
    rw [← Option.some.inj he]
    exact hshows j (by omega)
  · -- a destination of a copy is in the device range, and the table is not
    intro hrd b hb hmem
    obtain ⟨hdir, hclear⟩ := hapart hrd
    rw [List.length_map, List.length_range] at hb
    have hin : InRange t.descAddr (tableSize t).toNat (t.descAddr + BitVec.ofNat 64 b) :=
      inRange_add t.descAddr (by omega) (by omega)
    refine hclear _ hin ?_
    have hmoves := moves_requested t.xfer.dir (Descriptor.deviceSide t.xfer) mapped
    rw [← htable.copies, List.flatMap_map, hdir] at hmoves
    rw [hmoves, map_mapIdx] at hmem
    obtain ⟨j, hj, heq⟩ := List.mem_iff_getElem.mp hmem
    rw [List.length_mapIdx, length_busBytes h hmaps] at hj
    rw [List.getElem_mapIdx] at heq
    rw [← heq]
    exact inRange_add _ (Nat.le_of_lt (BitVec.isLt _)) hj
  · rw [List.length_map, List.length_range]
    exact hfuel

theorem Served.not_fails (h : Served k iommu structPage t) : ¬ SetupFails k t := by
  rintro (hsetup | htable)
  · exact hsetup h.setup
  · exact htable h.table

theorem device_uploadTable {mapped : List SgEntry} (htable : TableOf k t mapped)
    (regs : HdmaReg → BitVec 32) (m : Memories) :
    (uploadTable k regs t m).device = storeBytes m.device t.descAddr
      (tableBytes (transferTable k t) (6 * (mapped.length + 1))) := by
  have hwords : uploadBytes regs (transferDesc k t) / 4 = 6 * (mapped.length + 1) := by
    rw [htable.bytes, descBytes]
    omega
  show storeBytes m.device (uploadAddr regs (transferDesc k t)) (tableBytes _ _) = _
  rw [Descriptor.uploadAddr_eq, htable.addr, hwords]

theorem uploadTable_of_not_inRange (h : Served k iommu structPage t) {regs : HdmaReg → BitVec 32}
    {m : Memories} {a : BitVec 64} (ha : ¬ InRange t.descAddr (tableSize t).toNat a) :
    (uploadTable k regs t m).device a = m.device a := by
  obtain ⟨mapped, -, htable⟩ := h.tableOf
  have hsize := htable.size
  rw [descBytes] at hsize
  rw [device_uploadTable htable]
  refine storeBytes_of_not_inRange ?_
  rw [length_tableBytes]
  rw [hsize] at ha
  convert ha using 2
  omega

theorem runData_eq (h : Served k iommu structPage t)
    (hapart : t.chData.rwType = .rd → t.xfer.dir = .memToDev ∧ TableApart t)
    (regs : HdmaReg → BitVec 32) (m : Memories) :
    ∃ mapped, MapsBytes iommu (sgPages k t.hostAddr t.xfer.size) mapped ∧
      runData k iommu regs t (uploadTable k regs t m) =
        some (doMoves iommu t.chData.rwType
          ((requested t.xfer.dir (Descriptor.deviceSide t.xfer) mapped).flatMap copyMoves)
          (uploadTable k regs t m)) := by
  obtain ⟨mapped, hmaps, htable⟩ := h.tableOf
  have hfuel : uploadBytes regs (transferDesc k t) / descBytes = mapped.length + 1 := by
    rw [htable.bytes, descBytes]
    omega
  refine ⟨mapped, hmaps, ?_⟩
  show runFrom iommu t.chData.rwType (cycleState regs (transferDesc k t))
    (uploadBytes regs (transferDesc k t) / descBytes) (startAddr regs (transferDesc k t)) _ = _
  rw [hfuel, Descriptor.startAddr_eq, Descriptor.cycleState_eq, htable.addr]
  refine runFrom_shown h hmaps htable hapart ?_ (Nat.le_refl _)
  rw [device_uploadTable htable]
  exact showsTable_storeBytes k t htable.bounded

theorem moveTransfer_rung (h : Served k iommu structPage t) (hrung : DataRung t)
    (regs : HdmaReg → BitVec 32) (m : Memories) :
    moveTransfer k iommu regs t m = runData k iommu regs t (uploadTable k regs t m) := by
  rw [moveTransfer, if_neg h.not_fails, if_pos hrung]

/-! ## What has moved -/

/-- The bytes of the caller's range are at the device addresses.  Of the rest only the
place of the table may have changed. -/
structure DeliversIn (structPage : Nat → Ptr) (t : Ioctl.Transfer) (m m' : Memories) : Prop where
  delivered : ∀ j, j < t.xfer.size.toNat →
    m'.device (Descriptor.deviceSide t.xfer + BitVec.ofNat 64 j) =
      m.host (userByte structPage (t.hostAddr.toNat + j))
  device : ∀ a, ¬ InRange (Descriptor.deviceSide t.xfer) t.xfer.size.toNat a →
    ¬ InRange t.descAddr (tableSize t).toNat a → m'.device a = m.device a
  host : m'.host = m.host

/-- The bytes at the device addresses are in the caller's range. -/
structure DeliversOut (structPage : Nat → Ptr) (t : Ioctl.Transfer) (m m' : Memories) : Prop where
  delivered : ∀ j, j < t.xfer.size.toNat →
    m'.host (userByte structPage (t.hostAddr.toNat + j)) =
      m.device (Descriptor.deviceSide t.xfer + BitVec.ofNat 64 j)
  host : ∀ p, (∀ j, j < t.xfer.size.toNat → userByte structPage (t.hostAddr.toNat + j) ≠ p) →
    m'.host p = m.host p
  device : ∀ a, ¬ InRange t.descAddr (tableSize t).toNat a → m'.device a = m.device a

theorem userByte_injective (hpages : PagesApart structPage t) {i j : Nat}
    (hi : i < t.xfer.size.toNat) (hj : j < t.xfer.size.toNat)
    (heq : userByte structPage (t.hostAddr.toNat + i) =
      userByte structPage (t.hostAddr.toNat + j)) : i = j := by
  obtain ⟨hpage, hmod⟩ := Prod.mk.inj heq
  have hdiv := hpages i j hi hj hpage
  omega

theorem deliversIn_doMoves (h : Served k iommu structPage t) (hdir : t.xfer.dir = .memToDev)
    {mapped : List SgEntry} (hmaps : MapsBytes iommu (sgPages k t.hostAddr t.xfer.size) mapped)
    {m m₀ : Memories} (hhost : m.host = m₀.host)
    (hdevice : ∀ a, ¬ InRange t.descAddr (tableSize t).toNat a → m.device a = m₀.device a) :
    DeliversIn structPage t m₀ (doMoves iommu .rd
      ((requested t.xfer.dir (Descriptor.deviceSide t.xfer) mapped).flatMap copyMoves) m) := by
  have hsize := t.xfer.size.isLt
  rw [hdir, doMoves_memToDev h.tiles hmaps]
  refine ⟨fun j hj => ?_, fun a ha ha' => ?_, hhost⟩
  · show perform m.host _ m.device _ = _
    rw [ScatterGather.perform_block (f := fun k => userByte structPage (t.hostAddr.toNat + k))
      (g := fun k => Descriptor.deviceSide t.xfer + BitVec.ofNat 64 k) ?_ hj, hhost]
    exact fun i j hi hj heq => add_ofNat_injective _ (by omega) (by omega) heq
  · show perform m.host _ m.device a = _
    rw [ScatterGather.perform_block_of_ne ?_, hdevice a ha']
    rintro i hi rfl
    exact ha (inRange_add _ (by omega) hi)

theorem deliversOut_doMoves (h : Served k iommu structPage t) (hdir : t.xfer.dir = .devToMem)
    (happart : TableApart t) (hpages : PagesApart structPage t)
    {mapped : List SgEntry} (hmaps : MapsBytes iommu (sgPages k t.hostAddr t.xfer.size) mapped)
    {m m₀ : Memories} (hhost : m.host = m₀.host)
    (hdevice : ∀ a, ¬ InRange t.descAddr (tableSize t).toNat a → m.device a = m₀.device a) :
    DeliversOut structPage t m₀ (doMoves iommu .wr
      ((requested t.xfer.dir (Descriptor.deviceSide t.xfer) mapped).flatMap copyMoves) m) := by
  have hsize := t.xfer.size.isLt
  rw [hdir, doMoves_devToMem h.tiles hmaps]
  refine ⟨fun j hj => ?_, fun p hp => ?_, hdevice⟩
  · show perform m.device _ m.host _ = _
    rw [ScatterGather.perform_block (f := fun k => Descriptor.deviceSide t.xfer + BitVec.ofNat 64 k)
      (g := fun k => userByte structPage (t.hostAddr.toNat + k)) ?_ hj]
    · refine hdevice _ fun hin => happart _ hin (inRange_add _ (by omega) hj)
    · exact fun i j hi hj heq => userByte_injective hpages hi hj heq
  · show perform m.device _ m.host p = _
    rw [ScatterGather.perform_block_of_ne hp, hhost]

end

section

variable {k : Kernel} {iommu : BitVec 64 → HostByte} {structPage : Nat → Ptr}
  {args : HdmaMemArgs} {n : Fin maxHdmaNumber}

end

/-! ## Two bytes across a page boundary -/

def busOf (sgl : List SgPage) (i : Nat) : SgEntry :=
  match sgl[i]? with
  | some e => ⟨BitVec.ofNat 64 (0x80000000 + 0x10000 * i) + e.offset.zeroExtend 64, e.length⟩
  | none => ⟨0#64, 0#32⟩

def identity : Kernel :=
  { Ioctl.pinning with pciMapSg := fun sgl _ => if sgl.isEmpty then none else some (busOf sgl) }

def identityIommu (first : Nat) (a : BitVec 64) : HostByte :=
  (Ioctl.structPageAt (first + (a.toNat - 0x80000000) / 0x10000), a.toNat % 4096)

def twoBytes (op : BitVec 32) : HdmaMemArgs :=
  ⟨0x7fff0fff#64, 0x50000000#64, 2#64, 0x48001000#64, 0#32, op, dmaEnable,
    ⟨0#8, 0#8, fun _ => ⟨0#64, 0#32⟩⟩⟩

theorem served_identity (first : Nat) {t : Ioctl.Transfer} (hsize : t.xfer.size = 2#64)
    (hpins : (pinCount t.hostAddr 2#64).toNat < 2 ^ 31)
    (hmaps : MapsBytes (identityIommu first) (sgPages identity t.hostAddr 2#64)
      ((List.range (sgPages identity t.hostAddr 2#64).length).map
        (busOf (sgPages identity t.hostAddr 2#64))))
    (hsetup : (t.setup identity.stages).val.1 = 0) (htable : (t.table identity.stages).val.1 = 0) :
    Served identity (identityIommu first) Ioctl.structPageAt t where
  kmalloc size h := if_pos h
  setup := hsetup
  table := htable
  pos := by
    rw [hsize]
    decide
  small := by
    rw [hsize]
    decide
  inOrder := by
    rw [hsize]
    exact Ioctl.pinning_inOrder hpins
  mapped := by
    rw [hsize]
    intro dma hdma
    simp only [identity] at hdma
    split at hdma
    · cases hdma
    · obtain rfl := Option.some.inj hdma
      exact hmaps

theorem tableApart_of_le {t : Ioctl.Transfer}
    (hdevice : (Descriptor.deviceSide t.xfer).toNat + t.xfer.size.toNat ≤ 2 ^ 64)
    (hle : t.descAddr.toNat + (tableSize t).toNat ≤ (Descriptor.deviceSide t.xfer).toNat) :
    TableApart t := by
  intro a hin hout
  rw [inRange_iff (by omega)] at hin
  rw [inRange_iff hdevice] at hout
  omega

theorem pagesApart_structPageAt {t : Ioctl.Transfer}
    (hfit : t.hostAddr.toNat + t.xfer.size.toNat ≤ 2 ^ 52) :
    PagesApart Ioctl.structPageAt t := by
  intro i j hi hj heq
  have hnat := congrArg BitVec.toNat heq
  rw [Ioctl.structPageAt, Ioctl.structPageAt, BitVec.toNat_ofNat, BitVec.toNat_ofNat] at hnat
  omega

end EonDrv.Transfer

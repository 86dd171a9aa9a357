import EonDrv.Ioctl.Mapping
import EonDrv.Ioctl.SgList

/-!
# Segments of a mapped scatter list

`pci_map_sg` may merge entries and returns the number of segments it made.
`dpu_setup_sg` only compares the number with 0 and keeps the number of entries, which
is that of the elements `set_hdma_desc` writes.
-/

namespace EonDrv.Ioctl

open Descriptor (Element Words)

/-! ## What the mapping returns -/

/-- A mapping of `n` entries to segments, by what `sg_dma_address` and `sg_dma_len`
read of entry `i` afterwards. -/
structure MapResult (n : Nat) (dma : Nat → SgEntry) (segs : List SgEntry) : Prop where
  pos : 0 < segs.length
  le : segs.length ≤ n
  mapped : ∀ i s, segs[i]? = some s → dma i = s
  rest : ∀ i, segs.length ≤ i → i < n → (dma i).dmaLen = 0#32

/-! ## What the table says -/

def dataElements (table : Words) (desc : DpuDescInfo) : List Element :=
  (Descriptor.elements table desc.descSize.toNat).takeWhile fun e => !e.llp

def hostSegment (dir : DmaDir) (c : Descriptor.Copy) : SgEntry :=
  match dir with
  | .memToDev => ⟨c.src, c.size⟩
  | .devToMem => ⟨c.dst, c.size⟩

/-- One data element for each segment in order, none of them empty, with the interrupts
in the last one only. -/
structure FollowsMapping (dir : DmaDir) (segs : List SgEntry) (data : List Element) : Prop where
  segments : (data.map Element.copy).map (hostSegment dir) = segs
  nonempty : ∀ e ∈ data, e.transferSize ≠ 0#32
  interrupts : ∀ i e, data[i]? = some e →
    e.lie = decide (i + 1 = segs.length) ∧ e.rie = decide (i + 1 = segs.length)

/-! ## The elements that are written -/

section

variable (dir : DmaDir) (device : BitVec 64) (sgl : List SgEntry)

theorem hostSegment_requestedCopy (i : Nat) (s : SgEntry) :
    hostSegment dir (Descriptor.requestedCopy dir device sgl i s) = s := by
  cases dir <;> rfl

theorem size_requestedCopy (i : Nat) (s : SgEntry) :
    (Descriptor.requestedCopy dir device sgl i s).size = s.dmaLen := by
  cases dir <;> rfl

theorem interrupts_requestedCopy (i : Nat) (s : SgEntry) :
    (Descriptor.requestedCopy dir device sgl i s).lie = decide (i + 1 = sgl.length) ∧
      (Descriptor.requestedCopy dir device sgl i s).rie = decide (i + 1 = sgl.length) := by
  cases dir <;> exact ⟨rfl, rfl⟩

theorem hostSegments_requested :
    (Descriptor.requested dir device sgl).map (hostSegment dir) = sgl := by
  apply List.ext_getElem
  · simp [Descriptor.requested]
  · intro i hi hi'
    simp only [Descriptor.requested, List.getElem_map, List.getElem_mapIdx,
      hostSegment_requestedCopy]

variable {dir device sgl} {data : List Element}
  (hcopies : data.map Element.copy = Descriptor.requested dir device sgl)

include hcopies

theorem copy_of_requested {i : Nat} {e : Element} (he : data[i]? = some e) :
    ∃ s, sgl[i]? = some s ∧ e.copy = Descriptor.requestedCopy dir device sgl i s := by
  have hcopy : (data.map Element.copy)[i]? = some e.copy := by
    rw [List.getElem?_map, he, Option.map_some]
  rw [hcopies, Descriptor.requested, List.getElem?_mapIdx, Option.map_eq_some_iff] at hcopy
  obtain ⟨s, hs, hcopy⟩ := hcopy
  exact ⟨s, hs, hcopy.symm⟩

/-- Elements written for a list follow that list and no other, when it has no empty
entry. -/
theorem followsMapping_requested (segs : List SgEntry) :
    FollowsMapping dir segs data ↔ sgl = segs ∧ ∀ s ∈ sgl, s.dmaLen ≠ 0#32 := by
  have hsegments := hostSegments_requested dir device sgl
  rw [← hcopies] at hsegments
  constructor
  · intro h
    obtain rfl : sgl = segs := hsegments.symm.trans h.segments
    refine ⟨rfl, fun s hs => ?_⟩
    rw [← hsegments, List.map_map, List.mem_map] at hs
    obtain ⟨e, he, rfl⟩ := hs
    have hsize := h.nonempty e he
    cases dir <;> exact hsize
  · rintro ⟨rfl, hne⟩
    refine ⟨hsegments, fun e he => ?_, fun i e he => ?_⟩
    · obtain ⟨i, hi⟩ := List.mem_iff_getElem?.mp he
      obtain ⟨s, hs, hcopy⟩ := copy_of_requested hcopies hi
      have hsize := congrArg Descriptor.Copy.size hcopy
      rw [size_requestedCopy] at hsize
      rw [show e.transferSize = s.dmaLen from hsize]
      exact hne s (List.mem_of_getElem? hs)
    · obtain ⟨s, -, hcopy⟩ := copy_of_requested hcopies he
      have hlie := congrArg Descriptor.Copy.lie hcopy
      have hrie := congrArg Descriptor.Copy.rie hcopy
      rw [(interrupts_requestedCopy dir device sgl i s).1] at hlie
      rw [(interrupts_requestedCopy dir device sgl i s).2] at hrie
      exact ⟨hlie, hrie⟩

end

theorem dataElements_descTable (k : Kernel) (x : Descriptor.MappedXfer) (desc : DpuDescInfo)
    {desc' : DpuDescInfo} (hsize : desc'.descSize = descsSize x.toDpuXferInfo) :
    (dataElements (descTable k x.toDpuXferInfo desc) desc').map Element.copy =
      Descriptor.requested x.dir (Descriptor.deviceSide x.toDpuXferInfo) x.sgt.sgl := by
  have hlast := Descriptor.lastElement_descTable k x desc
  rw [dataElements, hsize, Descriptor.descsSize_eq, Descriptor.elements_succ,
    List.takeWhile_append_of_pos, List.takeWhile_cons_of_neg, List.append_nil,
    Descriptor.copies_descTable]
  · rw [hlast.2.2.1]
    decide
  · intro e he
    rw [(Descriptor.data_descTable k x desc he).2]
    rfl

/-! ## The list that is kept -/

/-- A successful `dpu_setup_sg` keeps every entry it gave to `pci_map_sg`. -/
theorem dpuSetupSg_mapped {k : Kernel} {xfer : DpuXferInfo} {hostAddr : BitVec 64}
    {dma : Nat → SgEntry} (hsetup : (dpuSetupSg k xfer hostAddr).val.1 = 0)
    (hdma : k.pciMapSg (sgPages k hostAddr xfer.size) xfer.dir = some dma) :
    (dpuSetupSg k xfer hostAddr).val.2 = mappedInfo k xfer hostAddr dma := by
  have hpin : ¬ PinFails k hostAddr xfer.size := fun hp => (dpuSetupSg_pinFails hp).1 hsetup
  have hsg : ¬ SgFails k hostAddr xfer.size xfer.dir := fun hs =>
    (dpuSetupSg_sgFails hpin hs).1 hsetup
  obtain ⟨⟨dma', hdma', hval⟩, -⟩ := dpuSetupSg_ok hpin hsg
  obtain rfl : dma = dma' := Option.some.inj (hdma.symm.trans hdma')
  rw [hval]

theorem sgPages_length_pos {k : Kernel} {buf len : BitVec 64}
    (hpos : 0 < (sgPages k buf len).length) :
    (sgPages k buf len).length = (pinCount buf len).toNat ∧
      (pinCount buf len).toNat < 2 ^ 31 := by
  rw [sgPages_eq_map, List.length_map, List.length_range] at hpos ⊢
  have hint := BitVec.toInt_eq_toNat_cond (pinCount buf len)
  have hlt := (pinCount buf len).isLt
  split at hint <;> omega

theorem MapResult.eq_iff {n : Nat} {dma : Nat → SgEntry} {segs : List SgEntry}
    (h : MapResult n dma segs) : (List.range n).map dma = segs ↔ segs.length = n := by
  constructor
  · intro heq
    rw [← heq, List.length_map, List.length_range]
  · intro hlen
    apply List.ext_getElem
    · rw [List.length_map, List.length_range, hlen]
    · intro i hi hi'
      rw [List.getElem_map, List.getElem_range]
      exact h.mapped i segs[i] (List.getElem?_eq_getElem hi')

/-- The table has one data element for each entry of the list, so it follows the mapping
exactly when no two entries were merged and no segment is empty. -/
theorem followsMapping_iff {k : Kernel} {xfer : DpuXferInfo} {hostAddr : BitVec 64}
    {desc : DpuDescInfo} {dma : Nat → SgEntry} {segs : List SgEntry}
    (hsetup : (dpuSetupSg k xfer hostAddr).val.1 = 0)
    (hdma : k.pciMapSg (sgPages k hostAddr xfer.size) xfer.dir = some dma)
    (hmap : MapResult (sgPages k hostAddr xfer.size).length dma segs)
    (hdesc : (setHdmaDesc k (dpuSetupSg k xfer hostAddr).val.2 desc).val.1 = 0) :
    let (_, desc', table) := (setHdmaDesc k (dpuSetupSg k xfer hostAddr).val.2 desc).val
    FollowsMapping xfer.dir segs (dataElements table desc') ↔
      segs.length = (sgPages k hostAddr xfer.size).length ∧ ∀ s ∈ segs, s.dmaLen ≠ 0#32 := by
  obtain ⟨hcount, hlt⟩ := sgPages_length_pos (Nat.lt_of_lt_of_le hmap.pos hmap.le)
  let x : Descriptor.MappedXfer := {
    mappedInfo k xfer hostAddr dma with
    sgl_length := by rw [mappedInfo, List.length_map, List.length_range]
    sglen_pos := Nat.lt_of_lt_of_le hmap.pos (hcount ▸ hmap.le)
    sglen_lt := hlt }
  have hx : (dpuSetupSg k xfer hostAddr).val.2 = x.toDpuXferInfo := dpuSetupSg_mapped hsetup hdma
  rw [hx] at hdesc ⊢
  obtain ⟨-, hsize, -, htable⟩ := Descriptor.setHdmaDesc_val hdesc
  have hcopies := dataElements_descTable k x desc hsize
  have heq := hmap.eq_iff
  have hfollows : FollowsMapping xfer.dir segs (dataElements (descTable k x.toDpuXferInfo desc)
      (setHdmaDesc k x.toDpuXferInfo desc).val.2.1) ↔
        x.sgt.sgl = segs ∧ ∀ s ∈ x.sgt.sgl, s.dmaLen ≠ 0#32 :=
    followsMapping_requested hcopies segs
  simp only [htable]
  rw [hfollows, hcount]
  rw [hcount] at heq
  constructor
  · rintro ⟨hsegs, hne⟩
    exact ⟨heq.mp hsegs, hsegs ▸ hne⟩
  · rintro ⟨hlen, hne⟩
    have hsegs : x.sgt.sgl = segs := heq.mpr hlen
    refine ⟨hsegs, fun s hs => hne s ?_⟩
    rwa [hsegs] at hs

theorem two_pages_followed :
    let segs : List SgEntry := [⟨0x80000000#64, 0x1000#32⟩, ⟨0x80010000#64, 0x1000#32⟩]
    let (_, desc', table) := (setHdmaDesc pinning
      (dpuSetupSg pinning (readXfer 0x2000#64) 0x7fff0000#64).val.2
      (initDesc 0x48001000#64 .memToDev)).val
    FollowsMapping .memToDev segs (dataElements table desc') := by
  have hsetup : (dpuSetupSg pinning (readXfer 0x2000#64) 0x7fff0000#64).val.1 = 0 := by decide
  have hmap : MapResult (sgPages pinning 0x7fff0000#64 (readXfer 0x2000#64).size).length
      (fun i => ⟨BitVec.ofNat 64 (0x80000000 + 0x10000 * i), 0x1000#32⟩)
      [⟨0x80000000#64, 0x1000#32⟩, ⟨0x80010000#64, 0x1000#32⟩] := by
    refine ⟨by decide, by decide, ?_, fun i hlo hhi => ?_⟩
    · rintro (_ | _ | i) s hs
      · exact Option.some.inj hs
      · exact Option.some.inj hs
      · cases hs
    · exact absurd (Nat.lt_of_le_of_lt hlo hhi) (by decide)
  have hdesc : (setHdmaDesc pinning (dpuSetupSg pinning (readXfer 0x2000#64) 0x7fff0000#64).val.2
      (initDesc 0x48001000#64 .memToDev)).val.1 = 0 := by decide
  exact (followsMapping_iff hsetup rfl hmap hdesc).mpr ⟨by decide, by decide⟩

/-- A DMA layer that maps a list as one segment. -/
def merging : Kernel :=
  { pinning with
    pciMapSg := fun sgl _ =>
      if sgl.isEmpty then none
      else some fun i =>
        if i = 0 then ⟨0x80000000#64, BitVec.ofNat 32 (sgLength sgl)⟩ else ⟨0#64, 0#32⟩ }

/-- The same two pages, merged.  The table has an empty element behind that of the
segment, and the interrupts are on it. -/
theorem merged_not_followed :
    let segs : List SgEntry := [⟨0x80000000#64, 0x2000#32⟩]
    let (ret, xfer) := (dpuSetupSg merging (readXfer 0x2000#64) 0x7fff0000#64).val
    let (ret', desc', table) := (setHdmaDesc merging xfer (initDesc 0x48001000#64 .memToDev)).val
    ret = 0 ∧ ret' = 0 ∧
      (∃ dma, merging.pciMapSg (sgPages merging 0x7fff0000#64 0x2000#64) .memToDev = some dma ∧
        MapResult (sgPages merging 0x7fff0000#64 0x2000#64).length dma segs) ∧
      (dataElements table desc').map Element.copy =
        [⟨0x2000#32, 0x80000000#64, 0x50000000#64, false, false⟩,
          ⟨0#32, 0#64, 0x50002000#64, true, true⟩] ∧
      ¬ FollowsMapping .memToDev segs (dataElements table desc') := by
  have hcopies : (dataElements (setHdmaDesc merging
        (dpuSetupSg merging (readXfer 0x2000#64) 0x7fff0000#64).val.2
        (initDesc 0x48001000#64 .memToDev)).val.2.2
      (setHdmaDesc merging (dpuSetupSg merging (readXfer 0x2000#64) 0x7fff0000#64).val.2
        (initDesc 0x48001000#64 .memToDev)).val.2.1).map Element.copy =
      [⟨0x2000#32, 0x80000000#64, 0x50000000#64, false, false⟩,
        ⟨0#32, 0#64, 0x50002000#64, true, true⟩] := by decide
  refine ⟨by decide, by decide, ⟨_, rfl, by decide, by decide, ?_, ?_⟩, hcopies, fun h => ?_⟩
  · rintro (_ | i) s hs
    · obtain rfl : (⟨0x80000000#64, 0x2000#32⟩ : SgEntry) = s := Option.some.inj hs
      decide
    · cases hs
  · intro i hlo hhi
    rw [if_neg (by rintro rfl; exact absurd hlo (by decide))]
  · have hsegs := congrArg List.length h.segments
    rw [List.length_map, hcopies] at hsegs
    cases hsegs

end EonDrv.Ioctl

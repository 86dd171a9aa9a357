import EonDrv.Descriptor.Engine

/-!
# The fill loop

What the rounds of `for_each_sg` in `set_hdma_desc` have written, by induction
on the scatter list.
-/

namespace EonDrv.Descriptor

def bytesBefore (sgl : List SgEntry) (k : Nat) : Nat :=
  ((sgl.take k).map fun sg => sg.dmaLen.toNat).sum

/-- The copy that entry `k` of a list of `n` entries asks for: its bytes between
its DMA address and the device address its predecessors leave, with the host on
the side the direction says and the interrupts in the last element only. -/
def requestedCopy (dir : DmaDir) (device : BitVec 64) (sgl : List SgEntry) (k : Nat)
    (sg : SgEntry) : Copy :=
  let deviceAddr := device + BitVec.ofNat 64 (bytesBefore sgl k)
  let last := decide (k + 1 = sgl.length)
  match dir with
  | .memToDev => ⟨sg.dmaLen, sg.dmaAddress, deviceAddr, last, last⟩
  | .devToMem => ⟨sg.dmaLen, deviceAddr, sg.dmaAddress, last, last⟩

def requested (dir : DmaDir) (device : BitVec 64) (sgl : List SgEntry) : List Copy :=
  sgl.mapIdx (requestedCopy dir device sgl)

/-- `align.dst` is the device side of a transfer to the device, `align.src` that
of a transfer from it. -/
def deviceSide (xfer : DpuXferInfo) : BitVec 64 :=
  match xfer.dir with
  | .memToDev => xfer.align.dst
  | .devToMem => xfer.align.src

/-- A transfer whose scatter list is mapped.  `pci_map_sg` takes the number of
entries as an `int`. -/
structure MappedXfer extends DpuXferInfo where
  sgl_length : sgt.sgl.length = sglen.toNat
  sglen_pos : 0 < sglen.toNat
  sglen_lt : sglen.toNat < 2 ^ 31

theorem bytesBefore_succ {sgl : List SgEntry} {k : Nat} {sg : SgEntry}
    (h : sgl[k]? = some sg) : bytesBefore sgl (k + 1) = bytesBefore sgl k + sg.dmaLen.toNat := by
  simp [bytesBefore, List.take_add_one, h]

structure Filled (x : MappedXfer) (mem : Words) (k : Nat) (s : FillState) : Prop where
  i_eq : s.i = BitVec.ofNat 32 k
  xferLen_eq : s.xferLen = BitVec.ofNat 64 (bytesBefore x.sgt.sgl k)
  offset_eq : s.offset = 0
  desc_eq : s.desc = 6 * k
  written : ∀ j sg, j < k → x.sgt.sgl[j]? = some sg →
    (readElement s.mem j).cb = true ∧ (readElement s.mem j).llp = false ∧
      (readElement s.mem j).copy = requestedCopy x.dir (deviceSide x.toDpuXferInfo) x.sgt.sgl j sg
  untouched : ∀ w, 6 * k ≤ w → s.mem w = mem w

theorem filled_zero (x : MappedXfer) (mem : Words) : Filled x mem 0 ⟨0, 0, 0, 0, mem⟩ where
  i_eq := rfl
  xferLen_eq := rfl
  offset_eq := rfl
  desc_eq := rfl
  written := fun j _ hj => absurd hj (Nat.not_lt_zero j)
  untouched := fun _ _ => rfl

/-- The comparison that finds the last entry. -/
theorem isLast_iff {x : MappedXfer} {k : Nat} (hk : k < x.sgt.sgl.length) :
    BitVec.ofNat 32 k = x.sglen - 1#32 ↔ k + 1 = x.sgt.sgl.length := by
  have hlen := x.sgl_length
  have hpos := x.sglen_pos
  have hlt := x.sglen_lt
  rw [← BitVec.toNat_inj, BitVec.toNat_sub, BitVec.toNat_ofNat, BitVec.toNat_ofNat]
  omega

def flagByte (b : Bool) : BitVec 8 := if b then 1#8 else 0#8

theorem bit_flagByte (b : Bool) : bit (flagByte b) = b := by
  cases b <;> rfl

/-- Round `k` writes the requested copy `k` into element `k`. -/
theorem Filled.mem_fillStep {x : MappedXfer} {mem : Words} {k : Nat} {s : FillState}
    (h : Filled x mem k s) (sg : SgEntry) (hk : k < x.sgt.sgl.length) :
    let c := requestedCopy x.dir (deviceSide x.toDpuXferInfo) x.sgt.sgl k sg
    (fillStep x.toDpuXferInfo s sg).mem =
      setDataElement s.mem (6 * k) c.src c.dst c.size (flagByte c.lie) (flagByte c.rie) 1#8 := by
  have hlast := isLast_iff hk
  have hlen : (sg.dmaLen.zeroExtend 64).truncate 32 = sg.dmaLen :=
    BitVec.setWidth_setWidth_of_le sg.dmaLen (by decide)
  cases hdir : x.dir <;>
    simp [fillStep, requestedCopy, deviceSide, flagByte, hdir, h.i_eq, h.xferLen_eq, h.offset_eq,
      h.desc_eq, hlast, hlen]

theorem Filled.step {x : MappedXfer} {mem : Words} {k : Nat} {s : FillState}
    (h : Filled x mem k s) {sg : SgEntry} (hsg : x.sgt.sgl[k]? = some sg) :
    Filled x mem (k + 1) (fillStep x.toDpuXferInfo s sg) := by
  have hk : k < x.sgt.sgl.length := (List.getElem?_eq_some_iff.mp hsg).1
  have hmem := h.mem_fillStep sg hk
  refine ⟨?_, ?_, rfl, ?_, ?_, ?_⟩
  · show s.i + 1#32 = _
    rw [h.i_eq, ← BitVec.ofNat_add]
  · show s.xferLen + sg.dmaLen.zeroExtend 64 = _
    rw [h.xferLen_eq, bytesBefore_succ hsg, BitVec.ofNat_add, BitVec.ofNat_toNat]
  · show s.desc + 6 = _
    rw [h.desc_eq, Nat.mul_succ]
  · intro j sg' hj hsg'
    rw [hmem]
    rcases Nat.lt_succ_iff_lt_or_eq.mp hj with hlt | rfl
    · -- an earlier element, outside the six words of this round
      rw [readElement_setDataElement_ne _ _ _ _ _ _ _ (Nat.ne_of_lt hlt)]
      exact h.written j sg' hlt hsg'
    · obtain rfl : sg = sg' := Option.some.inj (hsg.symm.trans hsg')
      generalize requestedCopy x.dir (deviceSide x.toDpuXferInfo) x.sgt.sgl j sg = c
      obtain ⟨hcb, hllp, hcopy⟩ := dataElement_means s.mem j c.src c.dst c.size
        (flagByte c.lie) (flagByte c.rie) 1#8
      rw [bit_flagByte, bit_flagByte] at hcopy
      exact ⟨hcb, hllp, hcopy⟩
  · intro w hw
    rw [hmem, setDataElement_of_outside _ _ _ _ _ _ _ (by omega)]
    exact h.untouched w (by omega)

theorem Filled.foldl {x : MappedXfer} {mem : Words} {k : Nat} {s : FillState}
    (h : Filled x mem k s) (hk : k ≤ x.sgt.sgl.length) {rest : List SgEntry}
    (hrest : x.sgt.sgl.drop k = rest) :
    Filled x mem x.sgt.sgl.length (rest.foldl (fillStep x.toDpuXferInfo) s) := by
  induction rest generalizing k s with
  | nil =>
      obtain rfl : k = x.sgt.sgl.length := Nat.le_antisymm hk (List.drop_eq_nil_iff.mp hrest)
      exact h
  | cons sg tail ih =>
      have hsg : x.sgt.sgl[k]? = some sg := by
        rw [← List.head?_drop, hrest]
        rfl
      have htail : x.sgt.sgl.drop (k + 1) = tail := by
        rw [← List.tail_drop, hrest]
        rfl
      exact ih (h.step hsg) (List.getElem?_eq_some_iff.mp hsg).1 htail

theorem filled_fillDescs (x : MappedXfer) (mem : Words) :
    Filled x mem x.sgt.sgl.length (fillDescs x.toDpuXferInfo mem) := by
  unfold fillDescs
  rw [← x.sgl_length, List.take_length]
  exact (filled_zero x mem).foldl (Nat.zero_le _) rfl

end EonDrv.Descriptor

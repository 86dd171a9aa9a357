import EonDrv.Ioctl.Codes
import EonDrv.Ioctl.Outcomes
import EonDrv.Ioctl.Pinning

/-!
# Resources of a request

Which calls give back what they take, from the ledger of each function.
-/

namespace EonDrv.Ioctl

open Ledger

/-! ## Setting up the scatter list -/

section Setup

variable (k : Kernel) (buf len : BitVec 64) (dir : DmaDir)

/-- The entries that `pci_map_sg` is given. -/
def sgPages : List SgPage :=
  fillSg (pinnedInfo k buf len).pages buf len 0 (pinCount buf len).toInt.toNat

/-- `dpu_setup_sg` fails behind `dpu_get_pages`. -/
def SgFails : Prop :=
  k.kzallocSgt = 0#64 ∨ k.sgAllocTable (pinCount buf len) = true ∨
    k.pciMapSg (sgPages k buf len) dir = none

/-- `dpu_setup_sg` fails and gives everything back. -/
def SetupUnwinds : Prop :=
  PinFails k buf len ∨ (SgFails k buf len dir ∧ CleanPin k buf len)

end Setup

theorem dpuSetupSg_pinFails {k : Kernel} {xfer : DpuXferInfo} {hostAddr : BitVec 64}
    (h : PinFails k hostAddr xfer.size) :
    (dpuSetupSg k xfer hostAddr).val.1 ≠ 0 ∧
      Neutral (effectUses (dpuSetupSg k xfer hostAddr).trace) := by
  have hget := dpuGetPages_fails h xfer.hmemInfo
  constructor
  · simp [dpuSetupSg, hget.1]
  · simpa [dpuSetupSg, hget.1] using hget.2

theorem dpuSetupSg_sgFails {k : Kernel} {xfer : DpuXferInfo} {hostAddr : BitVec 64}
    (h : ¬ PinFails k hostAddr xfer.size) (hsg : SgFails k hostAddr xfer.size xfer.dir) :
    (dpuSetupSg k xfer hostAddr).val.1 ≠ 0 ∧ ∃ inner, Neutral inner ∧
      (∀ p, .acquire (.page p) ∉ inner) ∧
      effectUses (dpuSetupSg k xfer hostAddr).trace = pinUses k hostAddr xfer.size ++
        (inner ++ effectUses (dpuPutPages (pinnedInfo k hostAddr xfer.size)).trace) := by
  obtain ⟨hval, huses⟩ := dpuGetPages_ok h xfer.hmemInfo
  by_cases hsgt : k.kzallocSgt = 0#64
  · refine ⟨by simp [dpuSetupSg, hval, kmalloc, hsgt], [], Neutral.nil, by simp, ?_⟩
    simp [dpuSetupSg, hval, huses, kmalloc, hsgt]
  by_cases htable : k.sgAllocTable (pinCount hostAddr xfer.size) = true
  · refine ⟨?_, _, Neutral.nil.bracket (.kmem k.kzallocSgt), by simp, ?_⟩
    · simp [dpuSetupSg, hval, kmalloc, hsgt, pinnedInfo, htable]
    · simp [dpuSetupSg, hval, huses, kmalloc, kfree, hsgt, pinnedInfo, htable]
  have hmap : k.pciMapSg (sgPages k hostAddr xfer.size) xfer.dir = none :=
    (hsg.resolve_left hsgt).resolve_left htable
  simp only [sgPages, pinnedInfo] at hmap
  refine ⟨?_, _, (Neutral.nil.bracket (.sgTable k.kzallocSgt)).bracket (.kmem k.kzallocSgt),
    by simp, ?_⟩
  · simp [dpuSetupSg, hval, kmalloc, hsgt, pinnedInfo, htable, hmap]
  · simp [dpuSetupSg, hval, huses, kmalloc, kfree, hsgt, pinnedInfo, htable, hmap]

/-- What a successful `dpu_setup_sg` leaves in `xfer_info`, with the addresses that
`pci_map_sg` gave. -/
def mappedInfo (k : Kernel) (xfer : DpuXferInfo) (hostAddr : BitVec 64) (dma : Nat → SgEntry) :
    DpuXferInfo where
  sgt := ⟨k.kzallocSgt, (List.range (pinCount hostAddr xfer.size).toNat).map dma⟩
  sglen := pinCount hostAddr xfer.size
  align := { xfer.align with size := xfer.size }
  hmemInfo := pinnedInfo k hostAddr xfer.size
  size := xfer.size
  dir := xfer.dir

theorem dpuSetupSg_ok {k : Kernel} {xfer : DpuXferInfo} {hostAddr : BitVec 64}
    (h : ¬ PinFails k hostAddr xfer.size) (hsg : ¬ SgFails k hostAddr xfer.size xfer.dir) :
    (∃ dma, k.pciMapSg (sgPages k hostAddr xfer.size) xfer.dir = some dma ∧
      (dpuSetupSg k xfer hostAddr).val = (0, mappedInfo k xfer hostAddr dma)) ∧
    effectUses (dpuSetupSg k xfer hostAddr).trace = pinUses k hostAddr xfer.size ++
      [.acquire (.kmem k.kzallocSgt), .acquire (.sgTable k.kzallocSgt),
        .acquire (.sgMapping k.kzallocSgt)] := by
  obtain ⟨hval, huses⟩ := dpuGetPages_ok h xfer.hmemInfo
  simp only [SgFails, not_or] at hsg
  obtain ⟨hsgt, htable, hmap⟩ := hsg
  obtain ⟨dma, hdma⟩ := Option.ne_none_iff_exists'.mp hmap
  have hdma' := hdma
  simp only [sgPages, pinnedInfo] at hdma'
  constructor
  · refine ⟨dma, hdma, ?_⟩
    simp [dpuSetupSg, hval, kmalloc, hsgt, pinnedInfo, htable, hdma', mappedInfo]
  · simp [dpuSetupSg, hval, huses, kmalloc, hsgt, pinnedInfo, htable, hdma']

/-- A ledger with a mapping that is not undone, or with a page dropped that was not
taken. -/
def Unbalanced (t : List (Use Resource)) : Prop :=
  (∃ sgt, .acquire (.sgMapping sgt) ∈ t ∧ .release (.sgMapping sgt) ∉ t) ∨
    ∃ p, .release (.page p) ∈ t ∧ .acquire (.page p) ∉ t

theorem Unbalanced.not_neutral {t : List (Use Resource)} (h : Unbalanced t) : ¬ Neutral t := by
  rcases h with ⟨sgt, htaken, hkept⟩ | ⟨p, hdropped, hforeign⟩
  · exact not_neutral_of_kept htaken hkept
  · exact not_neutral_of_foreign hdropped hforeign

theorem Unbalanced.around {t : List (Use Resource)} (h : Unbalanced t) (q : Ptr) :
    Unbalanced (.acquire (.kmem q) :: (t ++ [.release (.kmem q)])) := by
  rcases h with ⟨sgt, htaken, hkept⟩ | ⟨p, hdropped, hforeign⟩
  · exact .inl ⟨sgt, by simp [htaken], by simp [hkept]⟩
  · exact .inr ⟨p, by simp [hdropped], by simp [hforeign]⟩

def KeepsMapping (t : List (Use Resource)) : Prop := ∀ sgt, .release (.sgMapping sgt) ∉ t

theorem KeepsMapping.append {s t : List (Use Resource)} (hs : KeepsMapping s)
    (ht : KeepsMapping t) : KeepsMapping (s ++ t) := by
  intro sgt h
  rcases List.mem_append.mp h with h | h
  · exact hs sgt h
  · exact ht sgt h

theorem dpuSetupSg_unwinds {k : Kernel} {xfer : DpuXferInfo} {hostAddr : BitVec 64}
    (h : SetupUnwinds k hostAddr xfer.size xfer.dir) :
    (dpuSetupSg k xfer hostAddr).val.1 ≠ 0 ∧
      Neutral (effectUses (dpuSetupSg k xfer hostAddr).trace) := by
  by_cases hpin : PinFails k hostAddr xfer.size
  · exact dpuSetupSg_pinFails hpin
  · obtain ⟨hsg, hclean⟩ := h.resolve_left hpin
    obtain ⟨hval, inner, hinner, -, huses⟩ := dpuSetupSg_sgFails hpin hsg
    refine ⟨hval, ?_⟩
    rw [huses]
    exact (turns_pinUses k hostAddr xfer.size).append
      ((hinner.turns _).append (turns_put hpin hclean))

/-- It fails with a stale pointer dropped, or succeeds with the list mapped. -/
theorem dpuSetupSg_not_unwinds {k : Kernel} {xfer : DpuXferInfo} {hostAddr : BitVec 64}
    (h : ¬ SetupUnwinds k hostAddr xfer.size xfer.dir) :
    ((dpuSetupSg k xfer hostAddr).val.1 ≠ 0 ∧
      Unbalanced (effectUses (dpuSetupSg k xfer hostAddr).trace)) ∨
    ((dpuSetupSg k xfer hostAddr).val.1 = 0 ∧
      .acquire (.sgMapping k.kzallocSgt) ∈ effectUses (dpuSetupSg k xfer hostAddr).trace ∧
      KeepsMapping (effectUses (dpuSetupSg k xfer hostAddr).trace)) := by
  simp only [SetupUnwinds, not_or, not_and] at h
  obtain ⟨hpin, hclean⟩ := h
  by_cases hsg : SgFails k hostAddr xfer.size xfer.dir
  · obtain ⟨hval, inner, -, hinner, huses⟩ := dpuSetupSg_sgFails hpin hsg
    obtain ⟨hnone, p, hp⟩ := exists_stale (hclean hsg)
    refine .inl ⟨hval, .inr ⟨p, ?_, ?_⟩⟩
    · rw [huses, effectUses_put hpin]
      simp [hp]
    · rw [huses, effectUses_put hpin]
      simp [pinUses, hnone, hinner]
  · obtain ⟨⟨dma, -, hval⟩, huses⟩ := dpuSetupSg_ok hpin hsg
    refine .inr ⟨by rw [hval], ?_, ?_⟩
    · rw [huses]
      simp
    · intro sgt
      rw [huses]
      simp [pinUses]

/-! ## The other stages -/

theorem effectUses_tranferDesc (k : Kernel) (ch : Chan) (desc : DpuDescInfo) :
    effectUses (tranferDesc k ch desc).trace =
      [.acquire (.hdmaLock ch), .release (.hdmaLock ch)] := by
  simp [tranferDesc, hdmaStartTransfer]

theorem effectUses_regsBatch (regs : RegInfos) (i n : Nat) :
    ∃ m, effectUses (regsBatch regs i n).trace =
      (List.replicate m [.acquire .conbarLock, .release .conbarLock]).flatten := by
  induction n generalizing i with
  | zero => exact ⟨0, rfl⟩
  | succ n ih =>
      by_cases haddr : regAddrAccepted (regs.write i).regAddr = true
      · obtain ⟨m, hm⟩ := ih (i + 1)
        refine ⟨m + 1, ?_⟩
        simp [regsBatch, regsOperations, haddr, hm, List.replicate_succ]
      · exact ⟨0, by simp [regsBatch, regsOperations, haddr]⟩

theorem effectUses_dmaLlmodeTransmit (k : Kernel) (ch : Chan) (desc : DpuDescInfo)
    (enable : BitVec 32) (regs : RegInfos) :
    ∃ m, effectUses (dmaLlmodeTransmit k ch desc enable regs).trace =
      .acquire (.hdmaLock ch) ::
        ((List.replicate m [.acquire .conbarLock, .release .conbarLock]).flatten ++
          [.release (.hdmaLock ch)]) := by
  obtain ⟨m, hm⟩ := effectUses_regsBatch regs 0 regs.count
  refine ⟨m, ?_⟩
  by_cases hrv : (regsBatch regs 0 regs.count).val = 0
  · by_cases henable : enable = dmaEnable
    · simp [dmaLlmodeTransmit, hdmaStartTransfer, hrv, henable, hm]
    · simp [dmaLlmodeTransmit, hrv, henable, hm]
  · simp [dmaLlmodeTransmit, hrv, hm]

theorem keepsMapping_put (info : DpuHostMemInfo) :
    KeepsMapping (effectUses (dpuPutPages info).trace) := by
  intro sgt
  simp [dpuPutPages, vfree]

theorem keepsMapping_teardownSg (xfer : DpuXferInfo) :
    KeepsMapping (effectUses (dpuTeardownSg xfer).trace) := by
  intro sgt
  simpa [dpuTeardownSg, kfree] using keepsMapping_put xfer.hmemInfo sgt

theorem keepsMapping_teardownDesc (desc : DpuDescInfo) :
    KeepsMapping (effectUses (teardownDmaDesc desc).trace) := by
  intro sgt
  simp [teardownDmaDesc, kfree]

theorem keepsMapping_setHdmaDesc (k : Kernel) (xfer : DpuXferInfo) (desc : DpuDescInfo) :
    KeepsMapping (effectUses (setHdmaDesc k xfer desc).trace) := by
  intro sgt
  rcases setHdmaDesc_cases k xfer desc with ⟨-, h⟩ | ⟨-, h⟩ | ⟨-, -, h⟩ <;> simp [h]

theorem keepsMapping_tranferDesc (k : Kernel) (ch : Chan) (desc : DpuDescInfo) :
    KeepsMapping (effectUses (tranferDesc k ch desc).trace) := by
  intro sgt
  simp [effectUses_tranferDesc]

theorem keepsMapping_dmaLlmodeTransmit (k : Kernel) (ch : Chan) (desc : DpuDescInfo)
    (enable : BitVec 32) (regs : RegInfos) :
    KeepsMapping (effectUses (dmaLlmodeTransmit k ch desc enable regs).trace) := by
  obtain ⟨m, hm⟩ := effectUses_dmaLlmodeTransmit k ch desc enable regs
  intro sgt
  simp [hm, List.mem_flatten, List.mem_replicate]

/-! ## A transfer -/

section Transfer

variable (k : Kernel) (t : Transfer)

theorem table_trace :
    (t.table k.stages).trace =
      (setHdmaDesc k (t.setup k.stages).val.2 (initDesc t.descAddr t.xfer.dir)).trace := by
  simp [Transfer.table, Kernel.stages]

theorem keepsMapping_close : KeepsMapping (uses (t.closeSg k.stages)) ∧
    KeepsMapping (uses (t.closeTable k.stages)) := by
  have hsg : KeepsMapping (uses (t.closeSg k.stages)) := by
    rw [Transfer.closeSg, uses_quiet]
    exact keepsMapping_teardownSg _
  refine ⟨hsg, ?_⟩
  rw [Transfer.closeTable, uses_append, uses_quiet]
  exact (keepsMapping_teardownDesc _).append hsg

variable {k t}

/-- The ways on from a scatter list that is mapped. -/
theorem TransferPath.keepsMapping {err : Int → Int} {v : Int} {tr : List Event}
    (h : TransferPath k.stages t err v tr)
    (hsetup : KeepsMapping (effectUses (t.setup k.stages).trace)) : KeepsMapping (uses tr) := by
  obtain ⟨hsg, htable⟩ := keepsMapping_close k t
  have h1 : KeepsMapping (uses (t.afterSetup k.stages)) := by
    rwa [Transfer.afterSetup, uses_stage]
  have h2 : KeepsMapping (uses (t.afterTable k.stages)) := by
    rw [Transfer.afterTable, uses_append, uses_stage, table_trace]
    exact h1.append (keepsMapping_setHdmaDesc _ _ _)
  have h3 : KeepsMapping (uses (t.afterUpload k.stages)) := by
    rw [Transfer.afterUpload, uses_append, uses_stage]
    exact h2.append (keepsMapping_tranferDesc _ _ _)
  have h4 : KeepsMapping (uses (t.afterData k.stages)) := by
    rw [Transfer.afterData, uses_append, uses_stage]
    exact h3.append (keepsMapping_dmaLlmodeTransmit _ _ _ _ _)
  cases h with
  | setup => exact h1
  | table =>
      rw [uses_append]
      exact h2.append hsg
  | upload =>
      rw [uses_append]
      exact h3.append htable
  | data | done =>
      rw [uses_append]
      exact h4.append htable

theorem TransferPath.mem_of_mem_setup {err : Int → Int} {v : Int} {tr : List Event}
    (h : TransferPath k.stages t err v tr) {u : Use Resource}
    (hu : u ∈ effectUses (t.setup k.stages).trace) : u ∈ uses tr := by
  cases h <;> simp [Transfer.afterData, Transfer.afterUpload, Transfer.afterTable,
    Transfer.afterSetup, hu]

theorem TransferPath.uses_of_setup_fails {err : Int → Int} {v : Int} {tr : List Event}
    (h : TransferPath k.stages t err v tr) (hfails : (t.setup k.stages).val.1 ≠ 0) :
    uses tr = effectUses (t.setup k.stages).trace := by
  cases h with
  | setup => rw [Transfer.afterSetup, uses_stage]
  | table h1 | upload h1 | data h1 | done h1 => exact absurd h1 hfails

theorem hdmaTransfer_neutral (err : Int → Int)
    (h : SetupUnwinds k t.hostAddr t.xfer.size t.xfer.dir) :
    Neutral (uses (hdmaTransfer k.stages t err).trace) := by
  obtain ⟨hval, huses⟩ := dpuSetupSg_unwinds h
  rw [(hdmaTransfer_path k.stages t err).uses_of_setup_fails hval]
  exact huses

theorem hdmaTransfer_unbalanced (err : Int → Int)
    (h : ¬ SetupUnwinds k t.hostAddr t.xfer.size t.xfer.dir) :
    Unbalanced (uses (hdmaTransfer k.stages t err).trace) := by
  have hpath := hdmaTransfer_path k.stages t err
  rcases dpuSetupSg_not_unwinds h with ⟨hval, hun⟩ | ⟨hval, htaken, hkeeps⟩
  · rw [hpath.uses_of_setup_fails hval]
    exact hun
  · exact .inl ⟨k.kzallocSgt, hpath.mem_of_mem_setup htaken, hpath.keepsMapping hkeeps _⟩

theorem hdmaTransfer_around_iff (err : Int → Int) (q : Ptr) :
    Neutral (.acquire (.kmem q) :: (uses (hdmaTransfer k.stages t err).trace ++
      [.release (.kmem q)])) ↔ SetupUnwinds k t.hostAddr t.xfer.size t.xfer.dir := by
  by_cases h : SetupUnwinds k t.hostAddr t.xfer.size t.xfer.dir
  · exact iff_of_true ((hdmaTransfer_neutral err h).bracket _) h
  · exact iff_of_false ((hdmaTransfer_unbalanced err h).around q).not_neutral h

end Transfer

/-! ## The calls -/

/-- The exits of `eon_hdma` that give everything back. -/
def HdmaBalanced (k : Kernel) (args : HdmaMemArgs) : Prop :=
  k.kmallocArgs = 0#64 ∨ k.copyFromUser = true ∨
    (args.hdmaId.toNat < maxHdmaNumber ∧
      ((args.op = commandHdmaInbound → SetupUnwinds k args.hostAddr args.memSize .memToDev) ∧
        (args.op = commandHdmaOutbound → SetupUnwinds k args.hostAddr args.memSize .devToMem)))

/-- Those of `eon_rw_reg`. -/
def RegBalanced (k : Kernel) (args : DpuRegArgs) : Prop :=
  k.kmallocArgs = 0#64 ∨ k.copyFromUser = true ∨ regAddrAccepted args.regAddr = true

theorem CallPath.neutral_iff {k : Kernel} {args : HdmaMemArgs} {v : Int} {tr : List Event}
    (h : CallPath k k.stages args v tr) : Neutral (uses tr) ↔ HdmaBalanced k args := by
  cases h with
  | noBlock hp => exact iff_of_true Neutral.nil (.inl hp)
  | noCopy hp hc => exact iff_of_true (Neutral.nil.bracket _) (.inr (.inl hc))
  | badIndex hp hc hi =>
      refine iff_of_false ?_ ?_
      · exact not_neutral_of_kept (r := .kmem k.kmallocArgs) (by simp) (by simp)
      · rintro (h | h | h)
        · exact hp h
        · rw [hc] at h
          cases h
        · exact Nat.not_lt_of_le hi h.1
  | op hp hc n hi =>
      have hlt : args.hdmaId.toNat < maxHdmaNumber := hi ▸ n.isLt
      simp only [HdmaBalanced, hp, hc, hlt, Bool.false_eq_true, false_or, true_and]
      simp only [uses_use, uses_append, uses_nil]
      by_cases hin : args.op = commandHdmaInbound
      · have hop : hdmaOp k.stages args n = hdmaTransfer k.stages (inboundOf args n) id :=
          if_pos hin
        have hout : args.op ≠ commandHdmaOutbound := by
          rw [hin]
          decide
        rw [hop, hdmaTransfer_around_iff]
        exact ⟨fun h => ⟨fun _ => h, fun h' => absurd h' hout⟩, fun h => h.1 hin⟩
      · by_cases hout : args.op = commandHdmaOutbound
        · have hop : hdmaOp k.stages args n =
              hdmaTransfer k.stages (outboundOf args n) fun _ => 0 :=
            (if_neg hin).trans (if_pos hout)
          rw [hop, hdmaTransfer_around_iff]
          exact ⟨fun h => ⟨fun h' => absurd h' hin, fun _ => h⟩, fun h => h.2 hout⟩
        · have hop : hdmaOp k.stages args n = pure 0 := (if_neg hin).trans (if_neg hout)
          rw [hop]
          exact iff_of_true (Neutral.nil.bracket _)
            ⟨fun h => absurd h hin, fun h => absurd h hout⟩

theorem eonHdma_neutral_iff (k : Kernel) (args : HdmaMemArgs) :
    Neutral (uses (eonHdma k k.stages eonIoctlHdma args).trace) ↔ HdmaBalanced k args :=
  (eonHdma_path k k.stages args).neutral_iff

theorem eonRwReg_neutral_iff (k : Kernel) (args : DpuRegArgs) :
    Neutral (effectUses (eonRwReg k eonIoctlIatu args).trace) ↔ RegBalanced k args := by
  have hin : eonIoctlIatu &&& iocIn ≠ 0#32 := by decide
  by_cases hp : k.kmallocArgs = 0#64
  · refine iff_of_true ?_ (.inl hp)
    simpa [eonRwReg, kmalloc, hp] using Neutral.nil
  by_cases hc : k.copyFromUser = true
  · refine iff_of_true ?_ (.inr (.inl hc))
    simpa [eonRwReg, kmalloc, kfree, hp, hc, hin] using
      Neutral.nil.bracket (Resource.kmem k.kmallocArgs)
  by_cases haddr : regAddrAccepted args.regAddr = true
  · refine iff_of_true ?_ (.inr (.inr haddr))
    simpa [eonRwReg, kmalloc, kfree, hp, hc, haddr] using
      (Neutral.nil.bracket Resource.conbarLock).bracket (.kmem k.kmallocArgs)
  · refine iff_of_false ?_ ?_
    · have hkept : ¬ Neutral [Use.acquire (Resource.kmem k.kmallocArgs)] :=
        not_neutral_of_kept (r := .kmem k.kmallocArgs) (by simp) (by simp)
      simpa [eonRwReg, kmalloc, hp, hc, haddr] using hkept
    · rintro (h | h | h)
      · exact hp h
      · exact hc h
      · exact haddr h

/-- A call gives back everything it takes exactly on these exits. -/
theorem deviceIoctl_neutral_iff (k : Kernel) (cmd : BitVec 32) (hdmaArgs : HdmaMemArgs)
    (regsArgs : DpuRegArgs) :
    Neutral (uses (deviceIoctl k k.stages cmd hdmaArgs regsArgs).trace) ↔
      (cmd = eonIoctlHdma → HdmaBalanced k hdmaArgs) ∧
        (cmd = eonIoctlIatu → RegBalanced k regsArgs) := by
  have hne : eonIoctlIatu ≠ eonIoctlHdma := by decide
  by_cases hhdma : cmd = eonIoctlHdma
  · subst hhdma
    rw [deviceIoctl, if_pos rfl, eonHdma_neutral_iff]
    simp only [true_implies, hne.symm, false_implies, and_true]
  · by_cases hiatu : cmd = eonIoctlIatu
    · subst hiatu
      rw [deviceIoctl, if_neg hhdma, if_pos rfl, uses_quiet, eonRwReg_neutral_iff]
      simp only [true_implies, hhdma, false_implies, true_and]
    · rw [deviceIoctl, if_neg hhdma, if_neg hiatu]
      exact iff_of_true Neutral.nil ⟨fun h => absurd h hhdma, fun h => absurd h hiatu⟩

/-- A page read without any failure ends with its scatter list still mapped. -/
theorem readPage_not_neutral :
    ¬ Neutral (uses (deviceIoctl granting granting.stages eonIoctlHdma readPage
      ⟨0#64, 0#32, 0#8⟩).trace) := by
  decide

end EonDrv.Ioctl

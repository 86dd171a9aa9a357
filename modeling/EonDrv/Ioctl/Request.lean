import EonDrv.Descriptor.Meaning
import EonDrv.Ioctl.Leak

/-!
# The copy a request asks for

`dpu_setup_sg` leaves a mapped scatter list, so the table of a transfer means the
copy between the pages of the caller and the device address.
-/

namespace EonDrv.Ioctl

open Descriptor

section Request

variable {k : Kernel} {t : Transfer}

/-- Pinned pages are counted by an `int`, and so is the list that covers them. -/
def mappedXfer (k : Kernel) (t : Transfer) (dma : Nat → SgEntry)
    (hpos : 0 < (pinCount t.hostAddr t.xfer.size).toNat)
    (hlt : (pinCount t.hostAddr t.xfer.size).toNat < 2 ^ 31) : MappedXfer where
  toDpuXferInfo := mappedInfo k t.xfer t.hostAddr dma
  sgl_length := by
    rw [mappedInfo, List.length_map, List.length_range]
  sglen_pos := hpos
  sglen_lt := hlt

theorem setup_fails_of (h : PinFails k t.hostAddr t.xfer.size ∨
    SgFails k t.hostAddr t.xfer.size t.xfer.dir) : (t.setup k.stages).val.1 ≠ 0 := by
  by_cases hpin : PinFails k t.hostAddr t.xfer.size
  · exact (dpuSetupSg_pinFails hpin).1
  · exact (dpuSetupSg_sgFails hpin (h.resolve_left hpin)).1

/-- When the pages are pinned and the two set-up stages succeed, the engine that runs
the uploaded table copies between the mapped pages and the device address. -/
theorem transfer_copies (hk : k.KmallocBounded)
    {pages : PinnedPages (pinCount t.hostAddr t.xfer.size)}
    (hpages : pin k t.hostAddr t.xfer.size = .pinned pages) (hpos : pages.pages ≠ [])
    (hsetup : (t.setup k.stages).val.1 = 0) (htable : (t.table k.stages).val.1 = 0)
    (regs : HdmaReg → BitVec 32) :
    let desc := (t.table k.stages).val.2
    let table := (setHdmaDesc k (t.setup k.stages).val.2 (initDesc t.descAddr t.xfer.dir)).val.2.2
    ∃ dma, k.pciMapSg (sgPages k t.hostAddr t.xfer.size) t.xfer.dir = some dma ∧
      (run (cycleState regs desc) (elements table (uploadBytes regs desc))).copies =
        requested t.xfer.dir (deviceSide t.xfer) ((List.range pages.pages.length).map dma) := by
  intro desc table
  have hpin : ¬ PinFails k t.hostAddr t.xfer.size := fun h => setup_fails_of (.inl h) hsetup
  have hsg : ¬ SgFails k t.hostAddr t.xfer.size t.xfer.dir :=
    fun h => setup_fails_of (.inr h) hsetup
  have hlen := pinned_length hpin hpages
  have hlt := pages.length_lt
  have hcount : 0 < (pinCount t.hostAddr t.xfer.size).toNat := by
    rw [← hlen]
    exact List.length_pos_iff.mpr hpos
  obtain ⟨⟨dma, hdma, hval⟩, -⟩ := dpuSetupSg_ok hpin hsg
  have hxfer : (t.setup k.stages).val.2 = mappedInfo k t.xfer t.hostAddr dma :=
    congrArg Prod.snd hval
  refine ⟨dma, hdma, ?_⟩
  have hok : (setHdmaDesc k (mappedInfo k t.xfer t.hostAddr dma)
      (initDesc t.descAddr t.xfer.dir)).val.1 = 0 := by
    rw [← hxfer]
    exact htable
  have hdesc : desc = (setHdmaDesc k (mappedInfo k t.xfer t.hostAddr dma)
      (initDesc t.descAddr t.xfer.dir)).val.2.1 := by
    rw [← hxfer]
    rfl
  have htab : table = (setHdmaDesc k (mappedInfo k t.xfer t.hostAddr dma)
      (initDesc t.descAddr t.xfer.dir)).val.2.2 := by
    rw [← hxfer]
  have hrun := run_uploaded (x := mappedXfer k t dma hcount (hlen ▸ hlt)) hk hok regs
  rw [hdesc, htab, hlen]
  exact congrArg Run.copies hrun

end Request

end EonDrv.Ioctl

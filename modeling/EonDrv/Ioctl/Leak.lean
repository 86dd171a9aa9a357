import EonDrv.Ioctl.Neutral

/-!
# What a transfer leaves

A transfer whose scatter list was mapped gives back everything but the mapping, on
every path.
-/

namespace EonDrv.Ioctl

open Ledger

/-! ## The stages between -/

theorem neutral_tranferDesc (k : Kernel) (ch : Chan) (desc : DpuDescInfo) :
    Neutral (effectUses (tranferDesc k ch desc).trace) := by
  rw [effectUses_tranferDesc]
  exact Neutral.nil.bracket _

theorem neutral_dmaLlmodeTransmit (k : Kernel) (ch : Chan) (desc : DpuDescInfo)
    (enable : BitVec 32) (regs : RegInfos) :
    Neutral (effectUses (dmaLlmodeTransmit k ch desc enable regs).trace) := by
  obtain ⟨m, hm⟩ := effectUses_dmaLlmodeTransmit k ch desc enable regs
  rw [hm]
  refine Neutral.bracket (Neutral.flatten ?_) _
  intro round hround
  rw [List.eq_of_mem_replicate hround]
  exact Neutral.nil.bracket Resource.conbarLock

/-- What a successful `set_hdma_desc` holds, `teardown_dma_desc` gives back. -/
theorem setHdmaDesc_turns (k : Kernel) (xfer : DpuXferInfo) (desc : DpuDescInfo) :
    let out := setHdmaDesc k xfer desc
    (out.val.1 ≠ 0 ∧ Neutral (effectUses out.trace)) ∨
      (out.val.1 = 0 ∧ ∃ held, Turns 0 (effectUses out.trace) held ∧
        Turns held (effectUses (teardownDmaDesc out.val.2.1).trace) 0) := by
  intro out
  rcases setHdmaDesc_cases k xfer desc with ⟨hval, huses⟩ | ⟨hval, huses⟩ | ⟨hptr, hval, huses⟩
  · refine .inl ⟨by simp [out, hval], ?_⟩
    rw [huses]
    exact Neutral.nil
  · refine .inl ⟨by simp [out, hval], ?_⟩
    rw [huses]
    exact Neutral.nil.bracket _
  · let p := k.kmallocDescs (descsSize xfer)
    let a := k.pciMapSingle p (descsSize xfer) desc.dir
    refine .inr ⟨by simp [out, hval],
      .singleMapping a (descsSize xfer) desc.dir ::ₘ .kmem p ::ₘ 0, ?_, ?_⟩
    · rw [huses]
      exact (Turns.acquire 0 _).append (Turns.acquire _ _)
    · have hclose : effectUses (teardownDmaDesc out.val.2.1).trace =
          [.release (.singleMapping a (descsSize xfer) desc.dir), .release (.kmem p)] := by
        simp [out, hval, teardownDmaDesc, kfree, hptr, a, p]
      rw [hclose]
      exact (Turns.release _ _).append (Turns.release 0 _)

/-! ## The scatter list -/

/-- What `dpu_teardown_sg` gives back. -/
def sgHeld (k : Kernel) (buf len : BitVec 64) : Multiset Resource :=
  Resource.sgTable k.kzallocSgt ::ₘ Resource.kmem k.kzallocSgt ::ₘ pinHeld k buf len

section Mapped

variable {k : Kernel} {xfer : DpuXferInfo} {hostAddr : BitVec 64}

theorem turns_setup (h : ¬ PinFails k hostAddr xfer.size)
    (hsg : ¬ SgFails k hostAddr xfer.size xfer.dir) :
    Turns 0 (effectUses (dpuSetupSg k xfer hostAddr).trace)
      (Resource.sgMapping k.kzallocSgt ::ₘ sgHeld k hostAddr xfer.size) := by
  rw [(dpuSetupSg_ok h hsg).2]
  have hlist : Turns (pinHeld k hostAddr xfer.size)
      [.acquire (.kmem k.kzallocSgt), .acquire (.sgTable k.kzallocSgt),
        .acquire (.sgMapping k.kzallocSgt)]
      (Resource.sgMapping k.kzallocSgt ::ₘ sgHeld k hostAddr xfer.size) :=
    (Turns.acquire _ _).append ((Turns.acquire _ _).append (Turns.acquire _ _))
  exact (turns_pinUses k hostAddr xfer.size).append hlist

theorem turns_teardown (h : ¬ PinFails k hostAddr xfer.size)
    (hsg : ¬ SgFails k hostAddr xfer.size xfer.dir) (hclean : CleanPin k hostAddr xfer.size) :
    Turns (sgHeld k hostAddr xfer.size)
      (effectUses (dpuTeardownSg (dpuSetupSg k xfer hostAddr).val.2).trace) 0 := by
  obtain ⟨⟨dma, -, hval⟩, -⟩ := dpuSetupSg_ok h hsg
  have hsgt : k.kzallocSgt ≠ 0#64 := fun hzero => hsg (.inl hzero)
  have huses : effectUses (dpuTeardownSg (dpuSetupSg k xfer hostAddr).val.2).trace =
      [.release (.sgTable k.kzallocSgt), .release (.kmem k.kzallocSgt)] ++
        effectUses (dpuPutPages (pinnedInfo k hostAddr xfer.size)).trace := by
    simp [dpuTeardownSg, kfree, hval, mappedInfo, hsgt]
  rw [huses]
  exact ((Turns.release _ _).append (Turns.release _ _)).append (turns_put h hclean)

end Mapped

/-! ## The whole transfer -/

section Transfer

variable {k : Kernel} {t : Transfer}

theorem table_turns (k : Kernel) (t : Transfer) (m : Multiset Resource) :
    ((t.table k.stages).val.1 ≠ 0 ∧ Turns m (effectUses (t.table k.stages).trace) m) ∨
      ((t.table k.stages).val.1 = 0 ∧ ∃ m', Turns m (effectUses (t.table k.stages).trace) m' ∧
        Turns m' (effectUses (teardownDmaDesc (t.table k.stages).val.2).trace) m) := by
  rw [table_trace]
  rcases setHdmaDesc_turns k (t.setup k.stages).val.2 (initDesc t.descAddr t.xfer.dir) with
    ⟨hval, hneutral⟩ | ⟨hval, held, htake, hgive⟩
  · exact .inl ⟨hval, hneutral.turns m⟩
  · have htake' := htake.frame m
    have hgive' := hgive.frame m
    rw [Multiset.zero_add] at htake' hgive'
    exact .inr ⟨hval, held + m, htake', hgive'⟩

/-- Behind a mapped scatter list every path ends with the mapping and nothing else. -/
theorem TransferPath.leaves {err : Int → Int} {v : Int} {tr : List Event}
    (h : TransferPath k.stages t err v tr) (hpin : ¬ PinFails k t.hostAddr t.xfer.size)
    (hsg : ¬ SgFails k t.hostAddr t.xfer.size t.xfer.dir)
    (hclean : CleanPin k t.hostAddr t.xfer.size) :
    Turns 0 (uses tr) (Resource.sgMapping k.kzallocSgt ::ₘ 0) := by
  have hsetup : Turns 0 (uses (t.afterSetup k.stages))
      (Resource.sgMapping k.kzallocSgt ::ₘ sgHeld k t.hostAddr t.xfer.size) := by
    rw [Transfer.afterSetup, uses_stage]
    exact turns_setup hpin hsg
  have hclose : Turns (Resource.sgMapping k.kzallocSgt ::ₘ sgHeld k t.hostAddr t.xfer.size)
      (uses (t.closeSg k.stages)) (Resource.sgMapping k.kzallocSgt ::ₘ 0) := by
    rw [Transfer.closeSg, uses_quiet]
    have hframe := (turns_teardown hpin hsg hclean).frame (Resource.sgMapping k.kzallocSgt ::ₘ 0)
    rwa [Multiset.add_cons, Multiset.add_cons, Multiset.add_zero] at hframe
  have hok : (t.setup k.stages).val.1 = 0 := by
    obtain ⟨⟨dma, -, hval⟩, -⟩ := dpuSetupSg_ok hpin hsg
    exact congrArg Prod.fst hval
  rcases table_turns k t (Resource.sgMapping k.kzallocSgt ::ₘ sgHeld k t.hostAddr t.xfer.size)
    with ⟨hfails, hsame⟩ | ⟨htable, m', htake, hgive⟩
  · cases h with
    | setup h1 => exact absurd hok h1
    | table h1 h2 =>
        rw [uses_append, Transfer.afterTable, uses_append, uses_stage]
        exact (hsetup.append hsame).append hclose
    | upload h1 h2 | data h1 h2 | done h1 h2 => exact absurd h2 hfails
  · have h2 : Turns 0 (uses (t.afterTable k.stages)) m' := by
      rw [Transfer.afterTable, uses_append, uses_stage]
      exact hsetup.append htake
    have h3 : Turns 0 (uses (t.afterUpload k.stages)) m' := by
      rw [Transfer.afterUpload, uses_append, uses_stage]
      exact h2.append ((neutral_tranferDesc _ _ _).turns m')
    have h4 : Turns 0 (uses (t.afterData k.stages)) m' := by
      rw [Transfer.afterData, uses_append, uses_stage]
      exact h3.append ((neutral_dmaLlmodeTransmit _ _ _ _ _).turns m')
    have hcloseTable : Turns m' (uses (t.closeTable k.stages))
        (Resource.sgMapping k.kzallocSgt ::ₘ 0) := by
      rw [Transfer.closeTable, uses_append, uses_quiet]
      exact hgive.append hclose
    cases h with
    | setup h1 => exact absurd hok h1
    | table h1 hfails => exact absurd htable hfails
    | upload =>
        rw [uses_append]
        exact h3.append hcloseTable
    | data | done =>
        rw [uses_append]
        exact h4.append hcloseTable

theorem hdmaTransfer_leaves (err : Int → Int) (hpin : ¬ PinFails k t.hostAddr t.xfer.size)
    (hsg : ¬ SgFails k t.hostAddr t.xfer.size t.xfer.dir)
    (hclean : CleanPin k t.hostAddr t.xfer.size) :
    Turns 0 (uses (hdmaTransfer k.stages t err).trace)
      (Resource.sgMapping k.kzallocSgt ::ₘ 0) :=
  (hdmaTransfer_path k.stages t err).leaves hpin hsg hclean

end Transfer

end EonDrv.Ioctl

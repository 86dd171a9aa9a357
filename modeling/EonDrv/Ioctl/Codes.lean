import EonDrv.Ioctl.Hdma
import EonDrv.Support.Pipeline

/-!
# Codes of a request

What `eon_hdma` returns against what its stages returned.
-/

namespace EonDrv.Ioctl

open Pipeline (ran failure)

def returns (t : List Event) : List (DmaDir × Stage × Int) :=
  t.filterMap fun
    | .effect _ => none
    | .returned dir s code => some (dir, s, code)

@[simp] theorem returns_nil : returns [] = [] := rfl

@[simp] theorem returns_effect (e : Effect) (t : List Event) :
    returns (.effect e :: t) = returns t := rfl

@[simp] theorem returns_append (s t : List Event) : returns (s ++ t) = returns s ++ returns t :=
  List.filterMap_append

@[simp] theorem returns_quiet {α : Type} (m : Traced Effect α) : returns (quiet m).trace = [] := by
  simp [quiet, returns, List.filterMap_map]

@[simp] theorem returns_stage {α : Type} (dir : DmaDir) (s : Stage) (code : α → Int)
    (m : Traced Effect α) : returns (stage dir s code m).trace = [(dir, s, code m.val)] := by
  simp [stage, returns, List.filterMap_map]

@[simp] theorem val_quiet {α : Type} (m : Traced Effect α) : (quiet m).val = m.val := rfl

@[simp] theorem val_stage {α : Type} (dir : DmaDir) (s : Stage) (code : α → Int)
    (m : Traced Effect α) : (stage dir s code m).val = m.val := rfl

/-! ## Transfers -/

namespace Transfer

variable (t : Transfer) (st : Stages)

def setup : Traced Effect (Int × DpuXferInfo) := st.dpuSetupSg t.xfer t.hostAddr

def table : Traced Effect (Int × DpuDescInfo) :=
  st.setHdmaDesc (t.setup st).val.2 (initDesc t.descAddr t.xfer.dir)

def upload : Traced Effect Int := st.tranferDesc t.chDesc (t.table st).val.2

def data : Traced Effect Int :=
  st.dmaLlmodeTransmit t.chData (t.table st).val.2 t.enable t.regs

/-- The events of a transfer up to the return of each stage, and of the ways out. -/
def afterSetup : List Event := (stage t.xfer.dir .dpuSetupSg Prod.fst (t.setup st)).trace

def afterTable : List Event :=
  t.afterSetup st ++ (stage t.xfer.dir .setHdmaDesc Prod.fst (t.table st)).trace

def afterUpload : List Event :=
  t.afterTable st ++ (stage t.xfer.dir .tranferDesc id (t.upload st)).trace

def afterData : List Event :=
  t.afterUpload st ++ (stage t.xfer.dir .dmaLlmodeTransmit id (t.data st)).trace

def closeSg : List Event := (quiet (dpuTeardownSg (t.setup st).val.2)).trace

def closeTable : List Event :=
  (quiet (teardownDmaDesc (t.table st).val.2)).trace ++ t.closeSg st

end Transfer

inductive TransferPath (st : Stages) (t : Transfer) (err : Int → Int) :
    Int → List Event → Prop
  | setup (h1 : (t.setup st).val.1 ≠ 0) :
      TransferPath st t err (t.setup st).val.1 (t.afterSetup st)
  | table (h1 : (t.setup st).val.1 = 0) (h2 : (t.table st).val.1 ≠ 0) :
      TransferPath st t err (err (t.table st).val.1) (t.afterTable st ++ t.closeSg st)
  | upload (h1 : (t.setup st).val.1 = 0) (h2 : (t.table st).val.1 = 0)
      (h3 : (t.upload st).val ≠ 0) :
      TransferPath st t err (err (t.upload st).val) (t.afterUpload st ++ t.closeTable st)
  | data (h1 : (t.setup st).val.1 = 0) (h2 : (t.table st).val.1 = 0)
      (h3 : (t.upload st).val = 0) (h4 : (t.data st).val ≠ 0) :
      TransferPath st t err (err (t.data st).val) (t.afterData st ++ t.closeTable st)
  | done (h1 : (t.setup st).val.1 = 0) (h2 : (t.table st).val.1 = 0)
      (h3 : (t.upload st).val = 0) (h4 : (t.data st).val = 0) :
      TransferPath st t err 0 (t.afterData st ++ t.closeTable st)

theorem hdmaTransfer_eq (st : Stages) (t : Transfer) (err : Int → Int) :
    hdmaTransfer st t err = (do
      let r1 ← stage t.xfer.dir .dpuSetupSg Prod.fst (t.setup st)
      if r1.1 ≠ 0 then
        return r1.1
      let r2 ← stage t.xfer.dir .setHdmaDesc Prod.fst (t.table st)
      if r2.1 ≠ 0 then
        quiet (dpuTeardownSg (t.setup st).val.2)
        return err r2.1
      let r3 ← stage t.xfer.dir .tranferDesc id (t.upload st)
      if r3 ≠ 0 then
        quiet (teardownDmaDesc (t.table st).val.2)
        quiet (dpuTeardownSg (t.setup st).val.2)
        return err r3
      let r4 ← stage t.xfer.dir .dmaLlmodeTransmit id (t.data st)
      if r4 ≠ 0 then
        quiet (teardownDmaDesc (t.table st).val.2)
        quiet (dpuTeardownSg (t.setup st).val.2)
        return err r4
      quiet (teardownDmaDesc (t.table st).val.2)
      quiet (dpuTeardownSg (t.setup st).val.2)
      return r4) :=
  rfl

open Transfer in
theorem hdmaTransfer_path (st : Stages) (t : Transfer) (err : Int → Int) :
    TransferPath st t err (hdmaTransfer st t err).val (hdmaTransfer st t err).trace := by
  rw [hdmaTransfer_eq]
  by_cases h1 : (t.setup st).val.1 = 0
  case neg =>
    convert TransferPath.setup h1 using 1 <;> simp [afterSetup, h1]
  by_cases h2 : (t.table st).val.1 = 0
  case neg =>
    convert TransferPath.table h1 h2 using 1 <;>
      simp [afterTable, afterSetup, closeSg, h1, h2]
  by_cases h3 : (t.upload st).val = 0
  case neg =>
    convert TransferPath.upload h1 h2 h3 using 1 <;>
      simp [afterUpload, afterTable, afterSetup, closeTable, closeSg, h1, h2, h3]
  by_cases h4 : (t.data st).val = 0
  case neg =>
    convert TransferPath.data h1 h2 h3 h4 using 1 <;>
      simp [afterData, afterUpload, afterTable, afterSetup, closeTable, closeSg, h1, h2, h3, h4]
  convert TransferPath.done h1 h2 h3 h4 using 1 <;>
    simp [afterData, afterUpload, afterTable, afterSetup, closeTable, closeSg, h1, h2, h3, h4]

/-! ## Codes of a transfer -/

namespace Transfer

variable (t : Transfer) (st : Stages)

def codes : List (Stage × Int) :=
  [(.dpuSetupSg, (t.setup st).val.1), (.setHdmaDesc, (t.table st).val.1),
    (.tranferDesc, (t.upload st).val), (.dmaLlmodeTransmit, (t.data st).val)]

/-- What the transfer returns: the code of a failed first stage as it is, a later
one through the error labels. -/
def ret (err : Int → Int) : Int :=
  match failure (t.codes st) with
  | none => 0
  | some c => if (t.setup st).val.1 = 0 then err c else c

end Transfer

section Path

open Transfer

variable {st : Stages} {t : Transfer} {err : Int → Int} {v : Int} {tr : List Event}

theorem TransferPath.returns (h : TransferPath st t err v tr) :
    returns tr = (ran (t.codes st)).map (t.xfer.dir, ·) := by
  cases h with
  | setup h1 => simp [codes, ran, afterSetup, h1]
  | table h1 h2 => simp [codes, ran, afterTable, afterSetup, closeSg, h1, h2]
  | upload h1 h2 h3 =>
      simp [codes, ran, afterUpload, afterTable, afterSetup, closeTable, closeSg, h1, h2, h3]
  | data h1 h2 h3 h4 | done h1 h2 h3 h4 =>
      simp [codes, ran, afterData, afterUpload, afterTable, afterSetup, closeTable, closeSg, h1,
        h2, h3, h4]

theorem TransferPath.ret (h : TransferPath st t err v tr) : v = t.ret st err := by
  cases h with
  | setup h1 => simp [Transfer.ret, codes, Pipeline.failure, h1]
  | table h1 h2 => simp [Transfer.ret, codes, Pipeline.failure, h1, h2]
  | upload h1 h2 h3 => simp [Transfer.ret, codes, Pipeline.failure, h1, h2, h3]
  | data h1 h2 h3 h4 | done h1 h2 h3 h4 =>
      simp [Transfer.ret, codes, Pipeline.failure, h1, h2, h3, h4]

end Path

/-! ## Codes of a call -/

def allStages : List Stage := [.dpuSetupSg, .setHdmaDesc, .tranferDesc, .dmaLlmodeTransmit]

def command : DmaDir → BitVec 32
  | .memToDev => commandHdmaInbound
  | .devToMem => commandHdmaOutbound

/-- A call that returns 0 ran the four stages of its operation, and all returned 0;
a stage that fails is the last one, and its code is the result. -/
structure ReportsCodes (args : HdmaMemArgs) (out : Traced Event Int) : Prop where
  complete : out.val = 0 → ∃ dir, args.op = command dir ∧
    returns out.trace = allStages.map fun s => (dir, s, 0)
  reported : ∀ dir s c, (dir, s, c) ∈ returns out.trace → c ≠ 0 →
    (returns out.trace).getLast? = some (dir, s, c) ∧ out.val = c

theorem reportsCodes_of_no_stage {args : HdmaMemArgs} {out : Traced Event Int}
    (h : returns out.trace = []) : ReportsCodes args out ↔ out.val ≠ 0 := by
  constructor
  · intro hrep hval
    obtain ⟨dir, -, hret⟩ := hrep.complete hval
    rw [h] at hret
    cases hret
  · intro hval
    refine ⟨fun hzero => absurd hzero hval, ?_⟩
    intro dir s c hmem
    rw [h] at hmem
    cases hmem

/-- A call with the stages of a transfer reports its codes when it returns the
first failure. -/
theorem reportsCodes_of_transfer {args : HdmaMemArgs} {out : Traced Event Int} {dir : DmaDir}
    {codes : List (Stage × Int)} (hop : args.op = command dir)
    (hstages : codes.map Prod.fst = allStages)
    (hret : returns out.trace = (ran codes).map (dir, ·)) :
    ReportsCodes args out ↔ ∀ c, Pipeline.failure codes = some c → out.val = c := by
  constructor
  · intro hrep c hc
    obtain ⟨s, hs⟩ := Pipeline.exists_mem_ran_of_failure hc
    have hmem : (dir, s, c) ∈ returns out.trace := by
      rw [hret]
      exact List.mem_map_of_mem hs
    exact (hrep.reported dir s c hmem (Pipeline.failure_ne_zero hc)).2
  · intro hpass
    refine ⟨fun hzero => ⟨dir, hop, ?_⟩, ?_⟩
    · have hnone : Pipeline.failure codes = none := by
        cases hf : Pipeline.failure codes with
        | none => rfl
        | some c => exact absurd (hpass c hf ▸ hzero) (Pipeline.failure_ne_zero hf)
      rw [hret, Pipeline.ran_of_failure_eq_none hnone, ← hstages, List.map_map, List.map_map]
      rfl
    · intro dir' s c hmem hc
      rw [hret] at hmem ⊢
      obtain ⟨p, hp, heq⟩ := List.mem_map.mp hmem
      obtain ⟨rfl, rfl⟩ := Prod.mk.inj heq
      obtain ⟨hlast, hfail⟩ := Pipeline.last_of_mem_ran hp hc
      rw [List.getLast?_map, hlast]
      exact ⟨rfl, hpass c hfail⟩

/-- The four ways through `eon_hdma`. -/
inductive CallPath (k : Kernel) (st : Stages) (args : HdmaMemArgs) : Int → List Event → Prop
  | noBlock (hp : k.kmallocArgs = 0#64) : CallPath k st args (-1) []
  | noCopy (hp : k.kmallocArgs ≠ 0#64) (hc : k.copyFromUser = true) :
      CallPath k st args (-2) [.effect (.use (.acquire (.kmem k.kmallocArgs))),
        .effect (.use (.release (.kmem k.kmallocArgs)))]
  | badIndex (hp : k.kmallocArgs ≠ 0#64) (hc : k.copyFromUser = false)
      (hi : maxHdmaNumber ≤ args.hdmaId.toNat) :
      CallPath k st args (-1) [.effect (.use (.acquire (.kmem k.kmallocArgs)))]
  | op (hp : k.kmallocArgs ≠ 0#64) (hc : k.copyFromUser = false) (n : Fin maxHdmaNumber)
      (hi : n.val = args.hdmaId.toNat) :
      CallPath k st args (copyOut k eonIoctlHdma (hdmaOp st args n).val)
        (.effect (.use (.acquire (.kmem k.kmallocArgs))) :: ((hdmaOp st args n).trace ++
          [.effect (.use (.release (.kmem k.kmallocArgs)))]))

theorem eonHdma_path (k : Kernel) (st : Stages) (args : HdmaMemArgs) :
    CallPath k st args (eonHdma k st eonIoctlHdma args).val
      (eonHdma k st eonIoctlHdma args).trace := by
  have hin : eonIoctlHdma &&& iocIn ≠ 0#32 := by decide
  by_cases hp : k.kmallocArgs = 0#64
  · convert CallPath.noBlock hp using 1 <;> simp [eonHdma, kmalloc, alloc, quiet, hp]
  by_cases hc : k.copyFromUser = true
  · convert CallPath.noCopy hp hc using 1 <;>
      simp [eonHdma, kmalloc, kfree, alloc, free, quiet, hp, hc, hin]
  rw [Bool.not_eq_true] at hc
  by_cases hi : args.hdmaId.toNat < maxHdmaNumber
  · convert CallPath.op hp hc ⟨args.hdmaId.toNat, hi⟩ rfl using 1 <;>
      simp [eonHdma, kmalloc, kfree, alloc, free, quiet, hp, hc, hi]
  · convert CallPath.badIndex hp hc (Nat.le_of_not_lt hi) using 1 <;>
      simp [eonHdma, kmalloc, alloc, quiet, hp, hc, hi]

def inboundOf (args : HdmaMemArgs) (n : Fin maxHdmaNumber) : Transfer :=
  inboundTransfer ⟨.rd, n⟩ args.hostAddr args.deviceAddr args.memSize args.descAddr args.enable
    args.regs

def outboundOf (args : HdmaMemArgs) (n : Fin maxHdmaNumber) : Transfer :=
  outboundTransfer ⟨.wr, n⟩ ⟨.rd, n⟩ args.hostAddr args.deviceAddr args.memSize args.descAddr
    args.enable args.regs

/-- The error labels of an outbound transfer are not reached, or the copy back fails
with the code of the stage that failed. -/
def OutboundPasses (k : Kernel) (st : Stages) (t : Transfer) : Prop :=
  (t.setup st).val.1 ≠ 0 ∨ Pipeline.failure (t.codes st) = none ∨
    (k.copyToUser = true ∧ Pipeline.failure (t.codes st) = some (-3))

/-- The calls whose result tells what their stages returned. -/
def CodesPass (k : Kernel) (st : Stages) (args : HdmaMemArgs) : Prop :=
  k.kmallocArgs = 0#64 ∨ k.copyFromUser = true ∨ maxHdmaNumber ≤ args.hdmaId.toNat ∨
    args.op = commandHdmaInbound ∨
    (args.op = commandHdmaOutbound ∧
      ∀ n : Fin maxHdmaNumber, n.val = args.hdmaId.toNat →
        OutboundPasses k st (outboundOf args n)) ∨
    (args.op ≠ commandHdmaInbound ∧ args.op ≠ commandHdmaOutbound ∧ k.copyToUser = true)

theorem copyOut_of_ne_zero {k : Kernel} {cmd : BitVec 32} {ret : Int} (h : ret ≠ 0) :
    copyOut k cmd ret = ret :=
  if_neg fun hall => h hall.1

theorem copyOut_zero (k : Kernel) :
    copyOut k eonIoctlHdma 0 = if k.copyToUser then -3 else 0 := by
  have hout : eonIoctlHdma &&& iocOut ≠ 0#32 := by decide
  simp [copyOut, hout]

theorem transferRet_eq {t : Transfer} {st : Stages} {err : Int → Int} {c : Int}
    (h : Pipeline.failure (t.codes st) = some c) :
    t.ret st err = if (t.setup st).val.1 = 0 then err c else c := by
  rw [Transfer.ret, h]

/-- An outbound transfer returns 0 for a failure behind the first stage. -/
theorem outboundPasses_iff {k : Kernel} {st : Stages} {t : Transfer} :
    OutboundPasses k st t ↔ ∀ c, Pipeline.failure (t.codes st) = some c →
      copyOut k eonIoctlHdma (t.ret st fun _ => 0) = c := by
  by_cases hsetup : (t.setup st).val.1 = 0
  · constructor
    · rintro (h | h | ⟨hcopy, h⟩) c hc
      · exact absurd hsetup h
      · rw [h] at hc
        cases hc
      · rw [h] at hc
        rw [transferRet_eq h, if_pos hsetup, copyOut_zero, hcopy, ← Option.some.inj hc]
        rfl
    · intro h
      cases hc : Pipeline.failure (t.codes st) with
      | none => exact .inr (.inl hc)
      | some c =>
          have hret := h c hc
          rw [transferRet_eq hc, if_pos hsetup, copyOut_zero] at hret
          cases hcopy : k.copyToUser with
          | true =>
              rw [hcopy] at hret
              obtain rfl : -3 = c := hret
              exact .inr (.inr ⟨hcopy, hc⟩)
          | false =>
              rw [hcopy] at hret
              exact absurd hret.symm (Pipeline.failure_ne_zero hc)
  · refine ⟨fun _ c hc => ?_, fun _ => .inl hsetup⟩
    rw [transferRet_eq hc, if_neg hsetup, copyOut_of_ne_zero (Pipeline.failure_ne_zero hc)]

theorem inbound_passes {k : Kernel} {st : Stages} {t : Transfer} {c : Int}
    (hc : Pipeline.failure (t.codes st) = some c) :
    copyOut k eonIoctlHdma (t.ret st id) = c := by
  have hret : t.ret st id = c := by
    rw [transferRet_eq hc]
    exact ite_self c
  rw [hret, copyOut_of_ne_zero (Pipeline.failure_ne_zero hc)]

theorem reportsCodes_around {k : Kernel} {st : Stages} {args : HdmaMemArgs} {t : Transfer}
    {err : Int → Int} {e e' : Effect} (hop : args.op = command t.xfer.dir) :
    ReportsCodes args ⟨copyOut k eonIoctlHdma (hdmaTransfer st t err).val,
        .effect e :: ((hdmaTransfer st t err).trace ++ [.effect e'])⟩ ↔
      ∀ c, Pipeline.failure (t.codes st) = some c →
        copyOut k eonIoctlHdma (t.ret st err) = c := by
  have hpath := hdmaTransfer_path st t err
  rw [hpath.ret]
  apply reportsCodes_of_transfer hop rfl
  simp [hpath.returns]

theorem CallPath.reports_iff {k : Kernel} {st : Stages} {args : HdmaMemArgs} {v : Int}
    {tr : List Event} (h : CallPath k st args v tr) :
    ReportsCodes args ⟨v, tr⟩ ↔ CodesPass k st args := by
  cases h with
  | noBlock hp =>
      rw [reportsCodes_of_no_stage rfl]
      exact iff_of_true (show (-1 : Int) ≠ 0 by omega) (.inl hp)
  | noCopy hp hc =>
      rw [reportsCodes_of_no_stage rfl]
      exact iff_of_true (show (-2 : Int) ≠ 0 by omega) (.inr (.inl hc))
  | badIndex hp hc hi =>
      rw [reportsCodes_of_no_stage rfl]
      exact iff_of_true (show (-1 : Int) ≠ 0 by omega) (.inr (.inr (.inl hi)))
  | op hp hc n hi =>
      have hlt : ¬ maxHdmaNumber ≤ args.hdmaId.toNat := by
        rw [← hi]
        exact Nat.not_le_of_lt n.isLt
      simp only [CodesPass, hp, hc, hlt, Bool.false_eq_true, false_or]
      by_cases hin : args.op = commandHdmaInbound
      · -- the error labels of an inbound transfer return the code
        have hop : hdmaOp st args n = hdmaTransfer st (inboundOf args n) id := if_pos hin
        rw [hop, reportsCodes_around hin]
        exact iff_of_true (fun c hfail => inbound_passes hfail) (.inl hin)
      · by_cases hout : args.op = commandHdmaOutbound
        · -- those of an outbound transfer return 0
          have hop : hdmaOp st args n = hdmaTransfer st (outboundOf args n) fun _ => 0 :=
            (if_neg hin).trans (if_pos hout)
          rw [hop, reportsCodes_around hout, ← outboundPasses_iff]
          constructor
          · intro hpass
            refine .inr (.inl ⟨hout, ?_⟩)
            intro m hm
            obtain rfl : m = n := Fin.ext (hm.trans hi.symm)
            exact hpass
          · rintro (h | ⟨-, h⟩ | ⟨-, h, -⟩)
            · exact absurd h hin
            · exact h n hi
            · exact absurd hout h
        · have hop : hdmaOp st args n = pure 0 := (if_neg hin).trans (if_neg hout)
          rw [hop, reportsCodes_of_no_stage rfl]
          show copyOut k eonIoctlHdma 0 ≠ 0 ↔ _
          rw [copyOut_zero]
          cases k.copyToUser <;> simp [hin, hout]

theorem eonHdma_reportsCodes_iff (k : Kernel) (st : Stages) (args : HdmaMemArgs) :
    ReportsCodes args (eonHdma k st eonIoctlHdma args) ↔ CodesPass k st args :=
  (eonHdma_path k st args).reports_iff

def timedOut : Kernel := { granting with waitDesc := 0 }

/-- One page from the device to the host. -/
def readPage : HdmaMemArgs where
  hostAddr := 0x7000#64
  deviceAddr := 0x48000000#64
  memSize := 0x1000#64
  descAddr := 0x48001000#64
  hdmaId := 0#32
  op := commandHdmaOutbound
  enable := dmaEnable
  regs := ⟨0#8, 0#8, fun _ => ⟨0#64, 0#32⟩⟩

/-- `tranfer_desc` returns -1, the engine is never started, and the call returns 0. -/
theorem outbound_swallows_timeout :
    ¬ ReportsCodes readPage (eonHdma timedOut timedOut.stages eonIoctlHdma readPage) := by
  intro hrep
  obtain ⟨dir, -, hret⟩ := hrep.complete (by decide)
  have hlen := congrArg List.length hret
  rw [List.length_map] at hlen
  exact absurd hlen (by decide)

end EonDrv.Ioctl

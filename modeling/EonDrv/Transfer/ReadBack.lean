import EonDrv.Support.Along
import EonDrv.Transfer.Concurrent

/-!
# Sequences of transfers

Transfers one after the other, each for a caller and on a channel of its own, next to
the byte copies that they stand for.  A copy program knows no tables: it forgets the
bytes of a table's place, and the rest of both memories is what the copies leave.  So
the device keeps what was written to it until a transfer writes there again.
-/

namespace EonDrv.Transfer

open Completion (HdmaOp)
open Ioctl (Kernel sgPages tableSize)
open ScatterGather (Knows perform block)

/-- One ioctl, with the kernel and the memory map it finds. -/
structure Job where
  kernel : Kernel
  iommu : BitVec 64 → HostByte
  regs : HdmaReg → BitVec 32
  structPage : Nat → Ptr
  args : HdmaMemArgs
  chan : Fin maxHdmaNumber
  op : HdmaOp

namespace Job

def transfer (j : Job) : Ioctl.Transfer := transferOf j.args j.chan j.op

def user (j : Job) (i : Nat) : HostByte := userByte j.structPage (j.args.hostAddr.toNat + i)
def device (j : Job) (i : Nat) : BitVec 64 := j.args.deviceAddr + BitVec.ofNat 64 i
def size (j : Job) : Nat := j.args.memSize.toNat

def InTable (j : Job) (a : BitVec 64) : Prop :=
  InRange j.transfer.descAddr (tableSize j.transfer).toNat a

instance (j : Job) (a : BitVec 64) : Decidable (j.InTable a) := inferInstanceAs (Decidable (_ < _))

def run (m : Memories) (j : Job) : Option Memories :=
  moveTransfer j.kernel j.iommu j.regs j.transfer m

structure Moves (j : Job) : Prop where
  setUp : ¬ SetupFails j.kernel j.transfer
  rung : DataRung j.transfer

/-- A job that is set up is served, and does not overwrite its own table. -/
structure Ok (j : Job) : Prop where
  served : ¬ SetupFails j.kernel j.transfer →
    Served j.kernel j.iommu j.structPage j.transfer
  apart : j.op = .inbound → TableApart j.transfer

end Job

/-! ## The copies -/

/-- What a sequence of copies determines of the two memories. -/
structure Known where
  host : HostByte → Option (BitVec 8)
  device : BitVec 64 → Option (BitVec 8)

structure Known.Of (known : Known) (m : Memories) : Prop where
  host : Knows known.host m.host
  device : Knows known.device m.device

def Known.all (m : Memories) : Known := ⟨fun p => some (m.host p), fun a => some (m.device a)⟩

theorem known_all (m : Memories) : (Known.all m).Of m :=
  ⟨ScatterGather.knows_all m.host, ScatterGather.knows_all m.device⟩

def Job.upload (j : Job) (known : Known) : Known :=
  { known with device := fun a => if j.InTable a then none else known.device a }

def Job.move (j : Job) (known : Known) : Known :=
  match j.op with
  | .inbound =>
    { known with device := perform known.host (block j.user j.device j.size) known.device }
  | .outbound =>
    { known with host := perform known.device (block j.device j.user j.size) known.host }

/-- The transfer as a copy.  A failed set-up copies nothing, and without its doorbell the
data stays where it is. -/
def Job.copy (known : Known) (j : Job) : Known :=
  if SetupFails j.kernel j.transfer then known
  else if DataRung j.transfer then j.move (j.upload known)
  else j.upload known

def runJobs (jobs : List Job) (m : Memories) : Option Memories := jobs.foldlM Job.run m
def copyJobs (jobs : List Job) (known : Known) : Known := jobs.foldl Job.copy known

/-! ## A transfer is its copy -/

section

variable {j : Job} {known : Known} {m : Memories}

theorem known_upload (hserved : Served j.kernel j.iommu j.structPage j.transfer)
    (h : known.Of m) :
    (j.upload known).Of (uploadTable j.kernel j.regs j.transfer m) := by
  refine ⟨h.host, fun a x hx => ?_⟩
  change (if j.InTable a then none else known.device a) = some x at hx
  by_cases ha : j.InTable a
  · rw [if_pos ha] at hx
    cases hx
  · rw [if_neg ha] at hx
    rw [uploadTable_of_not_inRange hserved ha]
    exact h.device a x hx

theorem known_data (hserved : Served j.kernel j.iommu j.structPage j.transfer)
    (hapart : j.op = .inbound → TableApart j.transfer)
    (h : known.Of (uploadTable j.kernel j.regs j.transfer m)) :
    ∃ m', runData j.kernel j.iommu j.regs j.transfer
        (uploadTable j.kernel j.regs j.transfer m) = some m' ∧ (j.move known).Of m' := by
  obtain ⟨k, iommu, regs, structPage, args, n, op⟩ := j
  cases op with
  | inbound =>
      obtain ⟨mapped, hmaps, hrun⟩ := runData_eq hserved (fun _ => ⟨rfl, hapart rfl⟩) regs m
      have hmoves := doMoves_memToDev hserved.tiles hmaps args.deviceAddr
        (uploadTable k regs (Ioctl.inboundOf args n) m)
      refine ⟨_, hrun.trans (congrArg some hmoves), h.host, ?_⟩
      exact h.host.perform h.device _
  | outbound =>
      have hwr : (Ioctl.outboundOf args n).chData.rwType ≠ .rd := by
        show RwType.wr ≠ .rd
        decide
      obtain ⟨mapped, hmaps, hrun⟩ := runData_eq hserved (fun hrd => absurd hrd hwr) regs m
      have hmoves := doMoves_devToMem hserved.tiles hmaps args.deviceAddr
        (uploadTable k regs (Ioctl.outboundOf args n) m)
      refine ⟨_, hrun.trans (congrArg some hmoves), ?_, h.device⟩
      exact h.device.perform h.host _

theorem copy_of_run (hok : j.Ok) (h : known.Of m) :
    ∃ m', Job.run m j = some m' ∧ (j.copy known).Of m' := by
  rw [Job.run, moveTransfer, Job.copy]
  by_cases hfails : SetupFails j.kernel j.transfer
  · rw [if_pos hfails, if_pos hfails]
    exact ⟨m, rfl, h⟩
  · have hserved := hok.served hfails
    rw [if_neg hfails, if_neg hfails]
    by_cases hrung : DataRung j.transfer
    · rw [if_pos hrung, if_pos hrung]
      exact known_data hserved hok.apart (known_upload hserved h)
    · rw [if_neg hrung, if_neg hrung]
      exact ⟨_, rfl, known_upload hserved h⟩

end

def twoBytesOf (first : Nat) (args : HdmaMemArgs) (op : HdmaOp) : Job :=
  ⟨identity, identityIommu first, fun _ => 0#32, Ioctl.structPageAt, args, 0, op⟩

def writeFirst : Job := twoBytesOf 0x7fff0 (twoBytes commandHdmaInbound) .inbound

def writeElsewhere : Job :=
  let args := twoBytes commandHdmaInbound
  twoBytesOf 0x7fff0 { args with deviceAddr := 0x51000000#64, descAddr := 0x48002000#64 } .inbound

def readSecond : Job :=
  twoBytesOf 0x12340 { twoBytes commandHdmaOutbound with hostAddr := 0x12340fff#64 } .outbound

theorem writeFirst_ok : writeFirst.Ok :=
  ⟨fun _ => served_identity 0x7fff0 rfl (by decide) (by decide) (by decide) (by decide),
    fun _ => tableApart_of_le (by decide) (by decide)⟩

theorem writeElsewhere_ok : writeElsewhere.Ok :=
  ⟨fun _ => served_identity 0x7fff0 rfl (by decide) (by decide) (by decide) (by decide),
    fun _ => tableApart_of_le (by decide) (by decide)⟩

theorem readSecond_ok : readSecond.Ok :=
  ⟨fun _ => served_identity 0x12340 rfl (by decide) (by decide) (by decide) (by decide),
    fun h => nomatch h⟩

theorem twoJobs_ok (j : Job) (hj : j ∈ [writeFirst, writeElsewhere, readSecond]) : j.Ok := by
  simp only [List.mem_cons, List.not_mem_nil, or_false] at hj
  obtain rfl | rfl | rfl := hj
  · exact writeFirst_ok
  · exact writeElsewhere_ok
  · exact readSecond_ok

/-- Only the pages of the first caller have something in them. -/
def firstWritten : Memories where
  host p :=
    if p.1 = Ioctl.structPageAt 0x7fff0 then 0xaa#8
    else if p.1 = Ioctl.structPageAt 0x7fff1 then 0xbb#8
    else 0#8
  device _ := 0#8

/-- `j` writes to no device byte of `w`. -/
structure Job.KeepsOff (j w : Job) : Prop where
  table : ∀ i, i < w.size → ¬ j.InTable (w.device i)
  data : j.op = .inbound → ∀ i, i < w.size → ∀ i', i' < j.size → j.device i' ≠ w.device i

section

variable {w r j : Job} {known : Known} {i : Nat}

theorem upload_device (known : Known) {a : BitVec 64} (h : ¬ j.InTable a) :
    (j.upload known).device a = known.device a := if_neg h

theorem copy_moves (h : j.Moves) : j.copy known = j.move (j.upload known) := by
  rw [Job.copy, if_neg h.setUp, if_pos h.rung]

theorem copy_written (hin : w.op = .inbound) (hw : w.Moves) (hi : i < w.size) :
    (w.copy known).device (w.device i) = known.host (w.user i) := by
  have hsize : w.size < 2 ^ 64 := w.args.memSize.isLt
  rw [copy_moves hw, Job.move, hin]
  refine ScatterGather.perform_block (fun a b ha hb heq => ?_) hi
  exact add_ofNat_injective _ (by omega) (by omega) heq

theorem copy_keeps (hoff : j.KeepsOff w) (hi : i < w.size) :
    (j.copy known).device (w.device i) = known.device (w.device i) := by
  have hupload := upload_device known (hoff.table i hi)
  rw [Job.copy]
  by_cases hfails : SetupFails j.kernel j.transfer
  · rw [if_pos hfails]
  · rw [if_neg hfails]
    by_cases hrung : DataRung j.transfer
    · rw [if_pos hrung, Job.move]
      cases hop : j.op with
      | inbound =>
          exact (ScatterGather.perform_block_of_ne (hoff.data hop i hi)).trans hupload
      | outbound => exact hupload
    · rw [if_neg hrung, hupload]

theorem copy_read (hout : r.op = .outbound) (hr : r.Moves)
    (haddr : r.args.deviceAddr = w.args.deviceAddr) (hsize : r.args.memSize = w.args.memSize)
    (hoff : r.KeepsOff w) (hpages : PagesApart r.structPage r.transfer) (hi : i < w.size) :
    (r.copy known).host (r.user i) = known.device (w.device i) := by
  have hlt : i < r.size := by
    rw [Job.size, hsize]
    exact hi
  have hsame : r.device i = w.device i := by
    rw [Job.device, haddr]
    rfl
  rw [← upload_device known (hoff.table i hi), ← hsame, copy_moves hr, Job.move, hout]
  refine ScatterGather.perform_block (fun a b ha hb heq => ?_) hlt
  obtain ⟨k, iommu, regs, structPage, args, n, op⟩ := r
  obtain rfl : op = .outbound := hout
  exact userByte_injective hpages ha hb heq

end

theorem twoJobs_keepOff (j : Job) (hj : j ∈ [writeElsewhere] ++ [readSecond]) :
    j.KeepsOff writeFirst := by
  simp only [List.cons_append, List.nil_append, List.mem_cons, List.not_mem_nil, or_false] at hj
  obtain rfl | rfl := hj
  · exact ⟨by decide, fun _ => by decide⟩
  · exact ⟨by decide, fun h => nomatch h⟩

end EonDrv.Transfer

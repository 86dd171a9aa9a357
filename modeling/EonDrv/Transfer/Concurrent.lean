import EonDrv.Completion.Table
import EonDrv.Machine.Doorbell
import EonDrv.Transfer.Delivery

/-!
# What a data doorbell moves

The whole driver at the moment a request rings the doorbell of its data stage.  The
engine starts from the registers of the BAR and fetches its elements from device
memory, and both are what the request put there, whatever other requests, register
ioctls and the completion thread have done in between.
-/

namespace EonDrv.Transfer

open Completion (HdmaOp HdmaRequest storeBytes TableLoaded UploadsWaited TablesKept)
open Descriptor (descBytes)
open Ioctl (Kernel tableSize)

/-! ## The request of a call -/

def transferOf (args : HdmaMemArgs) (n : Fin maxHdmaNumber) : HdmaOp → Ioctl.Transfer
  | .inbound => Ioctl.inboundOf args n
  | .outbound => Ioctl.outboundOf args n

/-- What the two set-up stages hand to the other two. -/
def requestOf (k : Kernel) (args : HdmaMemArgs) (n : Fin maxHdmaNumber) (op : HdmaOp) :
    HdmaRequest where
  op := op
  hdmaId := n
  enable := args.enable
  regs := args.regs
  desc := transferDesc k (transferOf args n op)
  table := tableBytes (transferTable k (transferOf args n op))
    ((transferDesc k (transferOf args n op)).descSize.toNat / 4)

/-- The bytes of the range have moved in the direction of the operation. -/
def Delivers (structPage : Nat → Ptr) (args : HdmaMemArgs) (n : Fin maxHdmaNumber)
    (op : HdmaOp) (m m' : Memories) : Prop :=
  match op with
  | .inbound => DeliversIn structPage (Ioctl.inboundOf args n) m m'
  | .outbound => DeliversOut structPage (Ioctl.outboundOf args n) m m'

section

variable {k : Kernel} {iommu : BitVec 64 → HostByte} {structPage : Nat → Ptr}
  {args : HdmaMemArgs} {n : Fin maxHdmaNumber} {op : HdmaOp}

theorem chan_requestOf (k : Kernel) (args : HdmaMemArgs) (n : Fin maxHdmaNumber) (op : HdmaOp) :
    (requestOf k args n op).chan .data = (transferOf args n op).chData := by
  cases op <;> rfl

theorem showsTable_of_loaded {t : Ioctl.Transfer} {mapped : List SgEntry}
    (htable : TableOf k t mapped) {mem : DeviceMem}
    (hloaded : ∀ a : BitVec 64,
      a.toNat < (tableBytes (transferTable k t) ((transferDesc k t).descSize.toNat / 4)).length →
        (tableBytes (transferTable k t) ((transferDesc k t).descSize.toNat / 4))[a.toNat]? =
          some (mem (t.descAddr + a))) : ShowsTable k t mapped.length mem := by
  have hbound := htable.bounded
  have hsize := htable.size
  rw [descBytes] at hsize hbound
  rw [← htable.descSize] at hsize
  have hwords : (transferDesc k t).descSize.toNat / 4 = 6 * (mapped.length + 1) := by omega
  rw [hwords, length_tableBytes] at hloaded
  intro j hj
  have hshows : ShowsTable k t mapped.length
      (storeBytes mem t.descAddr (tableBytes (transferTable k t) (6 * (mapped.length + 1)))) :=
    showsTable_storeBytes k t htable.bounded
  rw [← hshows j hj]
  refine elementAt_congr fun b hb => ?_
  have haddr : t.descAddr + BitVec.ofNat 64 (24 * j) + BitVec.ofNat 64 b =
      t.descAddr + BitVec.ofNat 64 (24 * j + b) := by
    rw [BitVec.add_assoc, ← BitVec.ofNat_add]
  have hnat : (BitVec.ofNat 64 (24 * j + b)).toNat = 24 * j + b := by
    rw [BitVec.toNat_ofNat, Nat.mod_eq_of_lt (by omega)]
  have hbyte := hloaded (BitVec.ofNat 64 (24 * j + b)) (by omega)
  rw [haddr, storeBytes, BitVec.add_comm t.descAddr, BitVec.add_sub_cancel,
    List.getD_eq_getElem?_getD, hbyte, BitVec.add_comm]
  rfl

end

/-! ## The driver -/

section

variable {reqs : Nat → HdmaRequest} {regArgs : Nat → DpuRegArgs} {regs : Nat → BitVec 32}

def Waited (reqs : Nat → HdmaRequest) (s : Machine.State) : Machine.Action → Prop
  | .comp a => UploadsWaited reqs s.comp a
  | .access _ _ => True

instance (s : Machine.State) (a : Machine.Action) : Decidable (Waited reqs s a) :=
  match a with
  | .comp a => inferInstanceAs (Decidable (UploadsWaited reqs s.comp a))
  | .access _ _ => .isTrue trivial

/-- Every upload is waited for, and no table that awaits its doorbell is overwritten. -/
def TablesWaited (reqs : Nat → HdmaRequest) (s : Machine.State) : Machine.Action → Prop
  | .comp a => UploadsWaited reqs s.comp a ∧ TablesKept reqs s.comp a
  | .access _ _ => True

theorem loaded_of_waited {s : Machine.State}
    (h : (Machine.system reqs regArgs regs).ReachVia (TablesWaited reqs) s) :
    Completion.Loaded reqs s.comp := by
  refine h.invariant (I := fun s => Completion.Loaded reqs s.comp) ?_ ?_
  · intro s (hi : Machine.Initial reqs regArgs regs s)
    refine ⟨fun r hr => ?_, fun r hr => ?_⟩
    · rw [hi.comp.req r] at hr
      cases hr
    · rw [Completion.Awaiting, hi.comp.stopped] at hr
      cases hr.1
  · intro s a t hl hg (hst : Machine.step reqs regArgs s a = some t)
    cases a with
    | comp a =>
        obtain ⟨-, hcomp, -⟩ := Machine.step_comp hst
        exact hl.step hg.1 hg.2 (Completion.fires_of_step hcomp)
    | access i v =>
        obtain ⟨-, hcomp, -⟩ := Machine.step_access hst
        rwa [hcomp]

theorem programmed_at_doorbell {s : Machine.State}
    (h : (Machine.system reqs regArgs regs).Reachable s) {r : Nat}
    (hpc : s.comp.req r = .doorbell .data) (hfit : (reqs r).desc.descSize.toNat < 2 ^ 32) :
    Machine.DataProgrammed (Machine.block s.win.regs ((reqs r).chan .data)) (reqs r).desc := by
  have hstored : Machine.stored (reqs r) (s.comp.req r) =
      some (.data, ((reqs r).writes .data).length) := by
    rw [hpc]
    rfl
  have hshown := Machine.shown_of_reachable h r .data _ hstored
  have hlen : (Machine.blockWrites (reqs r) .data).length = ((reqs r).writes .data).length :=
    List.length_map _
  rw [List.take_of_length_le (Nat.le_of_eq hlen)] at hshown
  exact Machine.programmed_of_holds hfit hshown

theorem loaded_at_doorbell {s : Machine.State}
    (h : (Machine.system reqs regArgs regs).ReachVia (TablesWaited reqs) s) {r : Nat}
    (hpc : s.comp.req r = .doorbell .data) : TableLoaded reqs s.comp.mem r := by
  have hl := loaded_of_waited h
  refine hl.table r ⟨hl.stopped r ?_, ?_⟩
  · rw [hpc]
    rfl
  · rw [hpc]
    exact Nat.le_refl _

end

def twoBytesFirst (r : Nat) : HdmaRequest :=
  let q := requestOf identity (twoBytes commandHdmaInbound) 0 .inbound
  if r = 0 then q else { q with table := [] }

theorem twoBytesFirst_disjoint : Completion.DisjointTables twoBytesFirst := by
  intro r r' hne a b ha hb
  by_cases hr : r = 0
  · have hr' : r' ≠ 0 := fun h => hne (hr.trans h.symm)
    rw [twoBytesFirst, if_neg hr'] at hb
    cases hb
  · rw [twoBytesFirst, if_neg hr] at ha
    cases ha

/-- The upload, its interrupt, and the data stage up to its doorbell. -/
def untilDoorbell : List Machine.Action :=
  (Completion.untilUpload 0 ++ Completion.stopUpload 0 ++ Completion.threadSteps 42 ++
    List.replicate 12 (Completion.Action.request 0)).map Machine.Action.comp

theorem probed_twoBytes : Machine.Initial twoBytesFirst Machine.pokes (fun _ => 0)
    { Machine.probedDriver with
      win :=
        { Machine.probedDriver.win with
          data := fun i => (Machine.accesses twoBytesFirst Machine.pokes i).args.regData } } :=
  ⟨Completion.probed_initial, rfl, rfl, rfl, fun _ => rfl, fun _ => rfl, rfl⟩

end EonDrv.Transfer

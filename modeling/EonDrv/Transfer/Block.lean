import EonDrv.Descriptor.Fill
import EonDrv.Ioctl.SgList
import EonDrv.Transfer.Engine

/-!
# The copies of a table as one block

The copies that a table asks for, byte by byte.  They go through the mapped list on
the host side and through consecutive addresses on the device side, so that over a
list which tiles a range they move that range.
-/

namespace EonDrv.Transfer

open Descriptor (Copy bytesBefore requested requestedCopy)
open Ioctl (SgPage sgLength sgStart Tiles)
open ScatterGather (perform block)

def busBytes (sgl : List SgEntry) : List (BitVec 64) :=
  sgl.flatMap fun s => (List.range s.dmaLen.toNat).map fun b => s.dmaAddress + BitVec.ofNat 64 b

def pageBytes (sgl : List SgPage) : List HostByte :=
  sgl.flatMap fun e => (List.range e.length.toNat).map fun b => (e.page, e.offset.toNat + b)

/-- The byte at an address of the caller, whose page `n` is `structPage n`. -/
def userByte (structPage : Nat → Ptr) (addr : Nat) : HostByte :=
  (structPage (addr / 4096), addr % 4096)

def orient {α : Type} (dir : DmaDir) (host device : α) : α × α :=
  match dir with
  | .memToDev => (host, device)
  | .devToMem => (device, host)

theorem busBytes_cons (s : SgEntry) (rest : List SgEntry) :
    busBytes (s :: rest) = ((List.range s.dmaLen.toNat).map fun b =>
      s.dmaAddress + BitVec.ofNat 64 b) ++ busBytes rest := rfl

theorem pageBytes_cons (e : SgPage) (rest : List SgPage) :
    pageBytes (e :: rest) = ((List.range e.length.toNat).map fun b =>
      (e.page, e.offset.toNat + b)) ++ pageBytes rest := rfl

theorem map_mapIdx {α β γ : Type} (f : Nat → α → β) (g : β → γ) (l : List α) :
    (l.mapIdx f).map g = l.mapIdx fun i a => g (f i a) := by
  apply List.ext_getElem
  · rw [List.length_map, List.length_mapIdx, List.length_mapIdx]
  · intro i hi hi'
    rw [List.getElem_map, List.getElem_mapIdx, List.getElem_mapIdx]

/-! ## The device side -/

section

variable (dir : DmaDir) (device : BitVec 64) (sgl : List SgEntry)

theorem copyMoves_requestedCopy (k : Nat) (s : SgEntry) :
    copyMoves (requestedCopy dir device sgl k s) = (List.range s.dmaLen.toNat).map fun b =>
      orient dir (s.dmaAddress + BitVec.ofNat 64 b)
        (device + BitVec.ofNat 64 (bytesBefore sgl k + b)) := by
  have haddr : ∀ b, device + BitVec.ofNat 64 (bytesBefore sgl k) + BitVec.ofNat 64 b =
      device + BitVec.ofNat 64 (bytesBefore sgl k + b) := by
    intro b
    rw [BitVec.add_assoc, ← BitVec.ofNat_add]
  cases dir <;>
    simp only [copyMoves, block, requestedCopy, haddr, orient]

/-- The copies still to come, at the device address their predecessors leave. -/
theorem moves_requested_from {k : Nat} {rest : List SgEntry} (hrest : sgl.drop k = rest) :
    (rest.mapIdx fun i s => requestedCopy dir device sgl (k + i) s).flatMap copyMoves =
      (busBytes rest).mapIdx fun j a =>
        orient dir a (device + BitVec.ofNat 64 (bytesBefore sgl k + j)) := by
  induction rest generalizing k with
  | nil => rfl
  | cons s tail ih =>
      have hs : sgl[k]? = some s := by
        rw [← List.head?_drop, hrest]
        rfl
      have htail : sgl.drop (k + 1) = tail := by
        rw [← List.tail_drop, hrest]
        rfl
      have hbefore := Descriptor.bytesBefore_succ hs
      have hmoves : (tail.mapIdx fun i s' => requestedCopy dir device sgl (k + (i + 1)) s').flatMap
          copyMoves = (busBytes tail).mapIdx fun j a =>
            orient dir a (device + BitVec.ofNat 64 (bytesBefore sgl (k + 1) + j)) := by
        rw [← ih htail]
        congr 2
        funext i
        rw [Nat.add_assoc, Nat.add_comm 1]
      rw [List.mapIdx_cons, List.flatMap_cons, hmoves, Nat.add_zero, copyMoves_requestedCopy]
      rw [busBytes_cons, List.mapIdx_append, List.length_map, List.length_range]
      congr 1
      · apply List.ext_getElem
        · rw [List.length_map, List.length_mapIdx, List.length_map]
        · intro i hi hi'
          simp only [List.getElem_map, List.getElem_mapIdx, List.getElem_range]
      · rw [hbefore]
        congr 1
        funext j a
        rw [Nat.add_assoc, Nat.add_comm s.dmaLen.toNat]

theorem moves_requested :
    (requested dir device sgl).flatMap copyMoves =
      (busBytes sgl).mapIdx fun j a => orient dir a (device + BitVec.ofNat 64 j) := by
  have hall := moves_requested_from dir device sgl (k := 0) List.drop_zero
  have hzero : bytesBefore sgl 0 = 0 := rfl
  simp only [Nat.zero_add, hzero] at hall
  exact hall

end

/-! ## The host side -/

/-- Entries that tile a range have the bytes of the range, from any entry on. -/
theorem pageBytes_drop {structPage : Nat → Ptr} {start size : Nat} {sgl : List SgPage}
    (h : Tiles structPage start size sgl) {i : Nat} {rest : List SgPage}
    (hrest : sgl.drop i = rest) :
    pageBytes rest = (List.range (sgLength rest)).map fun k =>
      userByte structPage (sgStart start sgl i + k) := by
  induction rest generalizing i with
  | nil => rfl
  | cons e tail ih =>
      have he : sgl[i]? = some e := by
        rw [← List.head?_drop, hrest]
        rfl
      have htail : sgl.drop (i + 1) = tail := by
        rw [← List.tail_drop, hrest]
        rfl
      have hplaced := h.placed i e he
      have hpage := h.page i e he
      have hinside := h.inside e (List.mem_of_getElem? he)
      have hstart : sgStart start sgl (i + 1) = sgStart start sgl i + e.length.toNat := by
        rw [sgStart, sgStart, sgLength, sgLength, List.take_add_one, he, List.map_append,
          List.sum_append]
        show _ + (_ + (e.length.toNat + 0)) = _
        omega
      have hlength : sgLength (e :: tail) = e.length.toNat + sgLength tail := rfl
      rw [pageBytes_cons, hlength, List.range_add, List.map_append, List.map_map]
      congr 1
      · refine List.map_congr_left fun b hb => ?_
        have hlt := List.mem_range.mp hb
        have hdiv : (sgStart start sgl i + b) / 4096 = start / 4096 + i := by omega
        have hmod : (sgStart start sgl i + b) % 4096 = e.offset.toNat + b := by omega
        rw [userByte, hdiv, hmod, ← hpage]
      · rw [ih htail, hstart]
        refine List.map_congr_left fun k _ => ?_
        rw [Function.comp_apply, Nat.add_assoc]

theorem pageBytes_of_tiles {structPage : Nat → Ptr} {start size : Nat} {sgl : List SgPage}
    (h : Tiles structPage start size sgl) :
    pageBytes sgl = (List.range size).map fun k => userByte structPage (start + k) := by
  have hall := pageBytes_drop h (i := 0) List.drop_zero
  rw [h.covers] at hall
  exact hall

/-! ## The block -/

/-- The DMA layer has mapped the bytes of the pages in order, whatever segments it
made. -/
def MapsBytes (iommu : BitVec 64 → HostByte) (sgl : List SgPage) (mapped : List SgEntry) : Prop :=
  (busBytes mapped).map iommu = pageBytes sgl

instance (iommu : BitVec 64 → HostByte) (sgl : List SgPage) (mapped : List SgEntry) :
    Decidable (MapsBytes iommu sgl mapped) :=
  inferInstanceAs (Decidable (_ = _))

section

variable {iommu : BitVec 64 → HostByte} {structPage : Nat → Ptr} {start size : Nat}
  {sgl : List SgPage} {mapped : List SgEntry} (htiles : Tiles structPage start size sgl)
  (hmaps : MapsBytes iommu sgl mapped) (device : BitVec 64) (m : Memories)

include htiles hmaps

theorem mapIdx_busBytes {β : Type} (f : Nat → HostByte → β) :
    ((busBytes mapped).mapIdx fun j a => f j (iommu a)) =
      (List.range size).map fun k => f k (userByte structPage (start + k)) := by
  have hbytes : (busBytes mapped).map iommu =
      (List.range size).map fun k => userByte structPage (start + k) :=
    Eq.trans hmaps (pageBytes_of_tiles htiles)
  have hlen := congrArg List.length hbytes
  rw [List.length_map, List.length_map, List.length_range] at hlen
  apply List.ext_getElem
  · rw [List.length_mapIdx, hlen, List.length_map, List.length_range]
  · intro k hk hk'
    rw [List.length_mapIdx] at hk
    have hlt : k < ((busBytes mapped).map iommu).length := by
      rw [List.length_map]
      exact hk
    have hbyte : ((busBytes mapped).map iommu)[k] = userByte structPage (start + k) := by
      simp only [hbytes, List.getElem_map, List.getElem_range]
    rw [List.getElem_map] at hbyte
    simp only [List.getElem_mapIdx, List.getElem_map, List.getElem_range, hbyte]

/-- To the device: the bytes of the range go to consecutive device addresses. -/
theorem doMoves_memToDev :
    doMoves iommu .rd ((requested .memToDev device mapped).flatMap copyMoves) m =
      { m with
        device := perform m.host (block (fun k => userByte structPage (start + k))
          (fun k => device + BitVec.ofNat 64 k) size) m.device } := by
  have hmoves := mapIdx_busBytes htiles hmaps fun j h => (h, device + BitVec.ofNat 64 j)
  rw [moves_requested]
  show Memories.mk m.host (perform _ _ m.device) = _
  congr 1
  rw [perform, perform, block, ← hmoves, map_mapIdx, map_mapIdx]
  rfl

theorem doMoves_devToMem :
    doMoves iommu .wr ((requested .devToMem device mapped).flatMap copyMoves) m =
      { m with
        host := perform m.device (block (fun k => device + BitVec.ofNat 64 k)
          (fun k => userByte structPage (start + k)) size) m.host } := by
  have hmoves := mapIdx_busBytes htiles hmaps fun j h => (device + BitVec.ofNat 64 j, h)
  rw [moves_requested]
  show Memories.mk (perform _ _ m.host) m.device = _
  congr 1
  rw [perform, perform, block, ← hmoves, map_mapIdx, map_mapIdx, map_mapIdx]
  rfl

end

end EonDrv.Transfer

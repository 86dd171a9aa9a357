import EonDrv.Support.ScatterGather
import EonDrv.Transfer.Memory

/-!
# The engine on the two memories

The linked-list reader that fetches its elements from device memory while it moves
bytes, so that a table may be overwritten by the copies it asks for.
-/

namespace EonDrv.Transfer

open Descriptor (Element Copy)
open ScatterGather (perform block)

abbrev HostByte := Ptr × Nat

structure Memories where
  host : HostByte → BitVec 8
  device : DeviceMem

def copyMoves (c : Copy) : List (BitVec 64 × BitVec 64) :=
  block (fun b => c.src + BitVec.ofNat 64 b) (fun b => c.dst + BitVec.ofNat 64 b) c.size.toNat

section

variable (iommu : BitVec 64 → HostByte)

/-- A read channel moves from the host to the device, a write channel the other
way. -/
def doMoves : RwType → List (BitVec 64 × BitVec 64) → Memories → Memories
  | .rd, moves, m => { m with device := perform (fun a => m.host (iommu a)) moves m.device }
  | .wr, moves, m =>
    { m with host := perform m.device (moves.map fun mv => (mv.1, iommu mv.2)) m.host }

/-- Execute elements from an address on, at most `fuel` of them, the one it stops at
included. -/
def runFrom (rwType : RwType) (cycleState : Bool) : Nat → BitVec 64 → Memories → Option Memories
  | 0, _, _ => none
  | fuel + 1, addr, m =>
    let e := elementAt m.device addr
    if e.cb = cycleState ∧ e.llp = false then
      runFrom rwType cycleState fuel (addr + 24#64) (doMoves iommu rwType (copyMoves e.copy) m)
    else some m

end

section

variable {iommu : BitVec 64 → HostByte} {rwType : RwType} {m : Memories}

theorem doMoves_append (ms ms' : List (BitVec 64 × BitVec 64)) :
    doMoves iommu rwType (ms ++ ms') m = doMoves iommu rwType ms' (doMoves iommu rwType ms m) := by
  cases rwType with
  | rd =>
      show Memories.mk m.host (perform _ (ms ++ ms') m.device) = _
      rw [ScatterGather.perform_append]
      rfl
  | wr =>
      show Memories.mk (perform _ ((ms ++ ms').map _) m.host) m.device = _
      rw [List.map_append, ScatterGather.perform_append]
      rfl

theorem device_doMoves {ms : List (BitVec 64 × BitVec 64)} {a : BitVec 64}
    (h : rwType = .rd → a ∉ ms.map Prod.snd) :
    (doMoves iommu rwType ms m).device a = m.device a := by
  cases rwType with
  | rd =>
      show perform (fun a => m.host (iommu a)) ms m.device a = _
      exact ScatterGather.perform_of_not_mem (h rfl)
  | wr => rfl

theorem elementAt_congr {mem mem' : DeviceMem} {addr : BitVec 64}
    (h : ∀ b, b < 24 → mem (addr + BitVec.ofNat 64 b) = mem' (addr + BitVec.ofNat 64 b)) :
    elementAt mem addr = elementAt mem' addr := by
  have hword : ∀ j, j < 6 → wordAt mem (addr + BitVec.ofNat 64 (4 * j)) =
      wordAt mem' (addr + BitVec.ofNat 64 (4 * j)) := by
    intro j hj
    unfold wordAt readBytes
    congr 2
    refine List.map_congr_left fun b hb => ?_
    have hb4 := List.mem_range.mp hb
    rw [BitVec.add_assoc, ← BitVec.ofNat_add]
    exact h (4 * j + b) (by omega)
  have hfirst := hword 0 (by omega)
  rw [show addr + BitVec.ofNat 64 (4 * 0) = addr from BitVec.add_zero _] at hfirst
  unfold elementAt
  rw [hfirst]
  exact congr (congr (congr (congr (congrArg (Element.mk _) (hword 1 (by omega)))
    (hword 2 (by omega))) (hword 3 (by omega))) (hword 4 (by omega))) (hword 5 (by omega))

/-- The engine runs the elements it finds, when none of their copies reaches the table:
`es` are executed in order, and `stop` ends the run. -/
theorem runFrom_elements {cycleState : Bool} {es : List Element} {stop : Element}
    {addr : BitVec 64} {fuel : Nat}
    (hes : ∀ e ∈ es, e.cb = cycleState ∧ e.llp = false) (hstop : stop.cb ≠ cycleState)
    (hfound : ∀ k e, (es ++ [stop])[k]? = some e →
      elementAt m.device (addr + BitVec.ofNat 64 (24 * k)) = e)
    (hclear : rwType = .rd → ∀ b, b < 24 * (es.length + 1) →
      addr + BitVec.ofNat 64 b ∉ (es.flatMap fun e => copyMoves e.copy).map Prod.snd)
    (hfuel : es.length + 1 ≤ fuel) :
    runFrom iommu rwType cycleState fuel addr m =
      some (doMoves iommu rwType (es.flatMap fun e => copyMoves e.copy) m) := by
  induction es generalizing addr fuel m with
  | nil =>
      obtain ⟨fuel, rfl⟩ := Nat.exists_eq_add_of_le' hfuel
      have hhere := hfound 0 stop rfl
      rw [Nat.mul_zero, BitVec.add_zero] at hhere
      have hno : ¬ ((elementAt m.device addr).cb = cycleState ∧
          (elementAt m.device addr).llp = false) := by
        rw [hhere]
        exact fun h => hstop h.1
      rw [List.length_nil, Nat.zero_add, runFrom, if_neg hno]
      cases rwType <;> rfl
  | cons e rest ih =>
      obtain ⟨fuel, rfl⟩ := Nat.exists_eq_add_of_le' hfuel
      have hhere := hfound 0 e rfl
      rw [Nat.mul_zero, BitVec.add_zero] at hhere
      have hshift : ∀ b, addr + 24#64 + BitVec.ofNat 64 b = addr + BitVec.ofNat 64 (24 + b) := by
        intro b
        rw [BitVec.add_assoc, ← BitVec.ofNat_add]
      have hrun : runFrom iommu rwType cycleState (fuel + ((e :: rest).length + 1)) addr m =
          runFrom iommu rwType cycleState (fuel + (rest.length + 1)) (addr + 24#64)
            (doMoves iommu rwType (copyMoves e.copy) m) := by
        show runFrom iommu rwType cycleState ((fuel + (rest.length + 1)) + 1) addr m = _
        rw [runFrom, if_pos (by rw [hhere]; exact hes e List.mem_cons_self), hhere]
      rw [hrun, List.flatMap_cons, doMoves_append]
      rw [List.flatMap_cons, List.map_append] at hclear
      refine ih (fun d hd => hes d (List.mem_cons_of_mem _ hd)) ?_ ?_ (by omega)
      · intro k d hd
        have hnext : 24 + 24 * k = 24 * (k + 1) := by omega
        rw [hshift, hnext, ← hfound (k + 1) d hd]
        refine elementAt_congr fun b hb => device_doMoves fun hrd hmem => ?_
        have hk : k < (rest ++ [stop]).length := (List.getElem?_eq_some_iff.mp hd).1
        rw [List.length_append, List.length_singleton] at hk
        rw [BitVec.add_assoc, ← BitVec.ofNat_add] at hmem
        refine hclear hrd (24 * (k + 1) + b) ?_ (List.mem_append_left _ hmem)
        rw [List.length_cons]
        omega
      · intro hrd b hb hmem
        rw [hshift] at hmem
        refine hclear hrd (24 + b) ?_ (List.mem_append_right _ hmem)
        rw [List.length_cons]
        omega

end

end EonDrv.Transfer

import EonDrv.Completion.System
import EonDrv.Descriptor.Engine
import EonDrv.Support.LittleEndian

/-!
# A table in device memory

The bytes of a descriptor table, and what the engine reads of them at the address
they were uploaded to.
-/

namespace EonDrv.Transfer

open Descriptor (Words Element readElement)
open Completion (storeBytes)
open LittleEndian (Field pack offset slice bytes value)

abbrev DeviceMem := BitVec 64 → BitVec 8

def tableFields (words : Words) (n : Nat) : List Field :=
  (List.range n).map fun w => (4, (words w).toNat)

/-- The bytes that the upload of `n` words moves. -/
def tableBytes (words : Words) (n : Nat) : List (BitVec 8) := pack (tableFields words n)

def readBytes (mem : DeviceMem) (addr : BitVec 64) (len : Nat) : List (BitVec 8) :=
  (List.range len).map fun b => mem (addr + BitVec.ofNat 64 b)

def wordAt (mem : DeviceMem) (addr : BitVec 64) : BitVec 32 :=
  BitVec.ofNat 32 (value (readBytes mem addr 4))

/-- The six words at an address. -/
def elementAt (mem : DeviceMem) (addr : BitVec 64) : Element :=
  ⟨wordAt mem addr, wordAt mem (addr + 4#64), wordAt mem (addr + 8#64), wordAt mem (addr + 12#64),
    wordAt mem (addr + 16#64), wordAt mem (addr + 20#64)⟩

/-! ## Reading back -/

section

variable {mem : DeviceMem} {addr : BitVec 64}

theorem length_tableBytes (words : Words) (n : Nat) : (tableBytes words n).length = 4 * n := by
  rw [tableBytes, LittleEndian.length_pack, tableFields, List.map_map]
  show ((List.range n).map fun _ => 4).sum = _
  rw [List.map_const', List.sum_replicate, List.length_range, smul_eq_mul, Nat.mul_comm]

theorem readBytes_storeBytes {bs : List (BitVec 8)} (hlen : bs.length ≤ 2 ^ 64) {off len : Nat}
    (h : off + len ≤ bs.length) :
    readBytes (storeBytes mem addr bs) (addr + BitVec.ofNat 64 off) len = slice bs off len := by
  apply List.ext_getElem
  · rw [readBytes, slice, List.length_map, List.length_range, List.length_take, List.length_drop]
    omega
  · intro i hi _
    rw [readBytes, List.length_map, List.length_range] at hi
    have hoff : (addr + BitVec.ofNat 64 off + BitVec.ofNat 64 i - addr).toNat = off + i := by
      rw [BitVec.add_assoc, BitVec.add_comm addr, BitVec.add_sub_cancel, ← BitVec.ofNat_add,
        BitVec.toNat_ofNat, Nat.mod_eq_of_lt (by omega)]
    simp only [readBytes, slice, List.getElem_map, List.getElem_range, List.getElem_take,
      List.getElem_drop]
    rw [storeBytes, hoff, List.getD_eq_getElem _ _ (by omega)]

theorem wordAt_storeBytes {words : Words} {n w : Nat} (hn : 4 * n ≤ 2 ^ 64) (hw : w < n) :
    wordAt (storeBytes mem addr (tableBytes words n)) (addr + BitVec.ofNat 64 (4 * w)) =
      words w := by
  have hlen := length_tableBytes words n
  have hfield : (tableFields words n)[w]? = some (4, (words w).toNat) := by
    rw [tableFields, List.getElem?_map, List.getElem?_range hw]
    rfl
  have hoff : offset (tableFields words n) w = 4 * w := by
    rw [offset, tableFields, ← List.map_take, List.take_range, Nat.min_eq_left (by omega),
      List.map_map]
    show ((List.range w).map fun _ => 4).sum = _
    rw [List.map_const', List.sum_replicate, List.length_range, smul_eq_mul, Nat.mul_comm]
  have hvalue := LittleEndian.value_slice_pack hfield
  rw [hoff] at hvalue
  rw [wordAt, readBytes_storeBytes (by omega) (by omega)]
  show BitVec.ofNat 32 (value (slice (pack (tableFields words n)) (4 * w) 4)) = _
  have hlt : (words w).toNat < 256 ^ 4 := (words w).isLt
  rw [hvalue]
  show BitVec.ofNat 32 ((words w).toNat % 256 ^ 4) = _
  rw [Nat.mod_eq_of_lt hlt, BitVec.ofNat_toNat, BitVec.setWidth_eq]

theorem elementAt_storeBytes {words : Words} {n k : Nat} (hn : 4 * n ≤ 2 ^ 64)
    (hk : 6 * k + 6 ≤ n) :
    elementAt (storeBytes mem addr (tableBytes words n)) (addr + BitVec.ofNat 64 (24 * k)) =
      readElement words k := by
  have hword : ∀ j, j < 6 → wordAt (storeBytes mem addr (tableBytes words n))
      (addr + BitVec.ofNat 64 (24 * k) + BitVec.ofNat 64 (4 * j)) = words (6 * k + j) := by
    intro j hj
    have haddr : addr + BitVec.ofNat 64 (24 * k) + BitVec.ofNat 64 (4 * j) =
        addr + BitVec.ofNat 64 (4 * (6 * k + j)) := by
      rw [BitVec.add_assoc, ← BitVec.ofNat_add]
      congr 2
      omega
    rw [haddr]
    exact wordAt_storeBytes hn (by omega)
  have hfirst := hword 0 (by omega)
  rw [show addr + BitVec.ofNat 64 (24 * k) + BitVec.ofNat 64 (4 * 0) =
    addr + BitVec.ofNat 64 (24 * k) from BitVec.add_zero _] at hfirst
  rw [elementAt, hfirst, readElement]
  exact congr (congr (congr (congr (congrArg (Element.mk _) (hword 1 (by omega)))
    (hword 2 (by omega))) (hword 3 (by omega))) (hword 4 (by omega))) (hword 5 (by omega))

end

end EonDrv.Transfer

import EonDrv.Ioctl.Neutral
import EonDrv.Support.Pages

/-!
# The page count and the splitting loop

`get_pages_nr` and the loop of `dpu_setup_sg` in numbers, and the loop as the walk
over the pages of a range.
-/

namespace EonDrv.Ioctl

/-! ## Offsets -/

theorem zeroExtend_toNat (v : BitVec 32) : (v.zeroExtend 64).toNat = v.toNat :=
  BitVec.toNat_setWidth_of_le (by decide)

theorem pageOffset_toNat (addr : BitVec 64) :
    (addr &&& ~~~pageMask).toNat = addr.toNat % 4096 := by
  have hmask : ~~~pageMask = 0xfff#64 := by decide
  rw [hmask, BitVec.toNat_and]
  exact Nat.and_two_pow_sub_one_eq_mod addr.toNat 12

theorem pageBase_toNat (addr : BitVec 64) :
    (addr &&& pageMask).toNat + addr.toNat % 4096 = addr.toNat := by
  have hdisj : (addr &&& pageMask) &&& (addr &&& ~~~pageMask) = 0#64 := by
    ext i
    simp only [BitVec.getElem_and, BitVec.getElem_not, BitVec.getElem_zero]
    cases addr[i] <;> cases pageMask[i] <;> rfl
  have hsum : (addr &&& pageMask) + (addr &&& ~~~pageMask) = addr := by
    rw [BitVec.add_eq_or_of_and_eq_zero _ _ hdisj]
    ext i
    simp only [BitVec.getElem_or, BitVec.getElem_and, BitVec.getElem_not]
    cases addr[i] <;> cases pageMask[i] <;> rfl
  have hlt : (addr &&& pageMask).toNat ≤ addr.toNat := by
    rw [BitVec.toNat_and]
    exact Nat.and_le_left
  rw [← pageOffset_toNat]
  have hnat := congrArg BitVec.toNat hsum
  rw [BitVec.toNat_add, pageOffset_toNat] at hnat
  rw [pageOffset_toNat]
  omega

/-- The address drops out of the count, and the rounded size is taken modulo 2^64. -/
theorem getPagesNr_toNat (buf len : BitVec 64) :
    (getPagesNr buf len).toNat = (buf.toNat % 4096 + len.toNat + 4095) % 2 ^ 64 / 4096 := by
  have hbase := pageBase_toNat buf
  have hsum : ((buf + len + pageSize - 1#64) - (buf &&& pageMask)).toNat =
      (buf.toNat % 4096 + len.toNat + 4095) % 2 ^ 64 := by
    generalize buf &&& pageMask = base at hbase ⊢
    unfold pageSize
    bv_omega
  rw [getPagesNr, BitVec.toNat_ushiftRight, hsum, Nat.shiftRight_eq_div_pow]

theorem getPagesNr_eq_count (buf len : BitVec 64)
    (h : buf.toNat % 4096 + len.toNat + 4095 < 2 ^ 64) :
    (getPagesNr buf len).toNat = Pages.count 4096 buf.toNat len.toNat := by
  rw [getPagesNr_toNat, Nat.mod_eq_of_lt h, Pages.count]
  rfl

/-! ## One round of the loop -/

def sgOffset (addr : BitVec 64) : BitVec 32 := (addr &&& ~~~pageMask).truncate 32

def sgBytes (addr count : BitVec 64) : BitVec 32 :=
  let size : BitVec 32 := (pageSize - (sgOffset addr).zeroExtend 64).truncate 32
  if size < count.truncate 32 then size else count.truncate 32

/-- `host_addr` and `count` after `i` rounds. -/
def sgVars (addr count : BitVec 64) : Nat → BitVec 64 × BitVec 64
  | 0 => (addr, count)
  | i + 1 =>
    let (a, c) := sgVars addr count i
    (a + (sgBytes a c).zeroExtend 64, c - (sgBytes a c).zeroExtend 64)

/-- What round `i` gives to `sg_set_page`. -/
def sgEntry (pages : Int → Ptr) (addr count : BitVec 64) (i : Nat) : SgPage :=
  let (a, c) := sgVars addr count i
  ⟨pages i, sgBytes a c, sgOffset a⟩

theorem fillSg_sgVars (pages : Int → Ptr) (addr count : BitVec 64) (i n : Nat) :
    fillSg pages (sgVars addr count i).1 (sgVars addr count i).2 i n =
      (List.range' i n).map (sgEntry pages addr count) := by
  induction n generalizing i with
  | zero => rfl
  | succ n ih =>
      rw [List.range'_succ, List.map_cons, ← ih (i + 1)]
      rfl

theorem fillSg_eq_map (pages : Int → Ptr) (addr count : BitVec 64) (n : Nat) :
    fillSg pages addr count 0 n = (List.range n).map (sgEntry pages addr count) := by
  rw [List.range_eq_range', ← fillSg_sgVars]
  rfl

theorem sgOffset_toNat (addr : BitVec 64) : (sgOffset addr).toNat = addr.toNat % 4096 := by
  rw [sgOffset, BitVec.truncate_eq_setWidth, BitVec.toNat_setWidth, pageOffset_toNat]
  omega

/-- A round takes no more than the end of the page leaves, nor than the low 32 bits of
what is left of the size. -/
theorem sgBytes_toNat (addr count : BitVec 64) :
    (sgBytes addr count).toNat = Pages.piece 4096 addr.toNat (count.toNat % 2 ^ 32) := by
  have hoff := sgOffset_toNat addr
  have hsize : ((pageSize - (sgOffset addr).zeroExtend 64).truncate 32 : BitVec 32).toNat =
      4096 - addr.toNat % 4096 := by
    have hmod := Nat.mod_lt addr.toNat (show 0 < 4096 by omega)
    generalize sgOffset addr = off at hoff ⊢
    unfold pageSize
    simp only [BitVec.truncate_eq_setWidth, BitVec.toNat_setWidth, BitVec.toNat_sub,
      BitVec.toNat_ofNat]
    omega
  have hcount : (count.truncate 32 : BitVec 32).toNat = count.toNat % 2 ^ 32 := by
    rw [BitVec.truncate_eq_setWidth, BitVec.toNat_setWidth]
  unfold sgBytes Pages.piece
  simp only [BitVec.lt_def, hsize, hcount]
  split
  · rw [hsize]
    omega
  · rw [hcount]
    omega

/-! ## The remaining size -/

def sgLength (sgl : List SgPage) : Nat := (sgl.map fun e => e.length.toNat).sum

section

variable (pages : Int → Ptr) (addr count : BitVec 64)

theorem sgBytes_le (i : Nat) :
    (sgBytes (sgVars addr count i).1 (sgVars addr count i).2).toNat ≤
      (sgVars addr count i).2.toNat % 2 ^ 32 := by
  rw [sgBytes_toNat]
  exact Nat.min_le_right _ _

theorem sgVars_succ_count (i : Nat) :
    (sgVars addr count (i + 1)).2.toNat +
        (sgBytes (sgVars addr count i).1 (sgVars addr count i).2).toNat =
      (sgVars addr count i).2.toNat := by
  have hle := sgBytes_le addr count i
  show ((sgVars addr count i).2 -
      (sgBytes (sgVars addr count i).1 (sgVars addr count i).2).zeroExtend 64).toNat + _ = _
  generalize sgBytes (sgVars addr count i).1 (sgVars addr count i).2 = nbytes at hle ⊢
  generalize (sgVars addr count i).2 = c at hle ⊢
  have hbytes := zeroExtend_toNat nbytes
  rw [BitVec.toNat_sub_of_le (by rw [BitVec.le_def, hbytes]; omega), hbytes]
  omega

theorem sgLength_add_rest (i : Nat) :
    sgLength ((List.range i).map (sgEntry pages addr count)) +
      (sgVars addr count i).2.toNat = count.toNat := by
  induction i with
  | zero => exact Nat.zero_add _
  | succ i ih =>
      have hstep := sgVars_succ_count addr count i
      have hentry : (sgEntry pages addr count i).length =
          sgBytes (sgVars addr count i).1 (sgVars addr count i).2 := rfl
      rw [List.range_succ, List.map_append, List.map_singleton]
      simp only [sgLength, List.map_append, List.sum_append, List.map_singleton,
        List.sum_singleton] at ih ⊢
      rw [hentry]
      omega

/-- The loop never gets to the high bits of the size. -/
theorem sgVars_count_div (i : Nat) :
    (sgVars addr count i).2.toNat / 2 ^ 32 = count.toNat / 2 ^ 32 := by
  induction i with
  | zero => rfl
  | succ i ih =>
      have hle := sgBytes_le addr count i
      have hstep := sgVars_succ_count addr count i
      omega

variable {addr count}

/-- Below 2^32 the rounds go from one bound of the range to the next. -/
theorem sgVars_bound (hpos : 0 < count.toNat) (hlt : count.toNat < 2 ^ 32) {i : Nat}
    (hi : i ≤ Pages.count 4096 addr.toNat count.toNat) :
    (sgVars addr count i).1.toNat = Pages.bound 4096 addr.toNat count.toNat i % 2 ^ 64 ∧
      (sgVars addr count i).2.toNat =
        addr.toNat + count.toNat - Pages.bound 4096 addr.toNat count.toNat i := by
  induction i with
  | zero =>
      rw [Pages.bound_zero]
      refine ⟨(Nat.mod_eq_of_lt addr.isLt).symm, ?_⟩
      show count.toNat = _
      omega
  | succ i ih =>
      obtain ⟨haddr, hcount⟩ := ih (Nat.le_of_succ_le hi)
      have hlo := Pages.le_bound (P := 4096) (h := addr.toNat) (s := count.toNat) (by omega) i
      have hpiece := Pages.piece_bound (by omega) hpos (Nat.lt_of_succ_le hi)
      have hbytes : (sgBytes (sgVars addr count i).1 (sgVars addr count i).2).toNat =
          Pages.piece 4096 (Pages.bound 4096 addr.toNat count.toNat i)
            (addr.toNat + count.toNat - Pages.bound 4096 addr.toNat count.toNat i) := by
        rw [sgBytes_toNat, hcount, Nat.mod_eq_of_lt (by omega)]
        refine Pages.piece_congr ?_ _
        rw [haddr]
        omega
      have hstep := sgVars_succ_count addr count i
      constructor
      · show ((sgVars addr count i).1 +
          (sgBytes (sgVars addr count i).1 (sgVars addr count i).2).zeroExtend 64).toNat = _
        rw [BitVec.toNat_add, zeroExtend_toNat, haddr, hbytes]
        omega
      · omega

end

end EonDrv.Ioctl

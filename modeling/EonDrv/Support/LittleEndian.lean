import Mathlib.Algebra.Ring.Nat
import Mathlib.Data.List.Basic

/-!
# Little-endian bytes

A number as a string of bytes of a given length, least significant first, and a
record as the strings of its fields one after the other.
-/

namespace LittleEndian

/-- The low `n` bytes of a number. -/
def bytes : Nat → Nat → List (BitVec 8)
  | 0, _ => []
  | n + 1, v => BitVec.ofNat 8 v :: bytes n (v / 256)

/-- The number that a string of bytes spells. -/
def value : List (BitVec 8) → Nat
  | [] => 0
  | b :: rest => b.toNat + 256 * value rest

theorem bytes_succ (n v : Nat) : bytes (n + 1) v = BitVec.ofNat 8 v :: bytes n (v / 256) := rfl

theorem value_cons (b : BitVec 8) (rest : List (BitVec 8)) :
    value (b :: rest) = b.toNat + 256 * value rest := rfl

@[simp] theorem length_bytes (n v : Nat) : (bytes n v).length = n := by
  induction n generalizing v with
  | zero => rfl
  | succ n ih => rw [bytes_succ, List.length_cons, ih]

/-- The bytes of a number spell what fits of it. -/
theorem value_bytes (n v : Nat) : value (bytes n v) = v % 256 ^ n := by
  induction n generalizing v with
  | zero => exact (Nat.mod_one v).symm
  | succ n ih =>
      rw [bytes_succ, value_cons, ih, BitVec.toNat_ofNat]
      show v % 256 + _ = _
      rw [Nat.pow_succ, Nat.mul_comm (256 ^ n), Nat.mod_mul]

/-! ## Records -/

/-- A field has a width in bytes and a number. -/
abbrev Field := Nat × Nat

def pack (fields : List Field) : List (BitVec 8) := fields.flatMap fun f => bytes f.1 f.2

def offset (fields : List Field) (i : Nat) : Nat := ((fields.take i).map Prod.fst).sum

def slice {β : Type*} (bs : List β) (off len : Nat) : List β := (bs.drop off).take len

theorem pack_cons (f : Field) (rest : List Field) :
    pack (f :: rest) = bytes f.1 f.2 ++ pack rest := rfl

theorem length_pack (fields : List Field) : (pack fields).length = (fields.map Prod.fst).sum := by
  induction fields with
  | nil => rfl
  | cons f rest ih =>
      rw [pack_cons, List.length_append, length_bytes, ih, List.map_cons, List.sum_cons]

theorem slice_pack {fields : List Field} {i : Nat} {f : Field} (h : fields[i]? = some f) :
    slice (pack fields) (offset fields i) f.1 = bytes f.1 f.2 := by
  induction fields generalizing i with
  | nil => cases h
  | cons g rest ih =>
      cases i with
      | zero =>
          obtain rfl : g = f := Option.some.inj h
          show (pack (g :: rest)).take g.1 = _
          rw [pack_cons, List.take_append_of_le_length (Nat.le_of_eq (length_bytes ..).symm),
            List.take_of_length_le (Nat.le_of_eq (length_bytes ..))]
      | succ i =>
          have hoff : offset (g :: rest) (i + 1) = (bytes g.1 g.2).length + offset rest i := by
            rw [length_bytes, offset, List.take_succ_cons, List.map_cons, List.sum_cons]
            rfl
          rw [hoff, pack_cons, slice, List.drop_length_add_append]
          exact ih h

theorem value_slice_pack {fields : List Field} {i : Nat} {f : Field} (h : fields[i]? = some f) :
    value (slice (pack fields) (offset fields i) f.1) = f.2 % 256 ^ f.1 := by
  rw [slice_pack h, value_bytes]

end LittleEndian

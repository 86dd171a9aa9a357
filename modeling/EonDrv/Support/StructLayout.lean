import Mathlib.Data.List.Forall2
import EonDrv.Support.LittleEndian

/-!
# Layout of structures

The scalars of a structure at their offsets, with padding in front of a member that
needs it and behind the last one.  A layout carries the proof that its scalars follow
each other inside it, so that they can be written and read one by one.
-/

namespace StructLayout

open LittleEndian (bytes value slice)

abbrev Leaf := Nat × Nat

/-- The scalars follow each other between two offsets. -/
def Chain : Nat → List Leaf → Nat → Prop
  | lo, [], hi => lo ≤ hi
  | lo, (off, w) :: rest, hi => lo ≤ off ∧ Chain (off + w) rest hi

structure Layout where
  size : Nat
  align : Nat
  leaves : List Leaf
  chain : Chain 0 leaves size

/-! ## Building layouts -/

/-- The next multiple of the alignment. -/
def alignUp (a off : Nat) : Nat := off + (a - off % a) % a

def shift (d : Nat) (leaves : List Leaf) : List Leaf := leaves.map fun l => (d + l.1, l.2)

theorem Chain.mono {lo lo' hi hi' : Nat} {leaves : List Leaf} (h : Chain lo leaves hi)
    (hlo : lo' ≤ lo) (hhi : hi ≤ hi') : Chain lo' leaves hi' := by
  induction leaves generalizing lo lo' with
  | nil => exact Nat.le_trans hlo (Nat.le_trans h hhi)
  | cons l rest ih => exact ⟨Nat.le_trans hlo h.1, ih h.2 (Nat.le_refl _)⟩

theorem Chain.shift {lo hi : Nat} {leaves : List Leaf} (h : Chain lo leaves hi) (d : Nat) :
    Chain (d + lo) (StructLayout.shift d leaves) (d + hi) := by
  induction leaves generalizing lo with
  | nil => exact Nat.add_le_add_left h d
  | cons l rest ih =>
      refine ⟨Nat.add_le_add_left h.1 d, ?_⟩
      have htail := ih h.2
      rwa [← Nat.add_assoc] at htail

theorem Chain.append {lo mid hi : Nat} {l l' : List Leaf} (h : Chain lo l mid)
    (h' : Chain mid l' hi) : Chain lo (l ++ l') hi := by
  induction l generalizing lo with
  | nil => exact h'.mono h (Nat.le_refl hi)
  | cons x rest ih => exact ⟨h.1, ih h.2⟩

/-- Members in order from an offset on, and where they end. -/
def place : Nat → List Layout → List Leaf × Nat
  | off, [] => ([], off)
  | off, m :: ms =>
    let o := alignUp m.align off
    let r := place (o + m.size) ms
    (shift o m.leaves ++ r.1, r.2)

theorem place_chain (off : Nat) (ms : List Layout) :
    Chain off (place off ms).1 (place off ms).2 := by
  induction ms generalizing off with
  | nil => exact Nat.le_refl off
  | cons m ms ih =>
      have hmember := m.chain.shift (alignUp m.align off)
      rw [Nat.add_zero] at hmember
      have hall := hmember.append (ih (alignUp m.align off + m.size))
      exact hall.mono (Nat.le_add_right _ _) (Nat.le_refl _)

def maxAlign (ms : List Layout) : Nat := ms.foldr (fun m a => max m.align a) 1

namespace Layout

def int (n : Nat) : Layout := ⟨n, n, [(0, n)], Nat.le_refl 0, Nat.le_of_eq (Nat.zero_add n)⟩

def struct (ms : List Layout) : Layout where
  size := alignUp (maxAlign ms) (place 0 ms).2
  align := maxAlign ms
  leaves := (place 0 ms).1
  chain := (place_chain 0 ms).mono (Nat.le_refl 0) (Nat.le_add_right _ _)

/-- The size of an element is a multiple of its alignment, so that the elements need no
padding between them. -/
def array (n : Nat) (l : Layout) : Layout := struct (List.replicate n l)

end Layout

/-! ## Blocks of bytes -/

abbrev Block := List (BitVec 8)

def read (leaves : List Leaf) (blk : Block) : List Nat :=
  leaves.map fun l => value (slice blk l.1 l.2)

@[simp] theorem length_read (leaves : List Leaf) (blk : Block) :
    (read leaves blk).length = leaves.length :=
  List.length_map ..

def writeAt (blk : Block) (off : Nat) (bs : List (BitVec 8)) : Block :=
  blk.take off ++ bs ++ blk.drop (off + bs.length)

def write : List Leaf → List Nat → Block → Block
  | (off, w) :: rest, v :: vs, blk => write rest vs (writeAt blk off (bytes w v))
  | _, _, blk => blk

section

variable {blk : Block} {off : Nat} {bs : List (BitVec 8)}

theorem length_writeAt (h : off + bs.length ≤ blk.length) :
    (writeAt blk off bs).length = blk.length := by
  rw [writeAt, List.length_append, List.length_append, List.length_take, List.length_drop]
  omega

theorem getElem?_writeAt (h : off + bs.length ≤ blk.length) (i : Nat) :
    (writeAt blk off bs)[i]? =
      if off ≤ i ∧ i < off + bs.length then bs[i - off]? else blk[i]? := by
  have hlen : (blk.take off).length = off := by
    rw [List.length_take]
    omega
  rw [writeAt, List.append_assoc]
  by_cases hlo : i < off
  · rw [List.getElem?_append_left (by omega), List.getElem?_take, if_pos hlo, if_neg (by omega)]
  · rw [List.getElem?_append_right (by omega), hlen]
    by_cases hhi : i < off + bs.length
    · rw [List.getElem?_append_left (by omega), if_pos (by omega)]
    · rw [List.getElem?_append_right (by omega), List.getElem?_drop, if_neg (by omega)]
      congr 1
      omega

theorem getElem?_slice (bs : List (BitVec 8)) (off len i : Nat) :
    (slice bs off len)[i]? = if i < len then bs[off + i]? else none := by
  rw [slice, List.getElem?_take, List.getElem?_drop]

theorem slice_congr {blk blk' : Block} {off len : Nat}
    (h : ∀ i, off ≤ i → i < off + len → blk[i]? = blk'[i]?) :
    slice blk off len = slice blk' off len := by
  apply List.ext_getElem?
  intro i
  rw [getElem?_slice, getElem?_slice]
  split
  · exact h (off + i) (by omega) (by omega)
  · rfl

theorem slice_writeAt (h : off + bs.length ≤ blk.length) :
    slice (writeAt blk off bs) off bs.length = bs := by
  apply List.ext_getElem?
  intro i
  rw [getElem?_slice, getElem?_writeAt h]
  by_cases hi : i < bs.length
  · rw [if_pos hi, if_pos (by omega), Nat.add_sub_cancel_left]
  · rw [if_neg hi, List.getElem?_eq_none (Nat.not_lt.mp hi)]

end

/-! ## Numbers -/

def Fits (leaves : List Leaf) (vals : List Nat) : Prop :=
  List.Forall₂ (fun l v => v < 256 ^ l.2) leaves vals

theorem toNat_lt_pow {w n : Nat} (x : BitVec w) (hw : w = 8 * n) : x.toNat < 256 ^ n := by
  have hpow : 2 ^ w = 256 ^ n := by
    rw [hw, Nat.pow_mul]
  rw [← hpow]
  exact x.isLt

theorem Fits.flatMap_pair {α : Type*} {f g : α → Leaf} {v w : α → Nat}
    (hf : ∀ x, v x < 256 ^ (f x).2) (hg : ∀ x, w x < 256 ^ (g x).2) (l : List α) :
    Fits (l.flatMap fun x => [f x, g x]) (l.flatMap fun x => [v x, w x]) := by
  induction l with
  | nil => exact .nil
  | cons x rest ih => exact .cons (hf x) (.cons (hg x) ih)

section

variable {leaves : List Leaf} {lo hi : Nat}

theorem Chain.le (h : Chain lo leaves hi) : lo ≤ hi := by
  induction leaves generalizing lo with
  | nil => exact h
  | cons l rest ih => exact Nat.le_trans h.1 (Nat.le_trans (Nat.le_add_right _ _) (ih h.2))

/-- A byte that is in no scalar is kept. -/
theorem getElem?_write (h : Chain lo leaves hi) (vals : List Nat) {blk : Block}
    (hlen : hi ≤ blk.length) {i : Nat} (hi' : ∀ l ∈ leaves, i < l.1 ∨ l.1 + l.2 ≤ i) :
    (write leaves vals blk)[i]? = blk[i]? := by
  induction leaves generalizing lo vals blk with
  | nil => rfl
  | cons l rest ih =>
      cases vals with
      | nil => rfl
      | cons v vs =>
          have hfit : l.1 + (bytes l.2 v).length ≤ blk.length := by
            rw [LittleEndian.length_bytes]
            exact Nat.le_trans h.2.le hlen
          have hout := hi' l List.mem_cons_self
          show (write rest vs (writeAt blk l.1 (bytes l.2 v)))[i]? = _
          rw [ih h.2 vs (by rw [length_writeAt hfit]; exact hlen)
            fun l' hl' => hi' l' (List.mem_cons_of_mem _ hl'), getElem?_writeAt hfit,
            LittleEndian.length_bytes, if_neg (by omega)]

theorem Chain.lower (h : Chain lo leaves hi) {l : Leaf} (hl : l ∈ leaves) : lo ≤ l.1 := by
  induction leaves generalizing lo with
  | nil => cases hl
  | cons x rest ih =>
      rcases List.mem_cons.mp hl with rfl | hl
      · exact h.1
      · exact Nat.le_trans h.1 (Nat.le_trans (Nat.le_add_right _ _) (ih h.2 hl))

theorem Chain.upper (h : Chain lo leaves hi) {l : Leaf} (hl : l ∈ leaves) : l.1 + l.2 ≤ hi := by
  induction leaves generalizing lo with
  | nil => cases hl
  | cons x rest ih =>
      rcases List.mem_cons.mp hl with rfl | hl
      · exact h.2.le
      · exact ih h.2 hl

/-- What was written is read, in the width of each scalar. -/
theorem read_write (h : Chain lo leaves hi) {vals : List Nat}
    (hvals : vals.length = leaves.length) {blk : Block} (hlen : hi ≤ blk.length) :
    read leaves (write leaves vals blk) =
      List.zipWith (fun l v => v % 256 ^ l.2) leaves vals := by
  induction leaves generalizing lo vals blk with
  | nil => rfl
  | cons l rest ih =>
      cases vals with
      | nil => cases hvals
      | cons v vs =>
          have hfit : l.1 + (bytes l.2 v).length ≤ blk.length := by
            rw [LittleEndian.length_bytes]
            exact Nat.le_trans h.2.le hlen
          have hlen' : hi ≤ (writeAt blk l.1 (bytes l.2 v)).length := by
            rw [length_writeAt hfit]
            exact hlen
          have hfirst : slice (write rest vs (writeAt blk l.1 (bytes l.2 v))) l.1 l.2 =
              bytes l.2 v := by
            have hself := slice_writeAt hfit
            rw [LittleEndian.length_bytes] at hself
            refine Eq.trans (slice_congr fun i _ hhi => ?_) hself
            exact getElem?_write h.2 vs hlen' fun l' hl' =>
              Or.inl (Nat.lt_of_lt_of_le hhi (h.2.lower hl'))
          show value (slice (write rest vs (writeAt blk l.1 (bytes l.2 v))) l.1 l.2) ::
            read rest (write rest vs _) = _
          rw [hfirst, LittleEndian.value_bytes, ih h.2 (Nat.succ.inj hvals) hlen']
          rfl

theorem read_write_of_fits (h : Chain lo leaves hi) {vals : List Nat} (hvals : Fits leaves vals)
    {blk : Block} (hlen : hi ≤ blk.length) : read leaves (write leaves vals blk) = vals := by
  rw [read_write h (List.Forall₂.length_eq hvals).symm hlen]
  clear h
  induction hvals with
  | nil => rfl
  | cons hfit _ ih => rw [List.zipWith_cons_cons, ih, Nat.mod_eq_of_lt hfit]

theorem read_writeAt (h : Chain lo leaves hi) {blk : Block} (hlen : hi ≤ blk.length) {i : Nat}
    {l : Leaf} (hl : leaves[i]? = some l) (v : Nat) :
    read leaves (writeAt blk l.1 (bytes l.2 v)) = (read leaves blk).set i (v % 256 ^ l.2) := by
  induction leaves generalizing lo i with
  | nil => cases hl
  | cons x rest ih =>
      cases i with
      | zero =>
          obtain rfl : x = l := Option.some.inj hl
          have hfit : x.1 + (bytes x.2 v).length ≤ blk.length := by
            rw [LittleEndian.length_bytes]
            exact Nat.le_trans h.2.le hlen
          have hself := slice_writeAt hfit
          rw [LittleEndian.length_bytes] at hself
          have hrest : read rest (writeAt blk x.1 (bytes x.2 v)) = read rest blk := by
            refine List.map_congr_left fun l' hl' => congrArg value (slice_congr fun j hj _ => ?_)
            have hafter := h.2.lower hl'
            rw [getElem?_writeAt hfit, LittleEndian.length_bytes, if_neg (by omega)]
          show value (slice (writeAt blk x.1 (bytes x.2 v)) x.1 x.2) :: read rest _ = _
          rw [hself, LittleEndian.value_bytes, hrest]
          rfl
      | succ i =>
          have hmem := List.mem_of_getElem? (show rest[i]? = some l from hl)
          have hfit : l.1 + (bytes l.2 v).length ≤ blk.length := by
            rw [LittleEndian.length_bytes]
            exact Nat.le_trans (h.2.upper hmem) hlen
          have hfirst : slice (writeAt blk l.1 (bytes l.2 v)) x.1 x.2 = slice blk x.1 x.2 := by
            refine slice_congr fun j _ hj => ?_
            have hbefore := h.2.lower hmem
            rw [getElem?_writeAt hfit, if_neg (by omega)]
          show value (slice (writeAt blk l.1 (bytes l.2 v)) x.1 x.2) :: read rest _ = _
          rw [hfirst, ih h.2 hl]
          rfl

end

end StructLayout

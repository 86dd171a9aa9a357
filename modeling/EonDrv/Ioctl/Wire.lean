import EonDrv.Ioctl.Codes
import EonDrv.Support.StructLayout
import EonDrv.Window.Atomic

/-!
# The argument blocks as bytes

What the two commands read from and write back to the memory of the caller, byte by
byte, with the layout that the compiler gives the two structures.
-/

namespace EonDrv.Ioctl

open LittleEndian (bytes value)
open StructLayout (Layout Block read write writeAt toNat_lt_pow)

/-! ## Layouts -/

def regAddrDataLayout : Layout := .struct [.int 8, .int 4]

def regInfosLayout : Layout :=
  .struct [.int 1, .int 1, .array regOperationMaxNum regAddrDataLayout]

def hdmaMemArgsLayout : Layout :=
  .struct [.int 8, .int 8, .int 8, .int 8, .int 4, .int 4, .int 4, regInfosLayout,
    .array 4 (.int 4)]

def dpuRegArgsLayout : Layout := .struct [.int 8, .int 4, .int 1, .array 4 (.int 4)]

def iowr (type nr size : Nat) : BitVec 32 :=
  BitVec.ofNat 32 (3 <<< 30 ||| size <<< 16 ||| type <<< 8 ||| nr)

theorem eonIoctlHdma_eq : eonIoctlHdma = iowr 0x53 3 hdmaMemArgsLayout.size := by decide

theorem eonIoctlIatu_eq : eonIoctlIatu = iowr 0x53 4 dpuRegArgsLayout.size := by decide

/-! ## Blocks -/

def reservedScalars (r : Fin 4 → BitVec 32) : List Nat :=
  [(r 0).toNat, (r 1).toNat, (r 2).toNat, (r 3).toNat]

/-- The scalars of a block in order. -/
def regScalars (a : DpuRegArgs) (reserved : Fin 4 → BitVec 32) : List Nat :=
  [a.regAddr.toNat, a.regData.toNat, a.rwFlag.toNat] ++ reservedScalars reserved

def hdmaScalars (a : HdmaMemArgs) (reserved : Fin 4 → BitVec 32) : List Nat :=
  [a.hostAddr.toNat, a.deviceAddr.toNat, a.memSize.toNat, a.descAddr.toNat, a.hdmaId.toNat,
    a.op.toNat, a.enable.toNat, a.regs.regOperation.toNat, a.regs.num.toNat] ++
  ((List.finRange regOperationMaxNum).flatMap fun k =>
    [(a.regs.writeData k).regAddr.toNat, (a.regs.writeData k).regData.toNat]) ++
  reservedScalars reserved

/-- The block of a caller; `pad` is what it held, padding included. -/
def encodeReg (a : DpuRegArgs) (reserved : Fin 4 → BitVec 32) (pad : Block) : Block :=
  write dpuRegArgsLayout.leaves (regScalars a reserved) pad

def encodeHdma (a : HdmaMemArgs) (reserved : Fin 4 → BitVec 32) (pad : Block) : Block :=
  write hdmaMemArgsLayout.leaves (hdmaScalars a reserved) pad

def regOfScalars (v : List Nat) : DpuRegArgs where
  regAddr := BitVec.ofNat 64 (v.getD 0 0)
  regData := BitVec.ofNat 32 (v.getD 1 0)
  rwFlag := BitVec.ofNat 8 (v.getD 2 0)

def hdmaOfScalars (v : List Nat) : HdmaMemArgs where
  hostAddr := BitVec.ofNat 64 (v.getD 0 0)
  deviceAddr := BitVec.ofNat 64 (v.getD 1 0)
  memSize := BitVec.ofNat 64 (v.getD 2 0)
  descAddr := BitVec.ofNat 64 (v.getD 3 0)
  hdmaId := BitVec.ofNat 32 (v.getD 4 0)
  op := BitVec.ofNat 32 (v.getD 5 0)
  enable := BitVec.ofNat 32 (v.getD 6 0)
  regs :=
    { regOperation := BitVec.ofNat 8 (v.getD 7 0)
      num := BitVec.ofNat 8 (v.getD 8 0)
      writeData := fun k =>
        ⟨BitVec.ofNat 64 (v.getD (9 + 2 * k) 0), BitVec.ofNat 32 (v.getD (10 + 2 * k) 0)⟩ }

def decodeReg (blk : Block) : DpuRegArgs := regOfScalars (read dpuRegArgsLayout.leaves blk)

def decodeHdma (blk : Block) : HdmaMemArgs := hdmaOfScalars (read hdmaMemArgsLayout.leaves blk)

example : (regAddrDataLayout.size, regInfosLayout.size, hdmaMemArgsLayout.size,
    dpuRegArgsLayout.size) = (16, 264, 328, 32) := by decide

theorem dpuRegArgsLayout_leaves : dpuRegArgsLayout.leaves =
    [(0, 8), (8, 4), (12, 1)] ++ [(16, 4), (20, 4), (24, 4), (28, 4)] := by
  decide

theorem hdmaMemArgsLayout_leaves : hdmaMemArgsLayout.leaves =
    [(0, 8), (8, 8), (16, 8), (24, 8), (32, 4), (36, 4), (40, 4), (48, 1), (49, 1)] ++
    ((List.finRange regOperationMaxNum).flatMap fun k =>
      [(56 + 16 * k.val, 8), (64 + 16 * k.val, 4)]) ++
    [(312, 4), (316, 4), (320, 4), (324, 4)] := by
  decide

/-! ## Round trip -/

theorem getElem?_flatMap_pair {α β : Type*} (f g : α → β) (l : List α) (i : Nat) :
    (l.flatMap fun x => [f x, g x])[2 * i]? = l[i]?.map f ∧
      (l.flatMap fun x => [f x, g x])[2 * i + 1]? = l[i]?.map g := by
  induction l generalizing i with
  | nil => exact ⟨rfl, rfl⟩
  | cons x rest ih =>
      cases i with
      | zero => exact ⟨rfl, rfl⟩
      | succ i => exact ih i

theorem reserved_fits {a b c d : Nat} (r : Fin 4 → BitVec 32) :
    StructLayout.Fits [(a, 4), (b, 4), (c, 4), (d, 4)] (reservedScalars r) :=
  .cons (toNat_lt_pow (r 0) rfl) (.cons (toNat_lt_pow (r 1) rfl)
    (.cons (toNat_lt_pow (r 2) rfl) (.cons (toNat_lt_pow (r 3) rfl) .nil)))

theorem regScalars_fits (a : DpuRegArgs) (reserved : Fin 4 → BitVec 32) :
    StructLayout.Fits dpuRegArgsLayout.leaves (regScalars a reserved) := by
  rw [dpuRegArgsLayout_leaves]
  exact .cons (toNat_lt_pow a.regAddr rfl) (.cons (toNat_lt_pow a.regData rfl)
    (.cons (toNat_lt_pow a.rwFlag rfl) (reserved_fits reserved)))

theorem hdmaScalars_fits (a : HdmaMemArgs) (reserved : Fin 4 → BitVec 32) :
    StructLayout.Fits hdmaMemArgsLayout.leaves (hdmaScalars a reserved) := by
  rw [hdmaMemArgsLayout_leaves]
  refine List.rel_append (List.rel_append ?_ ?_) (reserved_fits reserved)
  · exact .cons (toNat_lt_pow a.hostAddr rfl) (.cons (toNat_lt_pow a.deviceAddr rfl)
      (.cons (toNat_lt_pow a.memSize rfl) (.cons (toNat_lt_pow a.descAddr rfl)
      (.cons (toNat_lt_pow a.hdmaId rfl) (.cons (toNat_lt_pow a.op rfl)
      (.cons (toNat_lt_pow a.enable rfl) (.cons (toNat_lt_pow a.regs.regOperation rfl)
      (.cons (toNat_lt_pow a.regs.num rfl) .nil))))))))
  · exact StructLayout.Fits.flatMap_pair (fun k => toNat_lt_pow (a.regs.writeData k).regAddr rfl)
      (fun k => toNat_lt_pow (a.regs.writeData k).regData rfl) _

theorem regOfScalars_regScalars (a : DpuRegArgs) (reserved : Fin 4 → BitVec 32) :
    regOfScalars (regScalars a reserved) = a := by
  show DpuRegArgs.mk (BitVec.ofNat 64 a.regAddr.toNat) (BitVec.ofNat 32 a.regData.toNat)
    (BitVec.ofNat 8 a.rwFlag.toNat) = a
  simp only [BitVec.ofNat_toNat, BitVec.setWidth_eq]

theorem hdmaScalars_write (a : HdmaMemArgs) (reserved : Fin 4 → BitVec 32)
    (k : Fin regOperationMaxNum) :
    (hdmaScalars a reserved).getD (9 + 2 * k) 0 = (a.regs.writeData k).regAddr.toNat ∧
      (hdmaScalars a reserved).getD (10 + 2 * k) 0 = (a.regs.writeData k).regData.toNat := by
  have hpair := getElem?_flatMap_pair (fun k => (a.regs.writeData k).regAddr.toNat)
    (fun k => (a.regs.writeData k).regData.toNat) (List.finRange regOperationMaxNum) k.val
  have hk : (List.finRange regOperationMaxNum)[k.val]? = some k := by
    rw [List.getElem?_eq_getElem (by rw [List.length_finRange]; exact k.isLt),
      List.getElem_finRange]
    rfl
  rw [hk] at hpair
  have hskip : ∀ {i v : Nat}, ((List.finRange regOperationMaxNum).flatMap fun k =>
      [(a.regs.writeData k).regAddr.toNat, (a.regs.writeData k).regData.toNat])[i]? = some v →
      (hdmaScalars a reserved).getD (9 + i) 0 = v := by
    intro i v h
    have hdrop : (hdmaScalars a reserved)[i + 9]? =
        (((List.finRange regOperationMaxNum).flatMap fun k =>
          [(a.regs.writeData k).regAddr.toNat, (a.regs.writeData k).regData.toNat]) ++
            reservedScalars reserved)[i]? := by
      rw [hdmaScalars, List.append_assoc]
      rfl
    rw [List.getD_eq_getElem?_getD, Nat.add_comm, hdrop,
      List.getElem?_append_left (List.getElem?_eq_some_iff.mp h).1, h]
    rfl
  refine ⟨hskip hpair.1, ?_⟩
  rw [show 10 + 2 * k.val = 9 + (2 * k.val + 1) by omega]
  exact hskip hpair.2

theorem hdmaOfScalars_hdmaScalars (a : HdmaMemArgs) (reserved : Fin 4 → BitVec 32) :
    hdmaOfScalars (hdmaScalars a reserved) = a := by
  have hwrites : (fun k : Fin regOperationMaxNum => RegAddrData.mk
      (BitVec.ofNat 64 ((hdmaScalars a reserved).getD (9 + 2 * k) 0))
      (BitVec.ofNat 32 ((hdmaScalars a reserved).getD (10 + 2 * k) 0))) = a.regs.writeData := by
    funext k
    obtain ⟨haddr, hdata⟩ := hdmaScalars_write a reserved k
    rw [haddr, hdata, BitVec.ofNat_toNat, BitVec.ofNat_toNat, BitVec.setWidth_eq,
      BitVec.setWidth_eq]
  rw [hdmaOfScalars, hwrites]
  show HdmaMemArgs.mk (BitVec.ofNat 64 a.hostAddr.toNat) (BitVec.ofNat 64 a.deviceAddr.toNat)
    (BitVec.ofNat 64 a.memSize.toNat) (BitVec.ofNat 64 a.descAddr.toNat)
    (BitVec.ofNat 32 a.hdmaId.toNat) (BitVec.ofNat 32 a.op.toNat)
    (BitVec.ofNat 32 a.enable.toNat)
    ⟨BitVec.ofNat 8 a.regs.regOperation.toNat, BitVec.ofNat 8 a.regs.num.toNat,
      a.regs.writeData⟩ = a
  simp only [BitVec.ofNat_toNat, BitVec.setWidth_eq]

/-- What a caller lays out is what the driver reads, whatever the reserved words and the
padding hold. -/
theorem decode_encode (reserved : Fin 4 → BitVec 32) (pad : Block) :
    (pad.length = dpuRegArgsLayout.size →
      ∀ a : DpuRegArgs, decodeReg (encodeReg a reserved pad) = a) ∧
    (pad.length = hdmaMemArgsLayout.size →
      ∀ a : HdmaMemArgs, decodeHdma (encodeHdma a reserved pad) = a) := by
  refine ⟨fun hpad a => ?_, fun hpad a => ?_⟩
  · rw [decodeReg, encodeReg, StructLayout.read_write_of_fits dpuRegArgsLayout.chain
      (regScalars_fits a reserved) (Nat.le_of_eq hpad.symm), regOfScalars_regScalars]
  · rw [decodeHdma, encodeHdma, StructLayout.read_write_of_fits hdmaMemArgsLayout.chain
      (hdmaScalars_fits a reserved) (Nat.le_of_eq hpad.symm), hdmaOfScalars_hdmaScalars]

theorem decode_encode_ones :
    decodeReg (encodeReg ⟨0x40000010#64, 7#32, regRead⟩ (fun _ => 9#32)
        (List.replicate 32 0xff#8)) = ⟨0x40000010#64, 7#32, regRead⟩ ∧
      decodeHdma (encodeHdma readPage (fun _ => 9#32) (List.replicate 328 0xff#8)) =
        readPage := by
  refine ⟨(decode_encode _ _).1 ?_ _, (decode_encode _ _).2 ?_ _⟩
  · rw [List.length_replicate]
    decide
  · rw [List.length_replicate]
    decide

/-! ## Calls -/

abbrev UserMem := Nat → BitVec 8

def argBlock (n : Nat) (mem : UserMem) : Block := (List.range n).map mem

/-- `copy_from_user` of `n` bytes pads what it could not copy with zeros. -/
def copyFromUser (n left : Nat) (mem : UserMem) : Block :=
  argBlock n fun i => if i < n - left then mem i else 0#8

def copyToUser (left : Nat) (blk : Block) (mem : UserMem) : UserMem :=
  fun i => if i < blk.length - left then blk.getD i 0#8 else mem i

structure Copies where
  fromUser : Nat
  toUser : Nat

def Copies.kernel (c : Copies) (k : Kernel) : Kernel :=
  { k with copyFromUser := decide (c.fromUser ≠ 0), copyToUser := decide (c.toUser ≠ 0) }

/-- The assignment to `reg_data`. -/
def readBack (a : DpuRegArgs) (v : BitVec 32) : Option (BitVec 32) :=
  (Window.Access.mk .eonRwReg a).readBack v

def setRegData (blk : Block) : Option (BitVec 32) → Block
  | some d => writeAt blk 8 (bytes 4 d.toNat)
  | none => blk

/-- The copy back. -/
def writeBack (c : Copies) (cmd : BitVec 32) (ret : Int) (blk : Block) (back : UserMem) :
    Int × UserMem :=
  if ret = 0 ∧ cmd &&& iocOut ≠ 0#32 then
    (if c.toUser ≠ 0 then -3 else ret, copyToUser c.toUser blk back)
  else (ret, back)

namespace Bytes

/-- What `kmalloc` returned holds `stale`, and `back` is the memory of the caller when
the block is written back. -/
def eonHdma (k : Kernel) (c : Copies) (st : Stages) (cmd : BitVec 32)
    (stale user back : UserMem) : Int × UserMem :=
  if k.kmallocArgs = 0#64 then (-1, back)
  else
    let hdmaArgs :=
      if cmd &&& iocIn ≠ 0#32 then copyFromUser hdmaMemArgsLayout.size c.fromUser user
      else argBlock hdmaMemArgsLayout.size stale
    if cmd &&& iocIn ≠ 0#32 ∧ c.fromUser ≠ 0 then (-2, back)
    else
      let args := decodeHdma hdmaArgs
      if h : args.hdmaId.toNat < maxHdmaNumber then
        writeBack c cmd (hdmaOp st args ⟨args.hdmaId.toNat, h⟩).val hdmaArgs back
      else (-1, back)

/-- The device answers `v` to a read. -/
def eonRwReg (k : Kernel) (c : Copies) (cmd : BitVec 32) (v : BitVec 32)
    (stale user back : UserMem) : Int × UserMem :=
  if k.kmallocArgs = 0#64 then (-1, back)
  else
    let regsArgs :=
      if cmd &&& iocIn ≠ 0#32 then copyFromUser dpuRegArgsLayout.size c.fromUser user
      else argBlock dpuRegArgsLayout.size stale
    if cmd &&& iocIn ≠ 0#32 ∧ c.fromUser ≠ 0 then (-2, back)
    else
      let args := decodeReg regsArgs
      if regAddrAccepted args.regAddr then
        writeBack c cmd 0 (setRegData regsArgs (readBack args v)) back
      else (-1, back)

def deviceIoctl (k : Kernel) (c : Copies) (st : Stages) (cmd v : BitVec 32)
    (stale user back : UserMem) : Int × UserMem :=
  if cmd = eonIoctlHdma then eonHdma k c st cmd stale user back
  else if cmd = eonIoctlIatu then eonRwReg k c cmd v stale user back
  else (-enotty, back)

end Bytes

/-! ## What a call returns and writes back -/

/-- The block that a call writes back: `reg_data` of a read, and otherwise what the
caller had there. -/
def answer (cmd v : BitVec 32) (user : UserMem) : UserMem := fun i =>
  if cmd = eonIoctlIatu ∧ 8 ≤ i ∧ i < 12 then
    match readBack (decodeReg (argBlock dpuRegArgsLayout.size user)) v with
    | some d => (bytes 4 d.toNat).getD (i - 8) 0#8
    | none => user i
  else user i

def argSize (cmd : BitVec 32) : Nat :=
  if cmd = eonIoctlHdma then hdmaMemArgsLayout.size
  else if cmd = eonIoctlIatu then dpuRegArgsLayout.size
  else 0

/-- `back` with the first `m` bytes of `ans` over it. -/
def overlay (m : Nat) (ans back : UserMem) : UserMem := fun i => if i < m then ans i else back i

/-- The call wrote back `m` bytes: all of them when it succeeds, and some when the copy
back is what failed. -/
structure WritesBack (size : Nat) (ans back : UserMem) (r : Int × UserMem) (m : Nat) : Prop where
  mem : r.2 = overlay m ans back
  le : m ≤ size
  all : r.1 = 0 → m = size
  some : m ≠ 0 → r.1 = 0 ∨ r.1 = -3

theorem copyFromUser_zero (n : Nat) (mem : UserMem) : copyFromUser n 0 mem = argBlock n mem :=
  List.map_congr_left fun _ hi => if_pos (List.mem_range.mp hi)

theorem length_argBlock (n : Nat) (mem : UserMem) : (argBlock n mem).length = n := by
  rw [argBlock, List.length_map, List.length_range]

theorem argBlock_overlay (n : Nat) (ans back : UserMem) :
    argBlock n (overlay n ans back) = argBlock n ans :=
  List.map_congr_left fun _ hi => if_pos (List.mem_range.mp hi)

theorem getElem?_argBlock (n : Nat) (mem : UserMem) (i : Nat) :
    (argBlock n mem)[i]? = if i < n then some (mem i) else none := by
  rw [argBlock, List.getElem?_map]
  split
  · rename_i hi
    rw [List.getElem?_range hi]
    rfl
  · rename_i hi
    rw [List.getElem?_eq_none (by rw [List.length_range]; omega)]
    rfl

theorem writesBack_none {size : Nat} {ret : Int} {ans back : UserMem} (hret : ret ≠ 0) :
    WritesBack size ans back (ret, back) 0 where
  mem := rfl
  le := Nat.zero_le _
  all h := absurd h hret
  some h := absurd rfl h

theorem writesBack_copyToUser (n left : Nat) (ans back : UserMem) :
    WritesBack n ans back (if left ≠ 0 then -3 else 0, copyToUser left (argBlock n ans) back)
      (n - left) where
  mem := by
    funext i
    show (if i < (argBlock n ans).length - left then _ else _) = if i < n - left then _ else _
    rw [length_argBlock]
    split
    · rw [List.getD_eq_getElem?_getD, getElem?_argBlock, if_pos (by omega)]
      rfl
    · rfl
  le := Nat.sub_le n left
  all h := by
    by_cases hleft : left = 0
    · rw [hleft, Nat.sub_zero]
    · rw [if_pos hleft] at h
      cases h
  some _ := by
    by_cases hleft : left = 0
    · exact Or.inl (if_neg (not_not.mpr hleft))
    · exact Or.inr (if_pos hleft)

/-- The copy back returns what the code of the request says, and writes no other byte. -/
theorem writeBack_spec (k : Kernel) (c : Copies) {cmd : BitVec 32}
    (hcmd : cmd &&& iocOut ≠ 0#32) (ret : Int) (n : Nat) (ans back : UserMem) :
    (writeBack c cmd ret (argBlock n ans) back).1 = copyOut (c.kernel k) cmd ret ∧
      ∃ m, WritesBack n ans back (writeBack c cmd ret (argBlock n ans) back) m := by
  unfold writeBack copyOut
  by_cases hret : ret = 0
  · subst hret
    rw [if_pos ⟨rfl, hcmd⟩]
    refine ⟨?_, n - c.toUser, writesBack_copyToUser ..⟩
    by_cases hleft : c.toUser = 0
    · have hcopy : ¬ (c.kernel k).copyToUser = true := by
        rw [show (c.kernel k).copyToUser = decide (c.toUser ≠ 0) from rfl, hleft]
        decide
      rw [if_neg (not_not.mpr hleft), if_neg fun h => hcopy h.2.2]
    · rw [if_pos hleft, if_pos ⟨rfl, hcmd, decide_eq_true hleft⟩]
  · rw [if_neg fun h => hret h.1, if_neg fun h => hret h.1]
    exact ⟨rfl, 0, writesBack_none hret⟩

theorem setRegData_argBlock (v : BitVec 32) (user : UserMem) :
    setRegData (argBlock dpuRegArgsLayout.size user)
        (readBack (decodeReg (argBlock dpuRegArgsLayout.size user)) v) =
      argBlock dpuRegArgsLayout.size (answer eonIoctlIatu v user) := by
  have hsize : dpuRegArgsLayout.size = 32 := by decide
  apply List.ext_getElem?
  intro i
  rw [getElem?_argBlock]
  unfold answer
  cases hread : readBack (decodeReg (argBlock dpuRegArgsLayout.size user)) v with
  | none =>
      show (argBlock _ user)[i]? = _
      rw [getElem?_argBlock]
      simp only [ite_self]
  | some d =>
      have hfit : 8 + (bytes 4 d.toNat).length ≤ (argBlock dpuRegArgsLayout.size user).length := by
        rw [length_argBlock, LittleEndian.length_bytes, hsize]
        omega
      show (writeAt _ 8 (bytes 4 d.toNat))[i]? = _
      rw [StructLayout.getElem?_writeAt hfit, LittleEndian.length_bytes, getElem?_argBlock, hsize]
      by_cases hin : 8 ≤ i ∧ i < 8 + 4
      · have hlt : i - 8 < (bytes 4 d.toNat).length := by
          rw [LittleEndian.length_bytes]
          omega
        rw [if_pos hin, if_pos (by omega), if_pos ⟨rfl, hin⟩, List.getElem?_eq_getElem hlt]
        exact congrArg some (List.getD_eq_getElem _ _ hlt).symm
      · rw [if_neg hin]
        exact congrArg (fun b => if i < 32 then some b else none) (if_neg fun h => hin h.2).symm

theorem regOfScalars_set (vals : List Nat) (d : BitVec 32) (h : 1 < vals.length) :
    regOfScalars (vals.set 1 d.toNat) = { regOfScalars vals with regData := d } := by
  have hother : ∀ i, i ≠ 1 → (vals.set 1 d.toNat).getD i 0 = vals.getD i 0 := by
    intro i hi
    rw [List.getD_eq_getElem?_getD, List.getElem?_set_ne hi.symm, List.getD_eq_getElem?_getD]
  have hself : (vals.set 1 d.toNat).getD 1 0 = d.toNat := by
    rw [List.getD_eq_getElem?_getD, List.getElem?_set_self h]
    rfl
  rw [regOfScalars, hself, hother 0 (by decide), hother 2 (by decide), BitVec.ofNat_toNat,
    BitVec.setWidth_eq]
  rfl

theorem decodeReg_answer (v : BitVec 32) (user : UserMem) :
    let args := decodeReg (argBlock dpuRegArgsLayout.size user)
    decodeReg (argBlock dpuRegArgsLayout.size (answer eonIoctlIatu v user)) =
      { args with regData := (readBack args v).getD args.regData } := by
  intro args
  rw [← setRegData_argBlock]
  show decodeReg (setRegData _ (readBack args v)) = _
  cases readBack args v with
  | none => rfl
  | some d =>
      have hread := StructLayout.read_writeAt (i := 1) dpuRegArgsLayout.chain
        (Nat.le_of_eq (length_argBlock dpuRegArgsLayout.size user).symm)
        (show dpuRegArgsLayout.leaves[1]? = some (8, 4) by rw [dpuRegArgsLayout_leaves]; rfl)
        d.toNat
      show regOfScalars (read _ (writeAt _ 8 (bytes 4 d.toNat))) = _
      rw [hread, Nat.mod_eq_of_lt (toNat_lt_pow d rfl)]
      exact regOfScalars_set _ d (by rw [StructLayout.length_read, dpuRegArgsLayout_leaves]; decide)

section

variable (k : Kernel) (c : Copies) (st : Stages) (v : BitVec 32) (stale user back : UserMem)

theorem answer_hdma : answer eonIoctlHdma v user = user := by
  funext i
  exact if_neg fun h => absurd h.1 (by decide)

theorem eonHdma_bytes :
    let r := Bytes.eonHdma k c st eonIoctlHdma stale user back
    r.1 = (eonHdma (c.kernel k) st eonIoctlHdma
        (decodeHdma (argBlock hdmaMemArgsLayout.size user))).val ∧
      ∃ m, WritesBack hdmaMemArgsLayout.size user back r m := by
  intro r
  have hin : eonIoctlHdma &&& iocIn ≠ 0#32 := by decide
  have hout : eonIoctlHdma &&& iocOut ≠ 0#32 := by decide
  have hpath := eonHdma_path (c.kernel k) st
    (decodeHdma (argBlock hdmaMemArgsLayout.size user))
  generalize (eonHdma (c.kernel k) st eonIoctlHdma _).val = val at hpath ⊢
  generalize (eonHdma (c.kernel k) st eonIoctlHdma _).trace = tr at hpath
  cases hpath with
  | noBlock hp =>
      have hr : r = (-1, back) := if_pos hp
      rw [hr]
      exact ⟨rfl, 0, writesBack_none (by decide)⟩
  | noCopy hp hc =>
      have hleft : c.fromUser ≠ 0 := of_decide_eq_true hc
      have hr : r = (-2, back) := (if_neg hp).trans (if_pos ⟨hin, hleft⟩)
      rw [hr]
      exact ⟨rfl, 0, writesBack_none (by decide)⟩
  | badIndex hp hc hi =>
      have hleft : c.fromUser = 0 := not_not.mp (of_decide_eq_false hc)
      have hr : r = (-1, back) := by
        refine (if_neg hp).trans ((if_neg fun h => h.2 hleft).trans ?_)
        rw [if_pos hin, hleft, copyFromUser_zero]
        exact dif_neg (Nat.not_lt.mpr hi)
      rw [hr]
      exact ⟨rfl, 0, writesBack_none (by decide)⟩
  | op hp hc n hi =>
      have hleft : c.fromUser = 0 := not_not.mp (of_decide_eq_false hc)
      have hlt := n.isLt
      rw [hi] at hlt
      obtain rfl : n = ⟨_, hlt⟩ := Fin.ext hi
      have hr : r = writeBack c eonIoctlHdma
          (hdmaOp st (decodeHdma (argBlock hdmaMemArgsLayout.size user)) ⟨_, hlt⟩).val
          (argBlock hdmaMemArgsLayout.size user) back := by
        refine (if_neg hp).trans ((if_neg fun h => h.2 hleft).trans ?_)
        simp only [if_pos hin, hleft, copyFromUser_zero]
        exact dif_pos hlt
      rw [hr]
      exact writeBack_spec k c hout _ _ _ _

theorem eonRwReg_val (args : DpuRegArgs) : (eonRwReg k eonIoctlIatu args).val =
    if k.kmallocArgs = 0#64 then -1
    else if k.copyFromUser then -2
    else if regAddrAccepted args.regAddr then copyOut k eonIoctlIatu 0
    else -1 := by
  have hin : eonIoctlIatu &&& iocIn ≠ 0#32 := by decide
  by_cases hp : k.kmallocArgs = 0#64
  · simp [eonRwReg, kmalloc, alloc, hp]
  by_cases hc : k.copyFromUser = true
  · simp [eonRwReg, kmalloc, kfree, alloc, free, hp, hc, hin]
  by_cases haddr : regAddrAccepted args.regAddr = true
  · simp [eonRwReg, kmalloc, kfree, alloc, free, hp, hc, haddr]
  · simp [eonRwReg, kmalloc, alloc, hp, hc, haddr]

theorem eonRwReg_bytes :
    let r := Bytes.eonRwReg k c eonIoctlIatu v stale user back
    r.1 = (eonRwReg (c.kernel k) eonIoctlIatu
        (decodeReg (argBlock dpuRegArgsLayout.size user))).val ∧
      ∃ m, WritesBack dpuRegArgsLayout.size (answer eonIoctlIatu v user) back r m := by
  intro r
  have hin : eonIoctlIatu &&& iocIn ≠ 0#32 := by decide
  have hout : eonIoctlIatu &&& iocOut ≠ 0#32 := by decide
  rw [eonRwReg_val, show (c.kernel k).kmallocArgs = k.kmallocArgs from rfl]
  by_cases hp : k.kmallocArgs = 0#64
  · have hr : r = (-1, back) := if_pos hp
    rw [hr, if_pos hp]
    exact ⟨rfl, 0, writesBack_none (by decide)⟩
  rw [if_neg hp]
  by_cases hleft : c.fromUser = 0
  case neg =>
    have hr : r = (-2, back) := (if_neg hp).trans (if_pos ⟨hin, hleft⟩)
    have hcopy : (c.kernel k).copyFromUser = true := decide_eq_true hleft
    rw [hr, if_pos hcopy]
    exact ⟨rfl, 0, writesBack_none (by decide)⟩
  have hcopy : ¬ (c.kernel k).copyFromUser = true := fun h => of_decide_eq_true h hleft
  rw [if_neg hcopy]
  have hr : r =
      if regAddrAccepted (decodeReg (argBlock dpuRegArgsLayout.size user)).regAddr then
        writeBack c eonIoctlIatu 0 (setRegData (argBlock dpuRegArgsLayout.size user)
          (readBack (decodeReg (argBlock dpuRegArgsLayout.size user)) v)) back
      else (-1, back) := by
    refine (if_neg hp).trans ((if_neg fun h => h.2 hleft).trans ?_)
    simp only [if_pos hin, hleft, copyFromUser_zero]
  rw [hr]
  split
  · rw [setRegData_argBlock]
    exact writeBack_spec k c hout _ _ _ _
  · exact ⟨rfl, 0, writesBack_none (by decide)⟩

/-- Neither what a call returns nor what it writes back depends on what the allocated
block held.  The code is that of the arguments the caller laid out, and the bytes written
back are the caller's own but for `reg_data` of a register read. -/
structure BytesSafe (cmd : BitVec 32) (r : Int × UserMem) : Prop where
  stale : ∀ stale, Bytes.deviceIoctl k c st cmd v stale user back = r
  code : r.1 = (deviceIoctl (c.kernel k) st cmd
    (decodeHdma (argBlock hdmaMemArgsLayout.size user))
    (decodeReg (argBlock dpuRegArgsLayout.size user))).val
  writes : ∃ m, WritesBack (argSize cmd) (answer cmd v user) back r m
  register : cmd = eonIoctlIatu → r.1 = 0 →
    decodeReg (argBlock dpuRegArgsLayout.size r.2) =
      { decodeReg (argBlock dpuRegArgsLayout.size user) with
        regData := (readBack (decodeReg (argBlock dpuRegArgsLayout.size user)) v).getD
          (decodeReg (argBlock dpuRegArgsLayout.size user)).regData }

theorem deviceIoctl_bytes (cmd : BitVec 32) :
    BytesSafe k c st v user back cmd (Bytes.deviceIoctl k c st cmd v stale user back) := by
  have hne : eonIoctlIatu ≠ eonIoctlHdma := by decide
  by_cases hhdma : cmd = eonIoctlHdma
  · subst hhdma
    obtain ⟨hval, hwrites⟩ := eonHdma_bytes k c st stale user back
    have hr : Bytes.deviceIoctl k c st eonIoctlHdma v stale user back =
        Bytes.eonHdma k c st eonIoctlHdma stale user back := if_pos rfl
    rw [hr]
    refine ⟨fun stale' => ?_, ?_, ?_, fun h => absurd h.symm hne⟩
    · rw [Bytes.deviceIoctl, if_pos rfl]
      rfl
    · rw [deviceIoctl, if_pos rfl]
      exact hval
    · rw [argSize, if_pos rfl, answer_hdma]
      exact hwrites
  by_cases hiatu : cmd = eonIoctlIatu
  · subst hiatu
    obtain ⟨hval, m, hwrites⟩ := eonRwReg_bytes k c v stale user back
    have hr : Bytes.deviceIoctl k c st eonIoctlIatu v stale user back =
        Bytes.eonRwReg k c eonIoctlIatu v stale user back := (if_neg hhdma).trans (if_pos rfl)
    rw [hr]
    refine ⟨fun stale' => ?_, ?_, ⟨m, ?_⟩, fun _ hzero => ?_⟩
    · rw [Bytes.deviceIoctl, if_neg hhdma, if_pos rfl]
      rfl
    · rw [deviceIoctl, if_neg hhdma, if_pos rfl]
      exact hval
    · rw [argSize, if_neg hhdma, if_pos rfl]
      exact hwrites
    · rw [hwrites.mem, hwrites.all hzero, argBlock_overlay]
      exact decodeReg_answer v user
  · have hr : ∀ stale, Bytes.deviceIoctl k c st cmd v stale user back = (-enotty, back) :=
      fun _ => (if_neg hhdma).trans (if_neg hiatu)
    rw [hr]
    refine ⟨hr, ?_, ⟨0, writesBack_none (by decide)⟩, fun h => absurd h hiatu⟩
    rw [deviceIoctl, if_neg hhdma, if_neg hiatu]
    rfl

end

end EonDrv.Ioctl

import EonDrv.Driver.Registers
import EonDrv.Support.RegisterFile

/-!
# Address translation regions

The iATU registers behind `bar[ATU_HDMA_BAR]` and the functions of `iatu.c` that
program a region.  Registers are named by their offset in the BAR, where the
channel registers lie below the iATU block.
-/

namespace EonDrv
namespace Window

open RegisterFile (Holds)

def configBarIndex : BitVec 8 := 2
def descBar : BitVec 8 := 4
def iramBaseSocAddr : BitVec 64 := 0x48000000

inductive IatuDir
  | outbound
  | inbound
  deriving DecidableEq

inductive IatuReg
  | regionCtrl1
  | regionCtrl2
  | lwrTargetAddr
  | upperTargetAddr
  deriving DecidableEq

def iatuBaseOffset : Nat := 0x9000
def iatuIndexOffset : Nat := 0x200

def IatuDir.offset : IatuDir → Nat
  | .outbound => 0
  | .inbound => 0x100

def IatuReg.offset : IatuReg → Nat
  | .regionCtrl1 => 0x0
  | .regionCtrl2 => 0x4
  | .lwrTargetAddr => 0x14
  | .upperTargetAddr => 0x18

/-- The `IATU_*` macros. -/
def iatuOff (dir : IatuDir) (n : Nat) (r : IatuReg) : Nat :=
  iatuBaseOffset + n * iatuIndexOffset + dir.offset + r.offset

/-- The body that the two map functions share.  A region larger than 16M is
refused without a write. -/
def iatuMapBar (dir : IatuDir) (barIndex : BitVec 8) (atuIndex : Nat) (addr size : BitVec 64) :
    List (Nat × BitVec 32) :=
  if 0x1000000#64 < size then []
  else
    [(iatuOff dir atuIndex .lwrTargetAddr, low32 addr),
      (iatuOff dir atuIndex .upperTargetAddr, high32 addr),
      (iatuOff dir atuIndex .regionCtrl1, low32 (size &&& 0x1ffffff#64)),
      (iatuOff dir atuIndex .regionCtrl2, 0xc0000000#32 ||| (barIndex.zeroExtend 32 <<< 8))]

def iatuMapOutboundBar : BitVec 8 → Nat → BitVec 64 → BitVec 64 → List (Nat × BitVec 32) :=
  iatuMapBar .outbound

def iatuMapInboundBar : BitVec 8 → Nat → BitVec 64 → BitVec 64 → List (Nat × BitVec 32) :=
  iatuMapBar .inbound

/-- The writes of `iatu_config`, the last of `eon_probe` to the iATU. -/
def iatuConfig : List (Nat × BitVec 32) :=
  iatuMapInboundBar descBar 0 iramBaseSocAddr 0x80000 ++
    iatuMapOutboundBar descBar 0 iramBaseSocAddr 0x80000

/-- The writes that move both regions 1 to a new window. -/
def remapWrites (mapAddr : BitVec 64) : List (Nat × BitVec 32) :=
  iatuMapInboundBar configBarIndex 1 mapAddr configBarSize ++
    iatuMapOutboundBar configBarIndex 1 mapAddr configBarSize

def target (regs : Nat → BitVec 32) (dir : IatuDir) (n : Nat) : BitVec 64 :=
  regs (iatuOff dir n .upperTargetAddr) ++ regs (iatuOff dir n .lwrTargetAddr)

theorem target_of_holds {regs : Nat → BitVec 32} {ws : List (Nat × BitVec 32)}
    (h : Holds regs ws) {dir : IatuDir} {n : Nat} {addr : BitVec 64}
    (hlow : (iatuOff dir n .lwrTargetAddr, low32 addr) ∈ ws)
    (hhigh : (iatuOff dir n .upperTargetAddr, high32 addr) ∈ ws) : target regs dir n = addr := by
  have hl := h _ hlow
  have hh := h _ hhigh
  unfold target
  rw [hl, hh]
  exact high32_append_low32 addr

theorem target_of_remap {regs : Nat → BitVec 32} {mapAddr : BitVec 64}
    (h : Holds regs (remapWrites mapAddr)) (dir : IatuDir) : target regs dir 1 = mapAddr := by
  have hsize : ¬ (0x1000000#64 < configBarSize) := by decide
  cases dir with
  | inbound =>
      refine target_of_holds h ?_ ?_
      · simp [remapWrites, iatuMapInboundBar, iatuMapBar, hsize]
      · simp [remapWrites, iatuMapInboundBar, iatuMapBar, hsize]
  | outbound =>
      refine target_of_holds h ?_ ?_
      · simp [remapWrites, iatuMapOutboundBar, iatuMapBar, hsize]
      · simp [remapWrites, iatuMapOutboundBar, iatuMapBar, hsize]

theorem remapWrites_keys (mapAddr : BitVec 64) :
    (remapWrites mapAddr).map Prod.fst =
      [0x9314, 0x9318, 0x9300, 0x9304, 0x9214, 0x9218, 0x9200, 0x9204] := rfl

theorem remapWrites_nodup (mapAddr : BitVec 64) :
    ((remapWrites mapAddr).map Prod.fst).Nodup := by
  rw [remapWrites_keys]
  decide

theorem remapWrites_region {mapAddr : BitVec 64} {w : Nat × BitVec 32}
    (h : w ∈ remapWrites mapAddr) : 0x9200 ≤ w.1 := by
  have hkey : w.1 ∈ (remapWrites mapAddr).map Prod.fst := List.mem_map_of_mem h
  rw [remapWrites_keys] at hkey
  revert hkey
  generalize w.1 = k
  intro hkey
  simp only [List.mem_cons, List.not_mem_nil, or_false] at hkey
  omega

theorem iatuConfig_keys : iatuConfig.map Prod.fst =
    [0x9114, 0x9118, 0x9100, 0x9104, 0x9014, 0x9018, 0x9000, 0x9004] := rfl

end Window
end EonDrv

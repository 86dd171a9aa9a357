import EonDrv.Driver.Registers
import EonDrv.Support.LittleEndian

/-!
# Message signalled interrupts

`pci_msi_setup` reads the message of the device from its MSI capability, in either of
the two layouts that a capability has, and `hdma_msi_interrupt` gives it to a channel.
-/

namespace EonDrv

open LittleEndian (Field pack offset slice value)

/-! ## The capability in configuration space -/

def pciMsiFlags : Nat := 2
def pciMsiAddressLo : Nat := 4
def pciMsiAddressHi : Nat := 8
def pciMsiData32 : Nat := 8
def pciMsiData64 : Nat := 12
def pciMsiFlags64bit : BitVec 16 := 0x80#16

abbrev ConfigSpace := Nat → BitVec 8

def configBytes (cfg : ConfigSpace) (off len : Nat) : List (BitVec 8) :=
  (List.range len).map fun b => cfg (off + b)

def pciReadConfigWord (cfg : ConfigSpace) (off : Nat) : BitVec 16 :=
  BitVec.ofNat 16 (value (configBytes cfg off 2))

def pciReadConfigDword (cfg : ConfigSpace) (off : Nat) : BitVec 32 :=
  BitVec.ofNat 32 (value (configBytes cfg off 4))

/-- What `pci_msi_setup` stores in `base_addr`. -/
structure MsiInfo where
  msiAddrL : BitVec 32
  msiAddrH : BitVec 32
  msgData : BitVec 16

/-- `msiCap` is the offset of the capability. -/
def pciMsiSetup (cfg : ConfigSpace) (msiCap : Nat) : MsiInfo :=
  let msgCtl := pciReadConfigWord cfg (msiCap + pciMsiFlags)
  let offset := if msgCtl &&& pciMsiFlags64bit ≠ 0#16 then pciMsiData64 else pciMsiData32
  let data := pciReadConfigWord cfg (msiCap + offset)
  let pciMsiAddrLo := pciReadConfigDword cfg (msiCap + pciMsiAddressLo)
  let pciMsiAddrHi :=
    if msgCtl &&& pciMsiFlags64bit ≠ 0#16 then pciReadConfigDword cfg (msiCap + pciMsiAddressHi)
    else 0#32
  ⟨pciMsiAddrLo, pciMsiAddrHi, data⟩

/-- A capability that is programmed with a message.  Without the 64-bit flag it has no
room for the upper half of the address. -/
structure MsiCapability where
  header : BitVec 16
  flags : BitVec 16
  address : BitVec 64
  data : BitVec 16
  narrow : flags &&& pciMsiFlags64bit = 0#16 → high32 address = 0#32

def MsiCapability.fields (c : MsiCapability) : List Field :=
  if c.flags &&& pciMsiFlags64bit ≠ 0#16 then
    [(2, c.header.toNat), (2, c.flags.toNat), (4, (low32 c.address).toNat),
      (4, (high32 c.address).toNat), (2, c.data.toNat)]
  else
    [(2, c.header.toNat), (2, c.flags.toNat), (4, (low32 c.address).toNat), (2, c.data.toNat)]

def MsiCapability.At (c : MsiCapability) (cfg : ConfigSpace) (msiCap : Nat) : Prop :=
  configBytes cfg msiCap (pack c.fields).length = pack c.fields

theorem slice_configBytes {cfg : ConfigSpace} {base len off n : Nat} (h : off + n ≤ len) :
    slice (configBytes cfg base len) off n = configBytes cfg (base + off) n := by
  apply List.ext_getElem
  · rw [slice, configBytes, configBytes, List.length_take, List.length_drop, List.length_map,
      List.length_map, List.length_range, List.length_range]
    omega
  · intro i hi hi'
    simp only [slice, configBytes, List.getElem_take, List.getElem_drop, List.getElem_map,
      List.getElem_range]
    rw [Nat.add_assoc]

theorem MsiCapability.At.read {c : MsiCapability} {cfg : ConfigSpace} {msiCap : Nat}
    (h : c.At cfg msiCap) {i : Nat} {f : Field} (hf : c.fields[i]? = some f) :
    value (configBytes cfg (msiCap + offset c.fields i) f.1) = f.2 % 256 ^ f.1 := by
  have hend : offset c.fields i + f.1 ≤ (pack c.fields).length := by
    have hslice := congrArg List.length (LittleEndian.slice_pack hf)
    rw [slice, List.length_take, List.length_drop, LittleEndian.length_bytes] at hslice
    have hle : offset c.fields i ≤ (pack c.fields).length := by
      rw [LittleEndian.length_pack, offset, List.map_take]
      exact List.Sublist.sum_le_sum (List.take_sublist _ _) (fun _ _ => Nat.zero_le _)
    omega
  rw [← LittleEndian.value_slice_pack hf, ← h, slice_configBytes hend]

theorem ofNat_toNat_mod {w n : Nat} (v : BitVec w) (h : 2 ^ w = 256 ^ n) :
    BitVec.ofNat w (v.toNat % 256 ^ n) = v := by
  rw [← h, Nat.mod_eq_of_lt v.isLt, BitVec.ofNat_toNat, BitVec.setWidth_eq]

/-- In both layouts the message of the capability is what `pci_msi_setup` stores. -/
theorem pciMsiSetup_at {c : MsiCapability} {cfg : ConfigSpace} {msiCap : Nat}
    (h : c.At cfg msiCap) :
    pciMsiSetup cfg msiCap = ⟨low32 c.address, high32 c.address, c.data⟩ := by
  by_cases hwide : c.flags &&& pciMsiFlags64bit ≠ 0#16
  · have hfields : c.fields = [(2, c.header.toNat), (2, c.flags.toNat),
        (4, (low32 c.address).toNat), (4, (high32 c.address).toNat), (2, c.data.toNat)] :=
      if_pos hwide
    have hread := @MsiCapability.At.read c cfg msiCap h
    rw [hfields] at hread
    have hflags : pciReadConfigWord cfg (msiCap + pciMsiFlags) = c.flags :=
      (congrArg (BitVec.ofNat 16) (hread (i := 1) rfl)).trans (ofNat_toNat_mod _ rfl)
    have hlow : pciReadConfigDword cfg (msiCap + pciMsiAddressLo) = low32 c.address :=
      (congrArg (BitVec.ofNat 32) (hread (i := 2) rfl)).trans (ofNat_toNat_mod _ rfl)
    have hhigh : pciReadConfigDword cfg (msiCap + pciMsiAddressHi) = high32 c.address :=
      (congrArg (BitVec.ofNat 32) (hread (i := 3) rfl)).trans (ofNat_toNat_mod _ rfl)
    have hdata : pciReadConfigWord cfg (msiCap + pciMsiData64) = c.data :=
      (congrArg (BitVec.ofNat 16) (hread (i := 4) rfl)).trans (ofNat_toNat_mod _ rfl)
    simp only [pciMsiSetup, hflags, if_pos hwide, hlow, hhigh, hdata]
  · have hfields : c.fields = [(2, c.header.toNat), (2, c.flags.toNat),
        (4, (low32 c.address).toNat), (2, c.data.toNat)] := if_neg hwide
    have hread := @MsiCapability.At.read c cfg msiCap h
    rw [hfields] at hread
    have hflags : pciReadConfigWord cfg (msiCap + pciMsiFlags) = c.flags :=
      (congrArg (BitVec.ofNat 16) (hread (i := 1) rfl)).trans (ofNat_toNat_mod _ rfl)
    have hlow : pciReadConfigDword cfg (msiCap + pciMsiAddressLo) = low32 c.address :=
      (congrArg (BitVec.ofNat 32) (hread (i := 2) rfl)).trans (ofNat_toNat_mod _ rfl)
    have hdata : pciReadConfigWord cfg (msiCap + pciMsiData32) = c.data :=
      (congrArg (BitVec.ofNat 16) (hread (i := 3) rfl)).trans (ofNat_toNat_mod _ rfl)
    simp only [pciMsiSetup, hflags, if_neg hwide, hlow, hdata, c.narrow (not_not.mp hwide)]

/-! ## Channel registers -/

def hdmaEnable : List (HdmaReg × BitVec 32) := [(.en, 1#32)]

def hdmaMsiInterrupt (msiAddrH msiAddrL : BitVec 32) (msgData : BitVec 16) :
    List (HdmaReg × BitVec 32) :=
  [(.msiStopLow, msiAddrL), (.msiStopHigh, msiAddrH), (.msiAbortLow, msiAddrL),
    (.msiAbortHigh, msiAddrH), (.msiWatermarkLow, msiAddrL), (.msiWatermarkHigh, msiAddrH),
    (.msiMsgd, msgData.zeroExtend 32)]

end EonDrv

import EonDrv.Driver.Msi
import EonDrv.Machine.Doorbell

/-!
# What `eon_probe` programs

The register writes of a successful `eon_probe`, and what is left of them in the runs
that follow: the contexts stay enabled, each sends the message of the device when it
stops, aborts or passes its watermark, and its descriptor buffer stays mapped.
-/

namespace EonDrv
namespace Machine

open Completion (HdmaRequest)
open RegisterFile (Holds store storeAll)
open Window (iatuConfig iatuConfig_region)

/-! ## The writes of `eon_probe` -/

/-- `hdma_enable` and `hdma_msi_interrupt` of a context. -/
def channelSetup (info : MsiInfo) : List (HdmaReg × BitVec 32) :=
  hdmaEnable ++ hdmaMsiInterrupt info.msiAddrH info.msiAddrL info.msgData

def setupWrites (info : MsiInfo) (ch : Chan) : List (Nat × BitVec 32) :=
  (channelSetup info).map fun w => (hdmaRegOff ch w.1, w.2)

/-- The two loops over `hdmar` and `hdmaw`. -/
def probeChans : List Chan :=
  (List.finRange maxHdmaNumber).map (Chan.mk .rd) ++
    (List.finRange maxHdmaNumber).map (Chan.mk .wr)

/-- `iatu_config`, and then the contexts. -/
def probeWrites (info : MsiInfo) : List (Nat × BitVec 32) :=
  iatuConfig ++ probeChans.flatMap (setupWrites info)

def probedRegs (info : MsiInfo) (regs : Nat → BitVec 32) : Nat → BitVec 32 :=
  storeAll regs (probeWrites info)

/-- Where the message of an event goes. -/
structure Wired (info : MsiInfo) (regs : HdmaReg → BitVec 32) : Prop where
  enabled : regs .en = 1#32
  stop : regs .msiStopHigh ++ regs .msiStopLow = info.msiAddrH ++ info.msiAddrL
  abort : regs .msiAbortHigh ++ regs .msiAbortLow = info.msiAddrH ++ info.msiAddrL
  watermark : regs .msiWatermarkHigh ++ regs .msiWatermarkLow = info.msiAddrH ++ info.msiAddrL
  data : regs .msiMsgd = info.msgData.zeroExtend 32

theorem mem_probeChans (ch : Chan) : ch ∈ probeChans := by
  obtain ⟨t, i⟩ := ch
  rw [probeChans, List.mem_append, List.mem_map, List.mem_map]
  cases t
  · exact Or.inl ⟨i, List.mem_finRange i, rfl⟩
  · exact Or.inr ⟨i, List.mem_finRange i, rfl⟩

theorem probeChans_nodup : probeChans.Nodup := by decide

theorem channelSetup_nodup (info : MsiInfo) : ((channelSetup info).map Prod.fst).Nodup := by
  show [HdmaReg.en, .msiStopLow, .msiStopHigh, .msiAbortLow, .msiAbortHigh, .msiWatermarkLow,
    .msiWatermarkHigh, .msiMsgd].Nodup
  decide

theorem setupWrites_keys (info : MsiInfo) (ch : Chan) :
    (setupWrites info ch).map Prod.fst =
      ((channelSetup info).map Prod.fst).map (hdmaRegOff ch) := by
  rw [setupWrites, List.map_map, List.map_map]
  rfl

theorem probeWrites_nodup (info : MsiInfo) : ((probeWrites info).map Prod.fst).Nodup := by
  rw [probeWrites, List.map_append, List.map_flatMap, List.nodup_append]
  refine ⟨?_, ?_, ?_⟩
  · rw [Window.iatuConfig_keys]
    decide
  · refine List.nodup_flatMap.mpr ⟨fun ch _ => ?_, probeChans_nodup.imp fun {ch ch'} hne => ?_⟩
    · rw [setupWrites_keys]
      exact (channelSetup_nodup info).map fun _ _ h => (hdmaRegOff_injective h).2
    · intro off hoff hoff'
      simp only [setupWrites_keys] at hoff hoff'
      obtain ⟨r, _, rfl⟩ := List.mem_map.mp hoff
      obtain ⟨r', _, heq⟩ := List.mem_map.mp hoff'
      exact hne (hdmaRegOff_injective heq).1.symm
  · intro off hoff off' hoff' heq
    subst heq
    obtain ⟨w, hw, rfl⟩ := List.mem_map.mp hoff
    obtain ⟨ch, _, hch⟩ := List.mem_flatMap.mp hoff'
    rw [setupWrites_keys] at hch
    obtain ⟨r, _, heq⟩ := List.mem_map.mp hch
    have hlt := hdmaRegOff_lt ch r
    have hge := (iatuConfig_region hw).1
    omega

section

variable {info : MsiInfo} {regs : Nat → BitVec 32}

theorem holds_probedRegs (info : MsiInfo) (regs : Nat → BitVec 32) :
    Holds (probedRegs info regs) (probeWrites info) :=
  RegisterFile.holds_storeAll (probeWrites_nodup info)

/-- The initial states of the driver over these registers have what `eon_probe` left,
in its own order. -/
theorem storeAll_probedRegs : storeAll (probedRegs info regs) iatuConfig = probedRegs info regs :=
  RegisterFile.storeAll_of_holds fun w hw =>
    holds_probedRegs info regs w (List.mem_append_left _ hw)

theorem holds_setupWrites (ch : Chan) : Holds (probedRegs info regs) (setupWrites info ch) := by
  intro w hw
  refine holds_probedRegs info regs w (List.mem_append_right _ ?_)
  exact List.mem_flatMap.mpr ⟨ch, mem_probeChans ch, hw⟩

theorem wired_of_holds {ch : Chan} (h : Holds regs (setupWrites info ch)) :
    Wired info (block regs ch) := by
  have hread : ∀ {r : HdmaReg} {v : BitVec 32}, (r, v) ∈ channelSetup info →
      block regs ch r = v := by
    intro r v hmem
    exact h (hdmaRegOff ch r, v) (List.mem_map.mpr ⟨_, hmem, rfl⟩)
  have hw : channelSetup info = [(.en, 1#32), (.msiStopLow, info.msiAddrL),
      (.msiStopHigh, info.msiAddrH), (.msiAbortLow, info.msiAddrL),
      (.msiAbortHigh, info.msiAddrH), (.msiWatermarkLow, info.msiAddrL),
      (.msiWatermarkHigh, info.msiAddrH), (.msiMsgd, info.msgData.zeroExtend 32)] := rfl
  rw [hw] at hread
  refine ⟨hread (by simp), ?_, ?_, ?_, hread (by simp)⟩
  · rw [hread (v := info.msiAddrH) (by simp), hread (v := info.msiAddrL) (by simp)]
  · rw [hread (v := info.msiAddrH) (by simp), hread (v := info.msiAddrL) (by simp)]
  · rw [hread (v := info.msiAddrH) (by simp), hread (v := info.msiAddrL) (by simp)]

end

/-! ## The runs that follow -/

section

variable {reqs : Nat → HdmaRequest} {regArgs : Nat → DpuRegArgs} {info : MsiInfo}
  {regs : Nat → BitVec 32}

/-- No statement of the driver writes a register that `eon_probe` has set up. -/
theorem channelWrite_not_setup {c : Completion.State} {a : Completion.Action} {ch : Chan}
    {reg : HdmaReg} {val : BitVec 32} (h : channelWrite reqs c a = some (ch, reg, val)) :
    reg ∉ (channelSetup info).map Prod.fst := by
  show reg ∉ [HdmaReg.en, .msiStopLow, .msiStopHigh, .msiAbortLow, .msiAbortHigh,
    .msiWatermarkLow, .msiWatermarkHigh, .msiMsgd]
  unfold channelWrite at h
  cases a with
  | request r =>
      simp only at h
      split at h
      · rename_i st k hpc
        obtain ⟨w, hw, heq⟩ := Option.map_eq_some_iff.mp h
        simp only [Prod.mk.injEq] at heq
        have hmem : reg ∈ ((reqs r).writes st).map Prod.fst := by
          rw [← show w.1 = reg from congrArg Prod.fst heq.2]
          exact List.mem_map_of_mem (List.mem_of_getElem? hw)
        revert hmem
        cases st
        · show reg ∈ [HdmaReg.elemPf, .cycleOff, .control1, .intSetup, .xferSize, .sarLow,
            .sarHigh, .darLow, .darHigh] → _
          cases reg <;> decide
        · show reg ∈ [HdmaReg.elemPf, .cycleOff, .control1, .intSetup, .llpLow, .llpHigh] → _
          cases reg <;> decide
      · split at h
        · simp only [Option.some.injEq, Prod.mk.injEq] at h
          rw [← h.2.1]
          decide
        · cases h
      · cases h
  | thread =>
      simp only at h
      split at h
      · simp only [Option.some.injEq, Prod.mk.injEq] at h
        rw [← h.2.1]
        decide
      · cases h
  | _ => cases h

theorem mem_setupWrites_keys {ch : Chan} {off : Nat}
    (h : off ∈ (setupWrites info ch).map Prod.fst) :
    ∃ reg ∈ (channelSetup info).map Prod.fst, hdmaRegOff ch reg = off := by
  rw [setupWrites_keys] at h
  exact List.mem_map.mp h

theorem holds_setup_of_reachable {s : State}
    (h : (system reqs regArgs (probedRegs info regs)).Reachable s) (ch : Chan) :
    Holds s.win.regs (setupWrites info ch) := by
  refine StepSystem.Reachable.invariant
    (I := fun s => Holds s.win.regs (setupWrites info ch)) ?_ ?_ h
  · intro s (hi : Initial reqs regArgs (probedRegs info regs) s)
    rw [hi.win.regs, storeAll_probedRegs]
    exact holds_setupWrites ch
  · intro s a t hs (hst : step reqs regArgs s a = some t)
    cases a with
    | comp a =>
        obtain ⟨-, -, hwin⟩ := step_comp hst
        rw [hwin]
        cases hwrite : channelWrite reqs s.comp a with
        | none => exact hs
        | some p =>
            refine Holds.store hs fun hmem => ?_
            obtain ⟨reg, hreg, hoff⟩ := mem_setupWrites_keys hmem
            rw [(hdmaRegOff_injective hoff).2] at hreg
            exact channelWrite_not_setup (show channelWrite reqs s.comp a =
              some (p.1, p.2.1, p.2.2) from hwrite) hreg
    | access i v =>
        obtain ⟨-, -, hwin⟩ := step_access hst
        have hfires := Window.fires_of_step hwin
        revert hfires
        generalize t.win = w
        intro hfires
        cases hfires with
        | write hpc hw =>
            refine Holds.store hs fun hmem => ?_
            obtain ⟨reg, _, hoff⟩ := mem_setupWrites_keys hmem
            have hlt := hdmaRegOff_lt ch reg
            have hge := Window.remapWrites_region (List.mem_of_getElem? hw)
            omega
        | _ => exact hs

theorem holds_probeWrites_of_reachable {s : State}
    (h : (system reqs regArgs (probedRegs info regs)).Reachable s) :
    Holds s.win.regs (probeWrites info) := by
  have hcoherent := Window.coherent_of_reachable (win_reachable h)
  intro w hw
  rcases List.mem_append.mp hw with hiatu | hsetup
  · obtain ⟨hge, hlt⟩ := iatuConfig_region hiatu
    rw [hcoherent.region0 w.1 hge hlt, storeAll_probedRegs]
    exact holds_probedRegs info regs w hw
  · obtain ⟨ch, -, hch⟩ := List.mem_flatMap.mp hsetup
    exact holds_setup_of_reachable h ch w hch

/-! ## Descriptor buffers -/

structure BarInfo where
  paddr : BitVec 64
  vaddr : BitVec 64

structure HdmaDescPhyBuf where
  phyAddr : BitVec 64
  virtAddr : BitVec 64
  startPointerAddr : BitVec 64
  size : BitVec 64

def hdmaDescSocOffsetAddr : BitVec 64 := 0x10000#64

/-- `desc_buf` as `hdma_init` fills it from `bar[DESC_BAR]`. -/
def hdmaInitDescBuf (bar : BarInfo) (channel : BitVec 32) : HdmaDescPhyBuf where
  phyAddr := bar.paddr + hdmaDescSocOffsetAddr + (channel * 0x1000#32).zeroExtend 64
  virtAddr := bar.vaddr + hdmaDescSocOffsetAddr + (channel * 0x1000#32).zeroExtend 64
  startPointerAddr :=
    Window.iramBaseSocAddr + hdmaDescSocOffsetAddr + (channel * 0x1000#32).zeroExtend 64
  size := 0x1000#64

/-- A CPU access at a byte of the buffer reaches the SoC byte that the pointer of the
buffer names, through region 0 and inside its 512 KiB. -/
structure DescBufMapped (regs : Nat → BitVec 32) (bar : BarInfo) (buf : HdmaDescPhyBuf) :
    Prop where
  inside : ∀ o : BitVec 64, o < buf.size → buf.virtAddr + o - bar.vaddr < 0x80000#64
  reaches : ∀ o : BitVec 64, o < buf.size →
    Window.target regs .inbound 0 + (buf.virtAddr + o - bar.vaddr) = buf.startPointerAddr + o
  physical : buf.phyAddr - bar.paddr = buf.virtAddr - bar.vaddr

theorem add_sub_self (v x : BitVec 64) : v + x - v = x := by
  rw [BitVec.add_comm, BitVec.add_sub_cancel]

theorem descBufMapped_of_target {regs : Nat → BitVec 32} (bar : BarInfo) (i : Fin maxHdmaNumber)
    (h : Window.target regs .inbound 0 = Window.iramBaseSocAddr) :
    DescBufMapped regs bar (hdmaInitDescBuf bar (BitVec.ofNat 32 i)) := by
  have hi : i.val < 16 := i.isLt
  have hchannel : ((BitVec.ofNat 32 i * 0x1000#32).zeroExtend 64 : BitVec 64).toNat < 0x10000 := by
    rw [BitVec.zeroExtend_eq_setWidth, BitVec.toNat_setWidth, BitVec.toNat_mul,
      BitVec.toNat_ofNat, BitVec.toNat_ofNat]
    omega
  generalize hc : ((BitVec.ofNat 32 i * 0x1000#32).zeroExtend 64 : BitVec 64) = c at hchannel
  have hoff : ∀ o : BitVec 64, (hdmaInitDescBuf bar (BitVec.ofNat 32 i)).virtAddr + o - bar.vaddr =
      hdmaDescSocOffsetAddr + (c + o) := by
    intro o
    rw [hdmaInitDescBuf, hc, BitVec.add_assoc, BitVec.add_assoc, add_sub_self]
  refine ⟨fun o ho => ?_, fun o _ => ?_, ?_⟩
  · rw [hoff, BitVec.lt_def, BitVec.toNat_add, BitVec.toNat_add, hdmaDescSocOffsetAddr]
    rw [BitVec.lt_def] at ho
    simp only [hdmaInitDescBuf, BitVec.toNat_ofNat] at ho ⊢
    omega
  · rw [hoff, h, hdmaInitDescBuf, hc, BitVec.add_assoc, BitVec.add_assoc]
  · rw [hdmaInitDescBuf, BitVec.add_assoc, BitVec.add_assoc, add_sub_self, add_sub_self]

/-! ## All of it -/

/-- What is left of `eon_probe`: all its register writes, the message of the device for
every event of a context, and the descriptor buffers. -/
structure ProbeKept (info : MsiInfo) (c : MsiCapability) (s : State) : Prop where
  writes : Holds s.win.regs (probeWrites info)
  enabled : ∀ ch, block s.win.regs ch .en = 1#32
  stop : ∀ ch, block s.win.regs ch .msiStopHigh ++ block s.win.regs ch .msiStopLow = c.address
  abort : ∀ ch, block s.win.regs ch .msiAbortHigh ++ block s.win.regs ch .msiAbortLow = c.address
  watermark : ∀ ch, block s.win.regs ch .msiWatermarkHigh ++
    block s.win.regs ch .msiWatermarkLow = c.address
  data : ∀ ch, block s.win.regs ch .msiMsgd = c.data.zeroExtend 32
  descBuf : ∀ bar (i : Fin maxHdmaNumber),
    DescBufMapped s.win.regs bar (hdmaInitDescBuf bar (BitVec.ofNat 32 i))

/-- Whatever layout the capability has and whatever the requests, the register ioctls
and the completion thread do, the set-up of `eon_probe` survives every run. -/
theorem probeKept_of_reachable {c : MsiCapability} {cfg : ConfigSpace} {msiCap : Nat}
    (hcap : c.At cfg msiCap) {s : State}
    (h : (system reqs regArgs (probedRegs (pciMsiSetup cfg msiCap) regs)).Reachable s) :
    ProbeKept (pciMsiSetup cfg msiCap) c s := by
  have hwrites := holds_probeWrites_of_reachable h
  have hwired : ∀ ch, Wired ⟨low32 c.address, high32 c.address, c.data⟩ (block s.win.regs ch) := by
    intro ch
    rw [← pciMsiSetup_at hcap]
    exact wired_of_holds (holds_setup_of_reachable h ch)
  have haddr := high32_append_low32 c.address
  have htarget : Window.target s.win.regs .inbound 0 = Window.iramBaseSocAddr := by
    have hsize : ¬ (0x1000000#64 < 0x80000#64) := by decide
    refine Window.target_of_holds hwrites ?_ ?_
    · exact List.mem_append_left _
        (by simp [iatuConfig, Window.iatuMapInboundBar, Window.iatuMapBar, hsize])
    · exact List.mem_append_left _
        (by simp [iatuConfig, Window.iatuMapInboundBar, Window.iatuMapBar, hsize])
  exact
    { writes := hwrites
      enabled := fun ch => (hwired ch).enabled
      stop := fun ch => (hwired ch).stop.trans haddr
      abort := fun ch => (hwired ch).abort.trans haddr
      watermark := fun ch => (hwired ch).watermark.trans haddr
      data := fun ch => (hwired ch).data
      descBuf := fun bar i => descBufMapped_of_target bar i htarget }

end

/-- A capability with 64-bit addresses, at 0x50 of an otherwise empty space. -/
def wideCapability : MsiCapability :=
  ⟨0x7005#16, 0x81#16, 0x1fee01000#64, 0x4021#16, by decide⟩

def wideSpace (a : Nat) : BitVec 8 := (LittleEndian.pack wideCapability.fields).getD (a - 0x50) 0#8

theorem wideCapability_at : wideCapability.At wideSpace 0x50 := by
  unfold MsiCapability.At
  decide

theorem wide_message_kept :
    ∃ s, (system batched pokes (probedRegs (pciMsiSetup wideSpace 0x50) fun _ => 0)).Reachable s ∧
      s.comp.req 0 = .doorbell .data ∧ s.win.log.length = 2 ∧
      block s.win.regs ⟨.wr, 15⟩ .msiStopHigh ++ block s.win.regs ⟨.wr, 15⟩ .msiStopLow =
        0x1fee01000#64 := by
  obtain ⟨s, hs, hpc, hlog⟩ := StepSystem.exists_reachVia
    (S := system batched pokes (probedRegs (pciMsiSetup wideSpace 0x50) fun _ => 0))
    (g := fun _ _ => True)
    (fun s => s.comp.req 0 = .doorbell .data ∧ s.win.log.length = 2) untilDataDoorbell
    (.start (s := { probedDriver with
      win :=
        { probedDriver.win with
          regs := storeAll (probedRegs (pciMsiSetup wideSpace 0x50) fun _ => 0) iatuConfig } })
      ⟨Completion.probed_initial, rfl, rfl, rfl, fun _ => rfl, fun _ => rfl, rfl⟩)
    (by decide +kernel)
  exact ⟨s, hs, hpc, hlog, (probeKept_of_reachable wideCapability_at hs).stop _⟩

end Machine
end EonDrv

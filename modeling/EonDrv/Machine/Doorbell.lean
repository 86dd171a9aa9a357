import EonDrv.Completion.Waits
import EonDrv.Machine.System

/-!
# What a doorbell starts

Both stages program the block of their context and ring under one hold of the
channel lock.  A request that is about to ring therefore finds in the BAR what
its own call wrote: other requests on the context wait for the lock, those on
other contexts and the thread write other registers, and a moved window writes
the iATU block.
-/

namespace EonDrv
namespace Machine

open Completion (HdmaRequest Stage ReqPc Base)
open RegisterFile (Holds store)

/-! ## Programmed registers -/

def block (regs : Nat → BitVec 32) (ch : Chan) (r : HdmaReg) : BitVec 32 := regs (hdmaRegOff ch r)

structure UploadProgrammed (regs : HdmaReg → BitVec 32) (desc : DpuDescInfo) : Prop where
  control1 : regs .control1 = 0xd0000#32
  elemPf : regs .elemPf = 0#32
  cycleOff : regs .cycleOff = 0#32
  intSetup : regs .intSetup = 0x3d#32
  xferSize : (regs .xferSize).toNat = desc.descSize.toNat
  sar : regs .sarHigh ++ regs .sarLow = desc.descAddr
  dar : regs .darHigh ++ regs .darLow = desc.descDeviceAddr

structure DataProgrammed (regs : HdmaReg → BitVec 32) (desc : DpuDescInfo) : Prop where
  control1 : regs .control1 = 0x003#32
  elemPf : regs .elemPf = 0#32
  cycleOff : regs .cycleOff = 2#32
  intSetup : regs .intSetup = 0x18#32
  llp : regs .llpHigh ++ regs .llpLow = desc.descDeviceAddr

/-- The registers that the mode of a stage uses hold the values of its arguments. -/
def Programmed (regs : HdmaReg → BitVec 32) (desc : DpuDescInfo) : Stage → Prop
  | .upload => UploadProgrammed regs desc
  | .data => DataProgrammed regs desc

def blockWrites (q : HdmaRequest) (st : Stage) : List (Nat × BitVec 32) :=
  (q.writes st).map fun w => (hdmaRegOff (q.chan st) w.1, w.2)

theorem writes_nodup (q : HdmaRequest) (st : Stage) : ((q.writes st).map Prod.fst).Nodup := by
  cases st
  · show [HdmaReg.elemPf, .cycleOff, .control1, .intSetup, .xferSize, .sarLow, .sarHigh, .darLow,
      .darHigh].Nodup
    decide
  · show [HdmaReg.elemPf, .cycleOff, .control1, .intSetup, .llpLow, .llpHigh].Nodup
    decide

theorem blockWrites_keys (q : HdmaRequest) (st : Stage) :
    (blockWrites q st).map Prod.fst =
      ((q.writes st).map Prod.fst).map (hdmaRegOff (q.chan st)) := by
  simp [blockWrites, Function.comp_def]

theorem blockWrites_nodup (q : HdmaRequest) (st : Stage) :
    ((blockWrites q st).map Prod.fst).Nodup := by
  rw [blockWrites_keys]
  exact (writes_nodup q st).map fun _ _ h => (hdmaRegOff_injective h).2

theorem not_mem_writes (q : HdmaRequest) (st : Stage) {reg : HdmaReg}
    (h : reg = .doorbell ∨ reg = .intClear) : reg ∉ (q.writes st).map Prod.fst := by
  cases st
  · show reg ∉ [HdmaReg.elemPf, .cycleOff, .control1, .intSetup, .xferSize, .sarLow, .sarHigh,
      .darLow, .darHigh]
    rcases h with rfl | rfl <;> decide
  · show reg ∉ [HdmaReg.elemPf, .cycleOff, .control1, .intSetup, .llpLow, .llpHigh]
    rcases h with rfl | rfl <;> decide

theorem mem_keys_take {q : HdmaRequest} {st : Stage} {k off : Nat}
    (h : off ∈ ((blockWrites q st).take k).map Prod.fst) :
    ∃ reg ∈ (q.writes st).map Prod.fst, hdmaRegOff (q.chan st) reg = off := by
  obtain ⟨w, hw, rfl⟩ := List.mem_map.mp h
  have hkey := List.mem_map_of_mem (f := Prod.fst) (List.mem_of_mem_take hw)
  rw [blockWrites_keys] at hkey
  exact List.mem_map.mp hkey

/-- A channel write to another context, or to a register that no stage programs,
leaves what a stage wrote. -/
theorem holds_channelWrite {regs : Nat → BitVec 32} {q : HdmaRequest} {st : Stage} {k : Nat}
    (h : Holds regs ((blockWrites q st).take k)) {ch : Chan} {reg : HdmaReg} (val : BitVec 32)
    (hfar : ch ≠ q.chan st ∨ reg = .doorbell ∨ reg = .intClear) :
    Holds (store regs (hdmaRegOff ch reg, val)) ((blockWrites q st).take k) := by
  refine h.store fun hmem => ?_
  obtain ⟨reg', hreg', hoff⟩ := mem_keys_take hmem
  obtain ⟨hch, hreg⟩ := hdmaRegOff_injective hoff
  rcases hfar with hne | hreg₀
  · exact hne hch.symm
  · exact not_mem_writes q st hreg₀ (hreg ▸ hreg')

theorem holds_iatuWrite {regs : Nat → BitVec 32} {q : HdmaRequest} {st : Stage} {k : Nat}
    (h : Holds regs ((blockWrites q st).take k)) {w : Nat × BitVec 32} (hw : 0x9000 ≤ w.1) :
    Holds (store regs w) ((blockWrites q st).take k) := by
  refine h.store fun hmem => ?_
  obtain ⟨reg, _, hoff⟩ := mem_keys_take hmem
  have hlt := hdmaRegOff_lt (q.chan st) reg
  omega

theorem programmed_of_holds {regs : Nat → BitVec 32} {q : HdmaRequest} {st : Stage}
    (hfit : q.desc.descSize.toNat < 2 ^ 32) (h : Holds regs (blockWrites q st)) :
    Programmed (block regs (q.chan st)) q.desc st := by
  have hread : ∀ {r : HdmaReg} {v : BitVec 32}, (r, v) ∈ q.writes st →
      block regs (q.chan st) r = v := by
    intro r v hmem
    exact h (hdmaRegOff (q.chan st) r, v) (List.mem_map.mpr ⟨_, hmem, rfl⟩)
  cases st with
  | upload =>
      have hw : q.writes .upload = [(.elemPf, 0#32), (.cycleOff, 0#32), (.control1, 0xd0000#32),
          (.intSetup, 0x3d#32), (.xferSize, q.desc.descSize.truncate 32),
          (.sarLow, low32 q.desc.descAddr), (.sarHigh, high32 q.desc.descAddr),
          (.darLow, low32 q.desc.descDeviceAddr), (.darHigh, high32 q.desc.descDeviceAddr)] := rfl
      rw [hw] at hread
      refine ⟨hread (by simp), hread (by simp), hread (by simp), hread (by simp), ?_, ?_, ?_⟩
      · rw [hread (v := q.desc.descSize.truncate 32) (by simp), BitVec.truncate_eq_setWidth,
          BitVec.toNat_setWidth, Nat.mod_eq_of_lt hfit]
      · rw [hread (v := high32 q.desc.descAddr) (by simp),
          hread (v := low32 q.desc.descAddr) (by simp), high32_append_low32]
      · rw [hread (v := high32 q.desc.descDeviceAddr) (by simp),
          hread (v := low32 q.desc.descDeviceAddr) (by simp), high32_append_low32]
  | data =>
      have hw : q.writes .data = [(.elemPf, 0#32), (.cycleOff, 2#32), (.control1, 0x003#32),
          (.intSetup, 0x18#32), (.llpLow, low32 q.desc.descDeviceAddr),
          (.llpHigh, high32 q.desc.descDeviceAddr)] := rfl
      rw [hw] at hread
      refine ⟨hread (by simp), hread (by simp), hread (by simp), hread (by simp), ?_⟩
      rw [hread (v := high32 q.desc.descDeviceAddr) (by simp),
        hread (v := low32 q.desc.descDeviceAddr) (by simp), high32_append_low32]

/-! ## Progress of a stage -/

/-- How many writes of its stage a request has behind it, up to its doorbell. -/
def stored (q : HdmaRequest) : ReqPc → Option (Stage × Nat)
  | .program st k => some (st, k)
  | .setRunning st | .doorbell st => some (st, (q.writes st).length)
  | .batch _ => some (.data, (q.writes .data).length)
  | _ => none

theorem critical_of_stored {q : HdmaRequest} {pc : ReqPc} {st : Stage} {k : Nat}
    (h : stored q pc = some (st, k)) : pc.critical = some st := by
  cases pc <;> simp only [stored, Option.some.injEq, Prod.mk.injEq, reduceCtorEq] at h
  all_goals
    obtain ⟨rfl, _⟩ := h
    rfl

section

variable {reqs : Nat → HdmaRequest}

/-- A request that has writes behind it after its own statement had them before,
made one, or starts its stage. -/
theorem stored_request {s t : Completion.State} {r : Nat}
    (h : Completion.stepRequest reqs s r = some t) {st : Stage} {k : Nat}
    (hk : stored (reqs r) (t.req r) = some (st, k)) :
    (∃ k', stored (reqs r) (s.req r) = some (st, k') ∧
        (reqs r).writes st = ((reqs r).writes st).take k' ∧
        channelWrite reqs s (.request r) = none) ∨
      k = 0 ∨
      ∃ k' w, stored (reqs r) (s.req r) = some (st, k') ∧ k = k' + 1 ∧
        ((reqs r).writes st)[k']? = some w ∧
        channelWrite reqs s (.request r) = some ((reqs r).chan st, w) := by
  have hadv := Completion.stepRequest_advances h
  generalize hpc : s.req r = pc at hadv ⊢
  generalize t.req r = pc' at hadv hk
  cases hadv with
  | setupSg => cases hk
  | setDesc => cases hk
  | lock _ =>
      simp only [stored, Option.some.injEq, Prod.mk.injEq] at hk
      exact Or.inr (Or.inl hk.2.symm)
  | @program st' k' w hw =>
      simp only [stored, Option.some.injEq, Prod.mk.injEq] at hk
      obtain ⟨rfl, rfl⟩ := hk
      refine Or.inr (Or.inr ⟨k', w, rfl, rfl, hw, ?_⟩)
      simp only [channelWrite, hpc, hw, Option.map_some]
  | @programEnd st' k' hw =>
      simp only [stored, Option.some.injEq, Prod.mk.injEq] at hk
      obtain ⟨rfl, rfl⟩ := hk
      refine Or.inl ⟨k', rfl, (List.take_of_length_le (List.getElem?_eq_none_iff.mp hw)).symm, ?_⟩
      simp only [channelWrite, hpc, hw, Option.map_none]
  | @setRunning st' =>
      have hsame : stored (reqs r) (Completion.afterRunning st') =
          some (st', ((reqs r).writes st').length) := by
        cases st' <;> rfl
      rw [hsame, Option.some.injEq, Prod.mk.injEq] at hk
      obtain ⟨rfl, rfl⟩ := hk
      exact Or.inl ⟨_, rfl, List.take_length.symm, by simp only [channelWrite, hpc]⟩
  | batch =>
      simp only [stored, Option.some.injEq, Prod.mk.injEq] at hk
      obtain ⟨rfl, -⟩ := hk
      exact Or.inl ⟨_, rfl, List.take_length.symm, by simp only [channelWrite, hpc]⟩
  | refuse => cases hk
  | batchEnd =>
      simp only [stored, Option.some.injEq, Prod.mk.injEq] at hk
      obtain ⟨rfl, -⟩ := hk
      exact Or.inl ⟨_, rfl, List.take_length.symm, by simp only [channelWrite, hpc]⟩
  | doorbell => cases hk
  | complete _ => cases hk
  | sleep _ => cases hk
  | timeout _ => cases hk
  | signal _ => cases hk
  | unlock =>
      have hcrit := critical_of_stored hk
      rw [Completion.afterStage_critical] at hcrit
      cases hcrit
  | teardownDesc => cases hk
  | teardownSg => cases hk

theorem stored_other {s t : Completion.State} {a : Completion.Action}
    (h : Completion.step reqs s a = some t) {r : Nat} (ha : a ≠ .request r) {p : Stage × Nat}
    (hp : stored (reqs r) (t.req r) = some p) : stored (reqs r) (s.req r) = some p := by
  rcases Completion.step_req_cases h r with hsame | hown | ⟨ret, _, hfail⟩ | ⟨st, w, w', _, hw⟩
  · rwa [← hsame]
  · exact absurd hown ha
  · rcases (Completion.stepFail_req hfail).2 with hpc | hpc
    · rw [hpc] at hp
      cases hp
    · rw [hpc] at hp
      cases hp
  · rw [hw] at hp
    cases hp

/-! ## The invariant -/

def Shown (reqs : Nat → HdmaRequest) (s : State) : Prop :=
  ∀ r st k, stored (reqs r) (s.comp.req r) = some (st, k) →
    Holds s.win.regs ((blockWrites (reqs r) st).take k)

/-- A channel write is by the thread to `int_clear`, or by a request under the lock
of the context. -/
theorem channelWrite_cases {s : Completion.State} {a : Completion.Action} {ch : Chan}
    {reg : HdmaReg} {val : BitVec 32} (h : channelWrite reqs s a = some (ch, reg, val)) :
    reg = .intClear ∨
      ∃ r st, a = .request r ∧ (s.req r).critical = some st ∧ (reqs r).chan st = ch := by
  unfold channelWrite at h
  cases a with
  | request r =>
      simp only at h
      split at h
      · rename_i st k hpc
        obtain ⟨w, _, hw⟩ := Option.map_eq_some_iff.mp h
        simp only [Prod.mk.injEq] at hw
        exact Or.inr ⟨r, st, rfl, by rw [hpc]; rfl, hw.1⟩
      · rename_i st hpc
        split at h
        · simp only [Option.some.injEq, Prod.mk.injEq] at h
          exact Or.inr ⟨r, st, rfl, by rw [hpc]; rfl, h.1⟩
        · cases h
      · cases h
  | thread =>
      simp only at h
      split at h
      · simp only [Option.some.injEq, Prod.mk.injEq] at h
        exact Or.inl h.2.1.symm
      · cases h
  | _ => cases h

theorem Shown.comp {s t : State} {a : Completion.Action} (hb : Base reqs s.comp)
    (hs : Shown reqs s) (hst : Completion.step reqs s.comp a = some t.comp)
    (hwin : t.win = applyWrite s.win (channelWrite reqs s.comp a)) : Shown reqs t := by
  intro r st k hk
  rw [hwin]
  by_cases ha : a = .request r
  · subst ha
    rcases stored_request hst hk with ⟨k', hold, hall, hnone⟩ | rfl | ⟨k', w, hold, rfl, hw, hwrite⟩
    · rw [hnone]
      have hlen : ((reqs r).writes st).length ≤ k' := by
        have hle := congrArg List.length hall
        rw [List.length_take] at hle
        omega
      have hshown := hs r st k' hold
      rw [List.take_of_length_le (by rw [blockWrites, List.length_map]; exact hlen)] at hshown
      exact fun w hw => hshown w (List.mem_of_mem_take hw)
    · rw [List.take_zero]
      exact RegisterFile.holds_nil _
    · rw [hwrite]
      have hblock : (blockWrites (reqs r) st)[k']? =
          some (hdmaRegOff ((reqs r).chan st) w.1, w.2) := by
        rw [blockWrites, List.getElem?_map, hw]
        rfl
      exact (hs r st k' hold).next (blockWrites_nodup _ _) hblock
  · have hold := stored_other hst ha hk
    have hshown := hs r st k hold
    cases hwrite : channelWrite reqs s.comp a with
    | none => exact hshown
    | some p =>
        refine holds_channelWrite hshown p.2.2 ?_
        have hwrite' : channelWrite reqs s.comp a = some (p.1, p.2.1, p.2.2) := hwrite
        rcases channelWrite_cases hwrite' with
          hclear | ⟨r', st', rfl, hcrit, hch⟩
        · exact Or.inr (Or.inr hclear)
        · -- another request inside a stage holds another context
          refine Or.inl fun heq => ha ?_
          have hin : Completion.inside reqs s.comp r' = some ((reqs r).chan st) := by
            unfold Completion.inside
            rw [hcrit, Option.map_some, hch, heq]
          have hin' : Completion.inside reqs s.comp r = some ((reqs r).chan st) := by
            unfold Completion.inside
            rw [critical_of_stored hold, Option.map_some]
          rw [hb.locks.unique hin hin']

variable {regArgs : Nat → DpuRegArgs}

theorem Shown.access {s t : State} {i : Nat} {v : BitVec 32} (hs : Shown reqs s)
    (hcomp : t.comp = s.comp)
    (hst : Window.step (accesses reqs regArgs) s.win (.client i v) = some t.win) :
    Shown reqs t := by
  intro r st k hk
  rw [hcomp] at hk
  have hshown := hs r st k hk
  have hfires := Window.fires_of_step hst
  revert hfires
  generalize t.win = w
  intro hfires
  cases hfires with
  | write hpc hw =>
      have hregion := Window.remapWrites_region (List.mem_of_getElem? hw)
      exact holds_iatuWrite hshown (by omega)
  | _ => exact hshown

theorem shown_of_reachable {regs : Nat → BitVec 32} {s : State}
    (h : (system reqs regArgs regs).Reachable s) : Shown reqs s := by
  refine StepSystem.ReachVia.invariant_of (J := fun s => Base reqs s.comp)
    (fun s hs => Completion.base_of_reachable (comp_reachable hs)) ?_ ?_ h
  · intro s (hi : Initial reqs regArgs regs s) r st k hk
    rw [hi.comp.req r] at hk
    cases hk
  · intro s a t hb hs _ (hst : step reqs regArgs s a = some t)
    cases a with
    | comp a =>
        obtain ⟨-, hcomp, hwin⟩ := step_comp hst
        exact hs.comp hb hcomp hwin
    | access i v =>
        obtain ⟨-, hcomp, hwin⟩ := step_access hst
        exact hs.access hcomp hwin

/-! ## Doorbells -/

/-- About to ring, a call finds its own values in the registers of its context.  A
channel write is the only change that a statement of the completion path makes to the
BAR, and its four bytes are in the block of its own context. -/
structure DoorbellSafe (reqs : Nat → HdmaRequest) (regArgs : Nat → DpuRegArgs) (s : State) :
    Prop where
  programmed : ∀ r st, s.comp.req r = .doorbell st →
    Programmed (block s.win.regs ((reqs r).chan st)) (reqs r).desc st
  confined : ∀ a ch reg val, channelWrite reqs s.comp a = some (ch, reg, val) → ∀ b < 4,
    InBlock ch (hdmaRegOff ch reg + b) ∧
      (∀ ch', ch' ≠ ch → ¬ InBlock ch' (hdmaRegOff ch reg + b)) ∧
      hdmaRegOff ch reg + b < Window.iatuBaseOffset
  frame : ∀ a t, step reqs regArgs s (.comp a) = some t → ∀ off,
    t.win.regs off ≠ s.win.regs off →
      ∃ ch reg val, channelWrite reqs s.comp a = some (ch, reg, val) ∧ off = hdmaRegOff ch reg

theorem applyWrite_frame {w : Window.State} {o : Option (Chan × HdmaReg × BitVec 32)} {off : Nat}
    (h : (applyWrite w o).regs off ≠ w.regs off) :
    ∃ ch reg val, o = some (ch, reg, val) ∧ off = hdmaRegOff ch reg := by
  cases o with
  | none => exact absurd rfl h
  | some p =>
      refine ⟨p.1, p.2.1, p.2.2, rfl, ?_⟩
      by_contra hne
      exact h (RegisterFile.store_ne hne)

theorem doorbellSafe_of_reachable (hfit : ∀ r, (reqs r).desc.descSize.toNat < 2 ^ 32)
    {regs : Nat → BitVec 32} {s : State} (h : (system reqs regArgs regs).Reachable s) :
    DoorbellSafe reqs regArgs s where
  programmed r st hpc := by
    refine programmed_of_holds (hfit r) ?_
    have hstored : stored (reqs r) (s.comp.req r) = some (st, ((reqs r).writes st).length) := by
      rw [hpc]
      rfl
    have hshown := shown_of_reachable h r st _ hstored
    have hlen : (blockWrites (reqs r) st).length = ((reqs r).writes st).length := List.length_map _
    rwa [List.take_of_length_le (Nat.le_of_eq hlen)] at hshown
  confined a ch reg val _ b hb := by
    have hin := inBlock_hdmaRegOff ch reg hb
    exact ⟨hin, fun ch' hne hin' => hne (hin'.unique hin), hin.lt⟩
  frame a t hst off hoff := by
    obtain ⟨-, -, hwin⟩ := step_comp hst
    rw [hwin] at hoff
    exact applyWrite_frame hoff

end

/-! ## A sample run -/

/-- Request 0 has a batch of one register write. -/
def batched (r : Nat) : HdmaRequest :=
  { Completion.sample r with regs := ⟨regEnable, 1, fun _ => ⟨0x50000010, 7⟩⟩ }

/-- Register ioctls in another window than the batch. -/
def pokes (_ : Nat) : DpuRegArgs := ⟨0x60000020, 9, regWrite⟩

def probedDriver : State where
  comp := Completion.probed
  win :=
    { regs := RegisterFile.storeAll (fun _ => 0) Window.iatuConfig
      configBarBase := 0
      conbarLock := none
      pc := fun _ => .enter
      data := fun i => (accesses batched pokes i).args.regData
      log := [] }

theorem probedDriver_initial : Initial batched pokes (fun _ => 0) probedDriver :=
  ⟨Completion.probed_initial, rfl, rfl, rfl, fun _ => rfl, fun _ => rfl, rfl⟩

/-- The upload, and after it the data stage up to its doorbell, with a register ioctl
that moves the window while the stage programs. -/
def untilDataDoorbell : List Action :=
  (List.replicate 16 (Completion.Action.request 0) ++ Completion.stopUpload 0 ++
      Completion.threadSteps 6).map Action.comp ++
    List.replicate 4 (Action.comp (.request 0)) ++
    List.replicate 6 (Action.access (ioctlAccess 0) 0) ++
    List.replicate 6 (Action.comp (.request 0)) ++
    List.replicate 9 (Action.access (ioctlAccess 0) 0) ++
    [Action.comp (.request 0)] ++
    List.replicate 15 (Action.access (batchAccess 0 0) 0) ++
    List.replicate 2 (Action.comp (.request 0))

/-- At the doorbell of the data stage the LLP registers point at the uploaded table. -/
theorem data_doorbell_programmed :
    ∃ s, (system batched pokes fun _ => 0).Reachable s ∧ s.comp.req 0 = .doorbell .data ∧
      s.win.log.length = 2 ∧ DoorbellSafe batched pokes s := by
  obtain ⟨s, hs, hpc, hlog⟩ := StepSystem.exists_reachVia
    (S := system batched pokes fun _ => 0) (g := fun _ _ => True)
    (fun s => s.comp.req 0 = .doorbell .data ∧ s.win.log.length = 2)
    untilDataDoorbell (.start probedDriver_initial) (by decide +kernel)
  have hfit : ∀ r, (batched r).desc.descSize.toNat < 2 ^ 32 := by
    intro r
    show (48#64 : BitVec 64).toNat < 2 ^ 32
    decide
  exact ⟨s, hs, hpc, hlog, doorbellSafe_of_reachable hfit hs⟩

end Machine
end EonDrv

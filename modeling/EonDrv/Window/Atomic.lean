import EonDrv.Support.AtomicObject
import EonDrv.Window.Width
import EonDrv.Window.Written

/-!
# The window refines atomic registers

The accesses with the SoC behind the window.  The SoC is any device with a state of its
own: a read may change it, and it may change by itself.  What the callers see of the
locked, cached and remapped window is a register file in which every access happens in
one step, at its own address.
-/

namespace EonDrv
namespace Window

/-- A device behind the window.  A read or write names its width and SoC address;
`outside` is what an access does that leaves the bytes that region 1 maps. -/
structure Soc (δ β : Type*) where
  read : δ → Nat → BitVec 64 → BitVec 32 × δ
  write : δ → Nat → BitVec 64 → BitVec 32 → δ
  outside : δ → Access → BitVec 32 → BitVec 32 × δ
  event : δ → β → δ

/-- What the `switch` assigns to `reg_data` when the device answers `v`. -/
def Access.readBack (x : Access) (v : BitVec 32) : Option (BitVec 32) :=
  match x.op with
  | some .readl => some v
  | some .read16 => some ((v.truncate 16).zeroExtend 32)
  | _ => none

section

variable {δ β : Type*} (soc : Soc δ β)

/-- One bus access at an address: the answer, and the device after it. -/
def Soc.perform (op : Option IoOp) (addr : BitVec 64) (data : BitVec 32) (d : δ) :
    BitVec 32 × δ :=
  match op with
  | some .writel => (0, soc.write d 4 addr data)
  | some .readl => soc.read d 4 addr
  | some .write16 => (0, soc.write d 2 addr ((data.truncate 16).zeroExtend 32))
  | some .read16 => soc.read d 2 addr
  | none => (0, d)

def Soc.bus (x : Access) (regs : Nat → BitVec 32) (data : BitVec 32) (d : δ) : BitVec 32 × δ :=
  if x.offset.toNat + x.width ≤ configBarSize.toNat then
    soc.perform x.op (target regs .inbound 1 + x.offset) data d
  else soc.outside d x data

inductive SocAction (β : Type*)
  | client (i : Nat)
  | channel (ch : Chan) (r : HdmaReg) (v : BitVec 32)
  | event (b : β)

variable (acc : Nat → Access)

def stepOnSoc (s : State × δ) : SocAction β → Option (State × δ)
  | .client i =>
    if s.1.pc i = .access then
      let r := soc.bus (acc i) s.1.regs (s.1.data i) s.2
      (step acc s.1 (.client i r.1)).map fun t => (t, r.2)
    else (step acc s.1 (.client i 0)).map fun t => (t, s.2)
  | .channel ch r v => (step acc s.1 (.channel ch r v)).map fun t => (t, s.2)
  | .event b => some (s.1, soc.event s.2 b)

def onSoc (regs : Nat → BitVec 32) (start : δ → Prop) :
    StepSystem (State × δ) (SocAction β) where
  init s := Initial regs acc s.1 ∧ start s.2
  step := stepOnSoc soc acc

/-! ## The atomic registers -/

/-- An access of the object happens at its own address and returns its `reg_data`. -/
def atomicRegs : AtomicObject δ Access (BitVec 32) β where
  apply x d :=
    let r := soc.perform x.op x.args.regAddr x.args.regData d
    ((x.readBack r.1).getD x.args.regData, r.2)
  event b d := soc.event d b

/-- The accesses that the address check lets through. -/
def calls (i : Nat) : Option Access := if (acc i).accepted then some (acc i) else none

/-- An access shows when it is behind its `switch`. -/
def shown (s : State × δ) : AtomicObject.State Nat δ (BitVec 32) where
  obj := s.2
  result i := if (s.1.pc i).passed then some (s.1.data i) else none

end

/-! ## Data of an access -/

section

variable {acc : Nat → Access} {regs : Nat → BitVec 32} {s t : State} {i : Nat} {v : BitVec 32}

theorem step_access_data (hpc : s.pc i = .access) (h : step acc s (.client i v) = some t) :
    t.pc = (s.goto i .unlock).pc ∧
      t.data = Function.update s.data i (((acc i).readBack v).getD (s.data i)) := by
  simp only [step, stepAccess, hpc] at h
  unfold Access.readBack
  cases hop : (acc i).op with
  | none =>
      rw [hop] at h
      obtain rfl := Option.some.inj h
      exact ⟨rfl, (Function.update_eq_self i s.data).symm⟩
  | some op =>
      rw [hop] at h
      cases op with
      | writel | write16 =>
          obtain rfl := Option.some.inj h
          exact ⟨rfl, (Function.update_eq_self i s.data).symm⟩
      | readl | read16 =>
          obtain rfl := Option.some.inj h
          exact ⟨rfl, rfl⟩

theorem step_other (hpc : s.pc i ≠ .access) (h : step acc s (.client i v) = some t) :
    t.data = s.data ∧ (t.pc i).passed = (s.pc i).passed := by
  have hmove : ∀ pc : Pc, pc.passed = (s.pc i).passed →
      ((s.goto i pc).pc i).passed = (s.pc i).passed := by
    intro pc hpassed
    rw [State.goto_pc_self, hpassed]
  cases fires_of_step h with
  | accept hnow _ => exact ⟨rfl, hmove _ (by rw [hnow]; rfl)⟩
  | reject hnow _ => exact ⟨rfl, hmove _ (by rw [hnow]; rfl)⟩
  | lock hnow _ => exact ⟨rfl, hmove .check (by rw [hnow]; rfl)⟩
  | miss hnow _ => exact ⟨rfl, hmove _ (by rw [hnow]; rfl)⟩
  | hit hnow _ => exact ⟨rfl, hmove _ (by rw [hnow]; rfl)⟩
  | write hnow _ => exact ⟨rfl, hmove (.remap _) (by rw [hnow]; rfl)⟩
  | mapped hnow _ => exact ⟨rfl, hmove _ (by rw [hnow]; rfl)⟩
  | setBase hnow => exact ⟨rfl, hmove .access (by rw [hnow]; rfl)⟩
  | unlock hnow => exact ⟨rfl, hmove .done (by rw [hnow]; rfl)⟩
  | access hnow => exact absurd hnow hpc
  | skip hnow => exact absurd hnow hpc

/-- Up to its `switch` an access has the `reg_data` it came with. -/
theorem data_of_not_passed (h : (system regs acc).Reachable s) (hpc : (s.pc i).passed = false) :
    s.data i = (acc i).args.regData := by
  refine StepSystem.Reachable.invariant
    (I := fun s : State => (s.pc i).passed = false → s.data i = (acc i).args.regData)
    (fun s (hi : Initial regs acc s) _ => hi.data i) (fun s a t hd hst hpc => ?_) h hpc
  cases a with
  | channel ch r v =>
      obtain rfl := Option.some.inj hst
      exact hd hpc
  | client j v =>
      by_cases hj : i = j
      · subst hj
        by_cases hacc : s.pc i = .access
        · rw [(step_access_data hacc hst).1, State.goto_pc_self] at hpc
          cases hpc
        · obtain ⟨hdata, hpassed⟩ := step_other hacc hst
          rw [hdata]
          exact hd (hpassed ▸ hpc)
      · rw [step_pc_ne hst hj] at hpc
        rw [step_data_ne hst hj, hd hpc]

end

/-! ## The refinement -/

section

variable {δ β : Type*} {soc : Soc δ β} {acc : Nat → Access} {regs : Nat → BitVec 32}
  {start : δ → Prop} {s t : State × δ} {i : Nat}

theorem onSoc_reachable (h : (onSoc soc acc regs start).Reachable s) :
    (system regs acc).Reachable s.1 := by
  refine h.map (T := system regs acc) Prod.fst (fun _ (hi : Initial regs acc _ ∧ _) => hi.1)
    fun s a t _ (hst : stepOnSoc soc acc s a = some t) => ?_
  cases a with
  | event b =>
      obtain rfl := Option.some.inj hst
      exact Or.inl rfl
  | channel ch r v =>
      simp only [stepOnSoc] at hst
      obtain ⟨u, hu, rfl⟩ := Option.map_eq_some_iff.mp hst
      exact Or.inr ⟨.channel ch r v, trivial, hu⟩
  | client i =>
      simp only [stepOnSoc] at hst
      split at hst <;> obtain ⟨u, hu, rfl⟩ := Option.map_eq_some_iff.mp hst <;>
        exact Or.inr ⟨.client i _, trivial, hu⟩

theorem bus_of_access {x : Access} {w : State} (hok : Pc.access.Ok x w) (hx : ¬ x.Straddles)
    (data : BitVec 32) (d : δ) :
    soc.bus x w.regs data d = soc.perform x.op x.args.regAddr data d := by
  rw [Soc.bus, if_pos ((fits_iff x).mpr hx), soc_of_access hok]

theorem shown_access (hs : (system regs acc).Reachable s.1) (hx : ¬ (acc i).Straddles)
    (hpc : s.1.pc i = .access) (h : stepOnSoc soc acc s (.client i) = some t) :
    calls acc i = some (acc i) ∧ (shown s).result i = none ∧
      shown t = (atomicRegs soc).commit i (acc i) (shown s) := by
  have hok := (coherent_of_reachable hs).place i
  rw [hpc] at hok
  have hdata : s.1.data i = (acc i).args.regData := data_of_not_passed hs (by rw [hpc]; rfl)
  simp only [stepOnSoc, hpc, if_true, bus_of_access hok hx, hdata] at h
  obtain ⟨u, hu, rfl⟩ := Option.map_eq_some_iff.mp h
  obtain ⟨hpc', hdata'⟩ := step_access_data hpc hu
  refine ⟨if_pos hok.1, ?_, ?_⟩
  · show (if (s.1.pc i).passed then _ else _) = none
    rw [hpc]
    rfl
  · refine congrArg (AtomicObject.State.mk _) (funext fun j => ?_)
    show (if (u.pc j).passed then some (u.data j) else none) = _
    rw [hpc', hdata']
    by_cases hj : j = i
    · subst hj
      rw [State.goto_pc_self, Function.update_self, Function.update_self, hdata]
      exact if_pos rfl
    · rw [State.goto_pc_ne hj, Function.update_of_ne hj, Function.update_of_ne hj]
      rfl

theorem shown_other (hpc : s.1.pc i ≠ .access) (h : stepOnSoc soc acc s (.client i) = some t) :
    shown t = shown s := by
  simp only [stepOnSoc, hpc, if_false] at h
  obtain ⟨u, hu, rfl⟩ := Option.map_eq_some_iff.mp h
  obtain ⟨hdata, hpassed⟩ := step_other hpc hu
  refine congrArg (AtomicObject.State.mk _) (funext fun j => ?_)
  show (if (u.pc j).passed then some (u.data j) else none) = _
  rw [hdata]
  by_cases hj : j = i
  · rw [hj, hpassed]
  · rw [step_pc_ne hu hj]

/-- Every run of the accesses is, as its callers and the SoC see it, a run in which each
accepted access happens in one step at its own address: after its lock and before its
unlock, once, whatever windows the others moved and whatever channel registers were
written next to the regions. -/
theorem refines_atomicRegs (hacc : ∀ i, (acc i).accepted = true → ¬ (acc i).Straddles)
    (h : (onSoc soc acc regs start).Reachable s) :
    ((atomicRegs soc).system (calls acc) start).Reachable (shown s) := by
  refine AtomicObject.refines (J := fun s => (system regs acc).Reachable s.1) _ _ shown
    (fun _ hs => onSoc_reachable hs) (fun s (hi : Initial regs acc s.1 ∧ start s.2) => ?_)
    (fun s a t hs (hst : stepOnSoc soc acc s a = some t) => ?_) h
  · refine ⟨hi.2, fun i => ?_⟩
    show (if (s.1.pc i).passed then _ else _) = none
    rw [hi.1.pc i]
    rfl
  · cases a with
    | event b =>
        obtain rfl := Option.some.inj hst
        exact .event b rfl
    | channel ch r v =>
        simp only [stepOnSoc] at hst
        obtain ⟨u, hu, rfl⟩ := Option.map_eq_some_iff.mp hst
        obtain rfl := Option.some.inj hu
        exact .nothing rfl
    | client i =>
        by_cases hpc : s.1.pc i = .access
        · have hok := (coherent_of_reachable hs).place i
          rw [hpc] at hok
          obtain ⟨hcall, hnone, hcommit⟩ := shown_access hs (hacc i hok.1) hpc hst
          exact .commit i (acc i) hcall hnone hcommit
        · exact .nothing (shown_other hpc hst)

end

def wordMemory : Soc (BitVec 64 → BitVec 32) Unit where
  read d _ a := (d a, d)
  write d _ a v := Function.update d a v
  outside d _ _ := (0, d)
  event d _ := d

/-- A write, a write in another window, and reads of the first. -/
def writeReads (i : Nat) : Access :=
  match i with
  | 0 => ⟨.eonRwReg, ⟨0x50000010, 7, regWrite⟩⟩
  | 1 => ⟨.regsOperations, ⟨0x60000020, 9, regWrite⟩⟩
  | _ => ⟨.eonRwReg, ⟨0x50000010, 0, regRead⟩⟩

theorem writeReads_not_straddles (i : Nat) : ¬ (writeReads i).Straddles := by
  refine not_straddles_of_aligned ?_
  match i with
  | 0 => decide
  | 1 => decide
  | _ + 2 =>
      show (0x50000010#64).toNat % 4 = 0
      decide

theorem read_written :
    ∃ s, (onSoc wordMemory writeReads (fun _ => 0) fun _ => True).Reachable s ∧
      (shown s).result 2 = some 7 ∧
      ((atomicRegs wordMemory).system (calls writeReads) fun _ => True).Reachable (shown s) := by
  obtain ⟨s, hs, hread⟩ := StepSystem.exists_reachVia
    (S := onSoc wordMemory writeReads (fun _ => 0) fun _ => True) (g := fun _ _ => True)
    (s := ({ probedWindow with data := fun i => (writeReads i).args.regData }, fun _ => 0))
    (fun s => (shown s).result 2 = some 7)
    (List.replicate 15 (SocAction.client 0) ++ List.replicate 15 (SocAction.client 1) ++
      List.replicate 15 (SocAction.client 2))
    (.start ⟨⟨rfl, rfl, rfl, fun _ => rfl, fun _ => rfl, rfl⟩, trivial⟩) (by decide +kernel)
  exact ⟨s, hs, hread, refines_atomicRegs (fun i _ => writeReads_not_straddles i) hs⟩

end Window
end EonDrv

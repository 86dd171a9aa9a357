import EonDrv.Lifecycle.Order
import EonDrv.Support.StepSystem

/-!
# The module

`eon_init` and `eon_exit` over any number of devices, the probes and removes of which run
statement by statement between those of the module.
-/

namespace EonDrv.Lifecycle

open Ledger (Use)
open Traced (emit)

/-- What the kernel answers to `eon_init`. -/
structure InitAnswers where
  allocChrdevRegion : Option Errno
  classCreate : Option Errno
  pciRegisterDriver : Option Errno

inductive ModuleResource
  | region
  | cls
  | driver
  deriving DecidableEq

section

variable (k : InitAnswers)

/-- A failed registration leaves no driver behind. -/
def pciRegisterDriver : Traced (Use ModuleResource) Int := do
  emit (.acquire .driver)
  if ret k.pciRegisterDriver ≠ 0 then
    emit (.release .driver)
  return ret k.pciRegisterDriver

def errClassCreat : Traced (Use ModuleResource) Unit := emit (.release .region)

def errPciRegister : Traced (Use ModuleResource) Unit := do
  emit (.release .cls)
  errClassCreat

def eonInit : Traced (Use ModuleResource) Int := do
  if ret k.allocChrdevRegion < 0 then
    return ret k.allocChrdevRegion
  emit (.acquire .region)
  if ret k.classCreate ≠ 0 then
    errClassCreat
    return ret k.classCreate
  emit (.acquire .cls)
  let ret ← pciRegisterDriver k
  if ret ≠ 0 then
    errPciRegister
    return ret
  return 0

def eonExit : Traced (Use ModuleResource) Unit := do
  emit (.release .driver)
  emit (.release .cls)
  emit (.release .region)

end

/-! ## Module and devices -/

inductive ModulePhase
  | loading
  | loaded
  | unloading
  | out
  deriving DecidableEq

/-- A place on the bus: its device is gone until a probe begins. -/
structure Slot where
  phase : Phase
  answers : Answers
  todo : List Event
  live : Live

structure ModuleState (n : Nat) where
  phase : ModulePhase
  todo : List (Use ModuleResource)
  held : ModuleResource → Bool
  slot : Fin n → Slot

inductive ModuleAction (n : Nat)
  | module
  | exit
  | probe (i : Fin n) (k : Answers)
  | remove (i : Fin n)
  | device (i : Fin n)

def applyUse (held : ModuleResource → Bool) : Use ModuleResource → ModuleResource → Bool
  | .acquire r => Function.update held r true
  | .release r => Function.update held r false

/-- The next statement of `eon_probe` or `eon_remove`. -/
def Slot.step (d : Slot) : Option Slot :=
  match d.todo with
  | [] =>
    match d.phase with
    | .probing =>
      some { d with phase := if (eonProbe d.answers).val.1 = 0 then .bound else .gone }
    | .removing => some { d with phase := .gone }
    | .bound | .gone => none
  | e :: rest => some { d with todo := rest, live := d.live.apply e }

section

variable {n : Nat} (k : InitAnswers)

def ModuleState.setSlot (s : ModuleState n) (i : Fin n) (d : Slot) : ModuleState n :=
  { s with slot := Function.update s.slot i d }

/-- The next statement of `eon_init` or `eon_exit`.  The driver core gives the driver up
when every device of it is gone. -/
def stepModule (s : ModuleState n) : Option (ModuleState n) :=
  match s.todo with
  | [] =>
    match s.phase with
    | .loading => some { s with phase := if (eonInit k).val = 0 then .loaded else .out }
    | .unloading => some { s with phase := .out }
    | .loaded | .out => none
  | u :: rest =>
    if u = .release .driver ∧ ∃ i, (s.slot i).phase ≠ .gone then none
    else some { s with todo := rest, held := applyUse s.held u }

/-- The core probes and removes devices from the registration of the driver on. -/
def stepBus (s : ModuleState n) : ModuleAction n → Option (ModuleState n)
  | .module => stepModule k s
  | .exit =>
    if s.phase = .loaded then some { s with phase := .unloading, todo := eonExit.trace }
    else none
  | .probe i a =>
    if s.held .driver = true ∧ (s.slot i).phase = .gone then
      some (s.setSlot i ⟨.probing, a, probeProgram a, .nothing⟩)
    else none
  | .remove i =>
    if (s.slot i).phase = .bound then
      some (s.setSlot i
        { s.slot i with
          phase := .removing
          todo := (eonRemove (eonProbe (s.slot i).answers).val.2).trace })
    else none
  | .device i => (s.slot i).step.map (s.setSlot i)

structure ModuleInitial (s : ModuleState n) : Prop where
  phase : s.phase = .loading
  todo : s.todo = (eonInit k).trace
  held : ∀ r, s.held r = false
  slot : ∀ i, (s.slot i).phase = .gone ∧ (s.slot i).todo = [] ∧ (s.slot i).live = .nothing

/-- The module from `eon_init` on, with `n` places for devices. -/
def modules (n : Nat) : StepSystem (ModuleState n) (ModuleAction n) where
  init := ModuleInitial k
  step := stepBus k

end

/-- A device, and each of its statements, has the driver, its class and its numbers.  A node
has its character device.  The module leaves nothing. -/
structure ModuleSafe {n : Nat} (s : ModuleState n) : Prop where
  served : ∀ i, (s.slot i).phase ≠ .gone → ∀ r, s.held r = true
  node : ∀ i, (s.slot i).live.held .node = true → (s.slot i).live.held .cdev = true
  cdev : ∀ i, (s.slot i).live.held .cdev = true → ∀ r, s.held r = true
  out : s.phase = .out → ∀ r, s.held r = false

/-! ## The statements of the module -/

/-- With the driver the module holds everything. -/
def DriverLast (held : ModuleResource → Bool) : Prop := held .driver = true → ∀ r, held r = true

inductive InitPath : Traced (Use ModuleResource) Int → Prop
  | numbers {code : Int} : code ≠ 0 → InitPath ⟨code, []⟩
  | cls {code : Int} : code ≠ 0 → InitPath ⟨code, [.acquire .region, .release .region]⟩
  | driver {code : Int} : code ≠ 0 →
      InitPath ⟨code, [.acquire .region, .acquire .cls, .acquire .driver, .release .driver,
        .release .cls, .release .region]⟩
  | done : InitPath ⟨0, [.acquire .region, .acquire .cls, .acquire .driver]⟩

theorem eonInit_path (k : InitAnswers) : InitPath (eonInit k) := by
  have hnone : ret none = 0 := rfl
  unfold eonInit
  rcases hregion : k.allocChrdevRegion with _ | e
  · rcases hclass : k.classCreate with _ | e
    · rcases hdriver : k.pciRegisterDriver with _ | e
      · simp only [hnone, pciRegisterDriver, hdriver]
        exact .done
      · have hcode : ret (some e) ≠ 0 := ret_ne_zero.mpr (by simp)
        simp only [hnone, pciRegisterDriver, hdriver, bind, pure, hcode, ne_eq, not_false_eq_true,
          not_true_eq_false, lt_irrefl, if_true, if_false]
        exact .driver hcode
    · have hcode : ret (some e) ≠ 0 := ret_ne_zero.mpr (by simp)
      simp only [hnone, bind, hcode, ne_eq, not_false_eq_true, lt_irrefl, if_true, if_false]
      exact .cls hcode
  · have hlt : ret (some e) < 0 := e.property.2
    simp only [hlt, if_true]
    exact .numbers (Int.ne_of_lt hlt)

theorem InitPath.along {c : Traced (Use ModuleResource) Int} (h : InitPath c) :
    Along applyUse DriverLast (fun _ => false) c.trace := by
  have hall : ∀ r : ModuleResource, r = .driver ∨ r = .cls ∨ r = .region := by
    rintro (_ | _ | _) <;> simp
  cases h <;> simp [DriverLast, applyUse, Function.update_apply, hall]

theorem InitPath.last {c : Traced (Use ModuleResource) Int} (h : InitPath c) (r : ModuleResource) :
    c.trace.foldl applyUse (fun _ => false) r = decide (c.val = 0) := by
  cases h <;> cases r <;> simp [applyUse, *]

theorem eonExit_along {held : ModuleResource → Bool} (h : ∀ r, held r = true) :
    Along applyUse DriverLast held eonExit.trace := by
  simp [eonExit, DriverLast, applyUse, h]

theorem eonExit_last (held : ModuleResource → Bool) (r : ModuleResource) :
    eonExit.trace.foldl applyUse held r = false := by
  cases r <;> simp [eonExit, applyUse]

/-! ## The node of a device -/

def NodeLast (l : Live) : Prop := l.held .node = true → l.held .cdev = true

theorem along_nodeLast {t : List Event}
    (ht : ∀ e ∈ t, e ≠ .use (.acquire .node) ∧ e ≠ .use (.release .cdev)) {l : Live}
    (h : NodeLast l) : Along Live.apply NodeLast l t := by
  refine Along.of_preserved (fun s e he hs => ?_) h
  obtain ⟨hcreate, hdelete⟩ := ht e he
  cases e with
  | use u =>
      cases u with
      | acquire r =>
          have hnode : Resource.node ≠ r := by
            rintro rfl
            exact hcreate rfl
          intro hn
          by_cases hr : Resource.cdev = r
          · simp [hr]
          · simpa [hr] using hs (by simpa [hnode] using hn)
      | release r =>
          have hcdev : Resource.cdev ≠ r := by
            rintro rfl
            exact hdelete rfl
          intro hn
          by_cases hr : Resource.node = r
          · simp [hr] at hn
          · simpa [hcdev] using hs (by simpa [hr] using hn)
  | dpuId => exact hs
  | number => exact hs
  | storeDpuDev => exact hs
  | shouldStop => exact hs

theorem trace_charDevFini :
    charDevFini.trace = [.use (.release .node), .use (.release .cdev)] := rfl

/-- `char_dev_fini` destroys the node before it deletes the character device. -/
theorem along_charDevFini {t u : List Event}
    (ht : ∀ e ∈ t, e ≠ .use (.acquire .node) ∧ e ≠ .use (.release .cdev))
    (hu : ∀ e ∈ u, e ≠ .use (.acquire .node) ∧ e ≠ .use (.release .cdev)) {l : Live}
    (h : NodeLast l) : Along Live.apply NodeLast l (t ++ (charDevFini.trace ++ u)) := by
  have hbefore := along_nodeLast ht h
  have hdestroyed : Along Live.apply NodeLast (t.foldl Live.apply l) charDevFini.trace := by
    refine ⟨hbefore.last, ?_, ?_⟩ <;> simp [NodeLast]
  rw [Along.append_iff, Along.append_iff]
  exact ⟨hbefore, hdestroyed, along_nodeLast hu hdestroyed.last⟩

theorem exitLabel_nodeLast (hdma : Contexts) {l : Live} (h : NodeLast l) :
    Along Live.apply NodeLast l (exitLabel hdma).trace := by
  have hlabel : (exitLabel hdma).trace =
      (exitEvents (setContexts hdma .wr) ++ exitEvents (setContexts hdma .rd) ++
        [Event.use (.release .thread), .use (.release .fifo)]) ++
        (charDevFini.trace ++ [.use (.release .vectors)]) := by
    simp [trace_exitLabel, trace_charDevFini]
  rw [hlabel]
  refine along_charDevFini ?_ (by simp) h
  simp [exitEvents, or_imp, forall_and]

theorem eonRemove_nodeLast (hdma : Contexts) {l : Live} (h : NodeLast l) :
    Along Live.apply NodeLast l (eonRemove hdma).trace := by
  have hremove : (eonRemove hdma).trace =
      ([Event.shouldStop, .use (.release .thread), .use (.release .irq),
          .use (.release .vectors)] ++ exitEvents (setContexts hdma .wr) ++
        exitEvents (setContexts hdma .rd) ++ [.use (.release .fifo)]) ++
        (charDevFini.trace ++ [.use (.release .vectors)]) := by
    simp [trace_eonRemove, trace_charDevFini]
  rw [hremove]
  refine along_charDevFini ?_ (by simp) h
  simp [exitEvents, or_imp, forall_and]

theorem ContextsPath.nodeLast {c : Traced Event (Int × Contexts)} (h : ContextsPath c) {l : Live}
    (hl : NodeLast l) : Along Live.apply NodeLast l c.trace := by
  cases h with
  | @failed code chs hdma _ _ =>
      have hinit := along_nodeLast (t := initEvents chs) (by simp [initEvents]) hl
      exact Along.append_iff.mpr ⟨hinit, exitLabel_nodeLast hdma hinit.last⟩
  | done _ _ => exact along_nodeLast (by simp [initEvents]) hl

section

variable {k : Answers}

theorem CharDevPath.nodeLast {c : Traced Event Int} (h : CharDevPath k c) {l : Live}
    (hl : l.held .node = false) : Along Live.apply NodeLast l c.trace := by
  cases h <;> simp [NodeLast, hl]

theorem IrqPath.node {c : Traced Event Int} (h : IrqPath k c) {l : Live}
    (hl : l.held .node = false) :
    Along Live.apply NodeLast l c.trace ∧ (c.trace.foldl Live.apply l).held .node = false := by
  by_cases hvec : k.pciAllocIrqVectors = none
  · cases h <;> simp [NodeLast, hl, vectorEvents, hvec]
  · cases h <;> simp [NodeLast, hl, vectorEvents, hvec]

theorem RestPath.nodeLast {c : Traced Event (Int × Contexts)} (h : RestPath k c) {l : Live}
    (hl : l.held .node = false) : Along Live.apply NodeLast l c.trace := by
  cases h with
  | charDev hchar _ =>
      have halong := hchar.nodeLast hl
      exact Along.append_iff.mpr ⟨halong, along_nodeLast (by simp [trace_errCharDev]) halong.last⟩
  | kfifo hchar _ =>
      have halong := hchar.nodeLast hl
      exact Along.append_iff.mpr ⟨halong,
        along_charDevFini (t := []) (u := [.use (.release .vectors)]) (by simp) (by simp)
          halong.last⟩
  | kthread hchar _ =>
      have halong := hchar.nodeLast hl
      exact Along.append_iff.mpr ⟨halong,
        along_charDevFini (t := [.use (.acquire .fifo), .use (.release .fifo)])
          (u := [.use (.release .vectors)]) (by simp) (by simp) halong.last⟩
  | contexts hchar _ hctx =>
      have halong := hchar.nodeLast hl
      have hfifo := along_nodeLast (t := [.use (.acquire .fifo)]) (by simp) halong.last
      refine Along.append_iff.mpr ⟨halong, halong.last, Along.append_iff.mpr ?_⟩
      have hthread := along_nodeLast
        (t := if k.kthreadRun = none then [.use (.acquire .thread)] else [])
        (by split <;> simp) hfifo.last
      exact ⟨hthread, hctx.nodeLast hthread.last⟩

theorem ProbePath.nodeLast {c : Traced Event (Int × Contexts)} (h : ProbePath k c) :
    Along Live.apply NodeLast .nothing c.trace := by
  have hnothing : NodeLast .nothing := by simp [NodeLast, Live.nothing]
  cases h with
  | early _ _ => exact hnothing
  | masks _ _ _ _ => exact exitLabel_nodeLast _ hnothing
  | irq _ hirq _ => exact ⟨hnothing, (hirq.node rfl).1⟩
  | rest _ hirq hrest =>
      obtain ⟨halong, hnode⟩ := hirq.node (l := .nothing) rfl
      exact ⟨hnothing, Along.append_iff.mpr ⟨halong, hrest.nodeLast hnode⟩⟩

theorem probeProgram_nodeLast (k : Answers) :
    Along Live.apply NodeLast .nothing (probeProgram k) := by
  have halong := (eonProbe_path k).nodeLast
  refine Along.append_iff.mpr ⟨halong, along_nodeLast ?_ halong.last⟩
  rw [devres]
  split
  · simp
  · split <;> simp

end

/-! ## One device -/

structure SlotInv (d : Slot) : Prop where
  along : Along Live.apply NodeLast d.live d.todo
  probing : d.phase = .probing → (eonProbe d.answers).val.1 ≠ 0 →
    (d.todo.foldl Live.apply d.live).held .cdev = false
  removing : d.phase = .removing → (d.todo.foldl Live.apply d.live).held .cdev = false
  gone : d.phase = .gone → d.todo = [] ∧ d.live.held .cdev = false

theorem SlotInv.probe (k : Answers) : SlotInv ⟨.probing, k, probeProgram k, .nothing⟩ where
  along := probeProgram_nodeLast k
  probing _ hcode := (probeProgram_gone hcode).cdev
  removing := nofun
  gone := nofun

theorem SlotInv.remove {d : Slot} (h : SlotInv d) :
    SlotInv { d with
      phase := .removing
      todo := (eonRemove (eonProbe d.answers).val.2).trace } where
  along := eonRemove_nodeLast _ h.along.head
  probing := nofun
  removing _ := (eonRemove_gone _ _).cdev
  gone := nofun

theorem Slot.step_cases {d d' : Slot} (h : d.step = some d') :
    (d.todo = [] ∧ d.phase = .probing ∧
        d' = { d with phase := if (eonProbe d.answers).val.1 = 0 then .bound else .gone }) ∨
      (d.todo = [] ∧ d.phase = .removing ∧ d' = { d with phase := .gone }) ∨
      ∃ e rest, d.todo = e :: rest ∧ d' = { d with todo := rest, live := d.live.apply e } := by
  unfold Slot.step at h
  split at h
  · rename_i htodo
    split at h
    · rename_i hphase
      exact Or.inl ⟨htodo, hphase, (Option.some.inj h).symm⟩
    · rename_i hphase
      exact Or.inr (Or.inl ⟨htodo, hphase, (Option.some.inj h).symm⟩)
    · cases h
    · cases h
  · rename_i e rest htodo
    exact Or.inr (Or.inr ⟨e, rest, htodo, (Option.some.inj h).symm⟩)

theorem SlotInv.not_gone {d d' : Slot} (h : SlotInv d) (hst : d.step = some d') :
    d.phase ≠ .gone := by
  rcases Slot.step_cases hst with ⟨-, hphase, -⟩ | ⟨-, hphase, -⟩ | ⟨e, rest, htodo, -⟩
  · simp [hphase]
  · simp [hphase]
  · intro hp
    rw [(h.gone hp).1] at htodo
    cases htodo

theorem SlotInv.step {d d' : Slot} (h : SlotInv d) (hst : d.step = some d') : SlotInv d' := by
  have hgone := h.not_gone hst
  rcases Slot.step_cases hst with ⟨htodo, hphase, rfl⟩ | ⟨htodo, hphase, rfl⟩ |
    ⟨e, rest, htodo, rfl⟩
  · have hprobing := h.probing hphase
    rw [htodo] at hprobing
    by_cases hcode : (eonProbe d.answers).val.1 = 0
    · simp only [hcode, if_true]
      exact ⟨h.along, nofun, nofun, nofun⟩
    · simp only [hcode, if_false]
      exact ⟨h.along, nofun, nofun, fun _ => ⟨htodo, hprobing hcode⟩⟩
  · have hremoving := h.removing hphase
    rw [htodo] at hremoving
    exact ⟨h.along, nofun, nofun, fun _ => ⟨htodo, hremoving⟩⟩
  · have halong := h.along
    have hprobing := h.probing
    have hremoving := h.removing
    rw [htodo] at halong hprobing hremoving
    exact ⟨halong.2, hprobing, hremoving, fun hp => absurd hp hgone⟩

/-! ## All of them -/

section

variable {n : Nat} {k : InitAnswers} {s t : ModuleState n}

structure ModuleInv (k : InitAnswers) (s : ModuleState n) : Prop where
  along : Along applyUse DriverLast s.held s.todo
  loading : s.phase = .loading → ∀ r,
    s.todo.foldl applyUse s.held r = decide ((eonInit k).val = 0)
  loaded : s.phase = .loaded → s.todo = [] ∧ ∀ r, s.held r = true
  unloading : s.phase = .unloading → ∀ r, s.todo.foldl applyUse s.held r = false
  out : s.phase = .out → s.todo = [] ∧ ∀ r, s.held r = false
  slot : ∀ i, SlotInv (s.slot i)
  driver : ∀ i, (s.slot i).phase ≠ .gone → s.held .driver = true

theorem ModuleInv.initial (h : ModuleInitial k s) : ModuleInv k s := by
  have hheld : s.held = fun _ => false := funext h.held
  have hslot : ∀ i, SlotInv (s.slot i) := by
    intro i
    obtain ⟨hphase, htodo, hlive⟩ := h.slot i
    refine ⟨?_, by simp [hphase], by simp [hphase], fun _ => ⟨htodo, by rw [hlive]; rfl⟩⟩
    rw [htodo, hlive]
    simp [NodeLast, Live.nothing]
  refine ⟨?_, ?_, by simp [h.phase], by simp [h.phase], by simp [h.phase], hslot,
    fun i hi => absurd (h.slot i).1 hi⟩
  · rw [hheld, h.todo]
    exact (eonInit_path k).along
  · rw [hheld, h.todo]
    exact fun _ => (eonInit_path k).last

/-- A step of one device, which was not gone or finds the driver. -/
theorem ModuleInv.setSlot (h : ModuleInv k s) {i : Fin n} {d : Slot} (hd : SlotInv d)
    (hdriver : s.held .driver = true) : ModuleInv k (s.setSlot i d) := by
  refine ⟨h.along, h.loading, h.loaded, h.unloading, h.out, fun j => ?_, fun _ _ => hdriver⟩
  show SlotInv (Function.update s.slot i d j)
  by_cases hj : j = i
  · rw [hj, Function.update_self]
    exact hd
  · rw [Function.update_of_ne hj]
    exact h.slot j

theorem applyUse_driver {held : ModuleResource → Bool} {u : Use ModuleResource}
    (hu : u ≠ .release .driver) (h : held .driver = true) : applyUse held u .driver = true := by
  cases u with
  | acquire r => by_cases hr : ModuleResource.driver = r <;> simp [applyUse, hr, h]
  | release r =>
      have hr : ModuleResource.driver ≠ r := by
        rintro rfl
        exact hu rfl
      simp [applyUse, hr, h]

theorem stepModule_cases (h : stepModule k s = some t) :
    (s.todo = [] ∧ s.phase = .loading ∧
        t = { s with phase := if (eonInit k).val = 0 then .loaded else .out }) ∨
      (s.todo = [] ∧ s.phase = .unloading ∧ t = { s with phase := .out }) ∨
      ∃ u rest, s.todo = u :: rest ∧
        (u = .release .driver → ∀ i, (s.slot i).phase = .gone) ∧
        t = { s with todo := rest, held := applyUse s.held u } := by
  unfold stepModule at h
  split at h
  · rename_i htodo
    split at h
    · rename_i hphase
      exact Or.inl ⟨htodo, hphase, (Option.some.inj h).symm⟩
    · rename_i hphase
      exact Or.inr (Or.inl ⟨htodo, hphase, (Option.some.inj h).symm⟩)
    · cases h
    · cases h
  · rename_i u rest htodo
    obtain ⟨hfree, h⟩ := Option.ite_none_left_eq_some.mp h
    refine Or.inr (Or.inr ⟨u, rest, htodo, fun hu i => ?_, (Option.some.inj h).symm⟩)
    by_contra hi
    exact hfree ⟨hu, i, hi⟩

theorem ModuleInv.module (h : ModuleInv k s) (hst : stepModule k s = some t) :
    ModuleInv k t := by
  rcases stepModule_cases hst with ⟨htodo, hphase, rfl⟩ | ⟨htodo, hphase, rfl⟩ |
    ⟨u, rest, htodo, hfree, rfl⟩
  · have hloading := h.loading hphase
    rw [htodo] at hloading
    by_cases hcode : (eonInit k).val = 0
    · simp only [hcode, decide_true, if_true] at hloading ⊢
      exact ⟨h.along, nofun, fun _ => ⟨htodo, hloading⟩, nofun, nofun, h.slot, h.driver⟩
    · simp only [hcode, decide_false, if_false] at hloading ⊢
      exact ⟨h.along, nofun, nofun, nofun, fun _ => ⟨htodo, hloading⟩, h.slot, h.driver⟩
  · have hunloading := h.unloading hphase
    rw [htodo] at hunloading
    exact ⟨h.along, nofun, nofun, nofun, fun _ => ⟨htodo, hunloading⟩, h.slot, h.driver⟩
  · have halong := h.along
    have hloading := h.loading
    have hunloading := h.unloading
    have hloaded := fun hp => (h.loaded hp).1
    have hout := fun hp => (h.out hp).1
    rw [htodo] at halong hloading hunloading hloaded hout
    refine ⟨halong.2, hloading, fun hp => absurd (hloaded hp) (List.cons_ne_nil _ _), hunloading,
      fun hp => absurd (hout hp) (List.cons_ne_nil _ _), h.slot, fun i hi => ?_⟩
    exact applyUse_driver (fun hu => hi (hfree hu i)) (h.driver i hi)

theorem ModuleInv.step (h : ModuleInv k s) {a : ModuleAction n} (hst : stepBus k s a = some t) :
    ModuleInv k t := by
  cases a with
  | module => exact h.module hst
  | exit =>
      obtain ⟨hphase, hst⟩ := Option.ite_none_right_eq_some.mp hst
      obtain rfl := Option.some.inj hst
      have hall := (h.loaded hphase).2
      exact ⟨eonExit_along hall, nofun, nofun,
        fun _ => eonExit_last _, nofun, h.slot, h.driver⟩
  | probe i a =>
      obtain ⟨⟨hdriver, -⟩, hst⟩ := Option.ite_none_right_eq_some.mp hst
      obtain rfl := Option.some.inj hst
      exact h.setSlot (.probe a) hdriver
  | remove i =>
      obtain ⟨hphase, hst⟩ := Option.ite_none_right_eq_some.mp hst
      obtain rfl := Option.some.inj hst
      exact h.setSlot (h.slot i).remove (h.driver i (by simp [hphase]))
  | device i =>
      obtain ⟨d, hd, rfl⟩ := Option.map_eq_some_iff.mp hst
      exact h.setSlot ((h.slot i).step hd) (h.driver i ((h.slot i).not_gone hd))

theorem ModuleInv.safe (h : ModuleInv k s) : ModuleSafe s := by
  have hserved : ∀ i, (s.slot i).phase ≠ .gone → ∀ r, s.held r = true :=
    fun i hi => h.along.head (h.driver i hi)
  refine ⟨hserved, fun i => (h.slot i).along.head, fun i hi => hserved i fun hp => ?_,
    fun hp => (h.out hp).2⟩
  rw [((h.slot i).gone hp).2] at hi
  cases hi

/-- Whatever the kernel answers to the module and to its devices, probed and removed in any
order and next to each other. -/
theorem moduleSafe_of_reachable (h : (modules k n).Reachable s) : ModuleSafe s :=
  (h.invariant (I := ModuleInv k) (fun _ hi => .initial hi)
    fun s a t hs (hst : stepBus k s a = some t) => hs.step hst).safe

end

def noContext : Answers := { granting with kzallocHdma := fun _ => true }

/-- `eon_exit` waits for the removal of one device; the probe of another has failed. -/
theorem unloading_keeps_class :
    ∃ s, (modules ⟨none, none, none⟩ 2).Reachable s ∧ s.phase = .unloading ∧
      (s.slot 0).live.held .node = true ∧ (s.slot 1).phase = .gone ∧ ModuleSafe s := by
  obtain ⟨s, hs, hphase, hnode, hgone⟩ := StepSystem.exists_reachVia
    (S := modules ⟨none, none, none⟩ 2) (g := fun _ _ => True)
    (s := ⟨.loading, (eonInit ⟨none, none, none⟩).trace, fun _ => false,
      fun _ => ⟨.gone, granting, [], .nothing⟩⟩)
    (fun s => s.phase = .unloading ∧ (s.slot 0).live.held .node = true ∧
      (s.slot 1).phase = .gone)
    (List.replicate 4 .module ++ [.probe 0 granting, .probe 1 noContext] ++
      (List.replicate 16 [ModuleAction.device 0, .device 1]).flatten ++
      List.replicate 26 (.device 0) ++ [.exit, .remove 0] ++ List.replicate 37 (.device 0))
    (.start ⟨rfl, rfl, fun _ => rfl, fun _ => ⟨rfl, rfl, rfl⟩⟩) (by decide +kernel)
  exact ⟨s, hs, hphase, hnode, hgone, moduleSafe_of_reachable hs⟩

end EonDrv.Lifecycle

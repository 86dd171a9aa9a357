import EonDrv.Completion.System
import EonDrv.Lifecycle.Probe

/-!
# Lifetimes

`eon_probe` and `eon_remove` statement by statement beside the interrupt handler, the
completion thread and the ioctls on the character device.  A step marks the state when it
touches an object that is not alive.
-/

namespace EonDrv.Lifecycle

open Completion (HdmaRequest ReqPc KthreadPc Call)

/-- What the statements so far have left: the resources held, and whether
`ctx->dpu_dev` is stored. -/
structure Live where
  held : Resource → Bool
  dpuDev : Bool

namespace Live

def nothing : Live := ⟨fun _ => false, false⟩

def apply (l : Live) : Event → Live
  | .use (.acquire r) => { l with held := Function.update l.held r true }
  | .use (.release r) => { l with held := Function.update l.held r false }
  | .storeDpuDev => { l with dpuDev := true }
  | .dpuId | .number | .shouldStop => l

end Live

inductive Phase
  | probing
  | bound
  | removing
  | gone
  deriving DecidableEq

/-- Of the file of a request: not opened yet, opened, or in `device_ioctl`. -/
inductive FilePc
  | closed
  | opened
  | inIoctl
  deriving DecidableEq

/-- `todo` is what the running `eon_probe` or `eon_remove` still does, and `ran` what was
done since the probe began. -/
structure Lifetime where
  comp : Completion.State
  phase : Phase
  todo : List Event
  ran : List Event
  live : Live
  file : Nat → FilePc
  faulted : Bool

inductive LifeAction
  | kernel
  | remove
  | irq
  | thread
  | openFile (r : Nat)
  | ioctl (r : Nat)
  | request (r : Nat)
  | fail (r : Nat) (ret : Int)
  | expire (r : Nat)
  | interrupt (r : Nat)
  | raise (ch : Chan) (o : Option Call) (bits : BitVec 32)

/-! ## Uses -/

inductive Object
  | fifo
  | context (ch : Chan)
  | dpuDev
  deriving DecidableEq

def Live.has (l : Live) : Object → Bool
  | .fifo => l.held .fifo
  | .context ch => l.held (.context ch)
  | .dpuDev => l.dpuDev

def kthreadTouches : KthreadPc → List Object
  | .wait | .whileTop | .popTokens | .extraTop => [.fifo]
  | .read _ ch | .store _ ch _ | .clear _ ch _ | .wake _ ch _ => [.context ch]
  | .outerEnd | .exited => []

/-- Setup and teardown read `hdma_dev->dpu_dev` of the data channel. -/
def requestTouches (q : HdmaRequest) : ReqPc → List Object
  | .setupSg | .setDesc | .batch _ | .teardownDesc _ => [.context (q.chan .data)]
  | .lock st | .program st _ | .setRunning st | .doorbell st | .wait st _ | .unlock st _ =>
    [.context (q.chan st)]
  | .teardownSg _ | .done _ => []

section

variable (reqs : Nat → HdmaRequest) (k : Answers)

def touches (s : Lifetime) : LifeAction → List Object
  | .irq => [.fifo]
  | .thread => kthreadTouches s.comp.thread.pc
  | .openFile _ => [.dpuDev]
  | .ioctl r => [.context ((reqs r).chan .upload), .context ((reqs r).chan .data)]
  | .request r | .fail r _ => requestTouches (reqs r) (s.comp.req r)
  | .kernel | .remove | .expire _ | .interrupt _ | .raise .. => []

/-! ## Steps -/

/-- A failed probe is followed by what the kernel undoes. -/
def probeProgram : List Event :=
  (eonProbe k).trace ++
    if (eonProbe k).val.1 = 0 then [] else (devres (uses (eonProbe k).trace)).map .use

/-- The next statement of `eon_probe` or `eon_remove`.  `kthread_stop` sets its flag and
then waits until the thread has returned. -/
def stepKernel (s : Lifetime) : Option Lifetime :=
  match s.todo with
  | [] =>
    match s.phase with
    | .probing =>
      some { s with phase := if (eonProbe k).val.1 = 0 then .bound else .gone }
    | .removing => some { s with phase := .gone }
    | .bound | .gone => none
  | e :: rest =>
    if e = .use (.release .thread) ∧ s.live.held .thread = true ∧
        s.comp.thread.pc ≠ .exited then
      if s.comp.kthreadShouldStop then none
      else some { s with comp := { s.comp with kthreadShouldStop := true } }
    else
      let t := { s with todo := rest, ran := s.ran ++ [e], live := s.live.apply e }
      if e = .shouldStop then some { t with comp := { s.comp with shouldStopFlag := true } }
      else some t

def stepRemove (s : Lifetime) : Option Lifetime :=
  if s.phase = .bound then
    some { s with phase := .removing, todo := (eonRemove (eonProbe k).val.2).trace }
  else none

def stepComp (s : Lifetime) (a : Completion.Action) : Option Lifetime :=
  (Completion.step reqs s.comp a).map fun c => { s with comp := c }

/-- The steps of the other parties.  The thread runs from `kthread_run` until it returns. -/
def stepUser (s : Lifetime) : LifeAction → Option Lifetime
  | .kernel | .remove => none
  | .irq => if s.live.held .irq then stepComp reqs s .irq else none
  | .thread => if .use (.acquire .thread) ∈ s.ran then stepComp reqs s .thread else none
  | .openFile r =>
    if s.live.held .cdev ∧ s.file r = .closed then
      some { s with file := Function.update s.file r .opened }
    else none
  | .ioctl r =>
    if s.file r = .opened then some { s with file := Function.update s.file r .inIoctl }
    else none
  | .request r => if s.file r = .inIoctl then stepComp reqs s (.request r) else none
  | .fail r ret => if s.file r = .inIoctl then stepComp reqs s (.fail r ret) else none
  | .expire r => if s.file r = .inIoctl then stepComp reqs s (.expire r) else none
  | .interrupt r => if s.file r = .inIoctl then stepComp reqs s (.interrupt r) else none
  | .raise ch o bits => stepComp reqs s (.raise ch o bits)

def stepLife (s : Lifetime) (a : LifeAction) : Option Lifetime :=
  match a with
  | .kernel => stepKernel k s
  | .remove => stepRemove k s
  | a =>
    (stepUser reqs s a).map fun t =>
      { t with faulted := s.faulted || (touches reqs s a).any fun o => !s.live.has o }

structure LifeInitial (s : Lifetime) : Prop where
  comp : Completion.Initial s.comp
  phase : s.phase = .probing
  todo : s.todo = probeProgram k
  ran : s.ran = []
  live : s.live = .nothing
  file : ∀ r, s.file r = .closed
  faulted : s.faulted = false

def lifetimes : StepSystem Lifetime LifeAction where
  init := LifeInitial k
  step := stepLife reqs k

/-! ## The condition -/

/-- Behind the statement that takes `r`, and not behind one that gives it back. -/
def Between (r : Resource) (t : List Event) : Prop :=
  .use (.acquire r) ∈ t ∧ .use (.release r) ∉ t

instance (r : Resource) (t : List Event) : Decidable (Between r t) :=
  inferInstanceAs (Decidable (_ ∧ _))

/-- The channels that a list of uses names were initialised and not exited yet. -/
def ContextsBetween (s : Lifetime) (os : List Object) : Prop :=
  ∀ o ∈ os, ∀ ch, o = .context ch → Between (.context ch) s.ran

instance (s : Lifetime) (os : List Object) : Decidable (ContextsBetween s os) :=
  have : DecidablePred fun o : Object => ∀ ch, o = .context ch → Between (.context ch) s.ran
    | .context ch =>
      decidable_of_iff (Between (.context ch) s.ran)
        ⟨fun h _ he => Object.context.inj he ▸ h, fun h => h ch rfl⟩
    | .fifo => .isTrue fun _ he => nomatch he
    | .dpuDev => .isTrue fun _ he => nomatch he
  inferInstanceAs (Decidable (∀ o ∈ os, _))

/-- While `eon_probe` runs, every party comes after the statement that it needs and
before that which undoes it.  Behind it `kfifo_alloc` has succeeded, and an ioctl on a file
that is still open comes neither in the removal nor behind a failed probe, unless its
channel stands there. -/
def Timely (s : Lifetime) (a : LifeAction) : Prop :=
  match a with
  | .irq => if s.phase = .probing then Between .fifo s.ran else k.kfifoAlloc = none
  | .thread => s.phase = .probing → ContextsBetween s (touches reqs s a)
  | .openFile _ => s.phase = .probing → .storeDpuDev ∈ s.ran
  | .ioctl _ | .request _ | .fail .. =>
    if s.phase = .bound then k.kfifoAlloc = none else ContextsBetween s (touches reqs s a)
  | .kernel | .remove | .expire _ | .interrupt _ | .raise .. => True

instance (s : Lifetime) (a : LifeAction) : Decidable (Timely reqs k s a) :=
  match a with
  | .irq => inferInstanceAs (Decidable (ite ..))
  | .thread => inferInstanceAs (Decidable (_ → _))
  | .openFile _ => inferInstanceAs (Decidable (_ → _))
  | .ioctl _ | .request _ | .fail .. => inferInstanceAs (Decidable (ite ..))
  | .kernel | .remove | .expire _ | .interrupt _ | .raise .. =>
    inferInstanceAs (Decidable True)

end

def atProbe (k : Answers) (comp : Completion.State) : Lifetime :=
  ⟨comp, .probing, probeProgram k, [], .nothing, fun _ => .closed, false⟩

theorem atProbe_initial {comp : Completion.State} (h : Completion.Initial comp) (k : Answers) :
    LifeInitial k (atProbe k comp) :=
  ⟨h, rfl, rfl, rfl, rfl, fun _ => rfl, rfl⟩

end EonDrv.Lifecycle

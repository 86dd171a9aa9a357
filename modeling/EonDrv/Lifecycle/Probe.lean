import EonDrv.Driver.Types
import EonDrv.Support.Ledger
import EonDrv.Support.Traced

/-!
# Probe and remove

`eon_probe` and `eon_remove` with the functions they call, statement by statement:
what they take from the kernel and give back, and what else the other parties can see
of them.  The answers of the kernel are parameters, one for each place of a call.
-/

namespace EonDrv.Lifecycle

open Ledger (Use)
open Traced (emit emitAll)

abbrev Errno := { e : Int // -4095 ≤ e ∧ e < 0 }

def ret : Option Errno → Int
  | none => 0
  | some e => e.val

inductive Pointer
  | valid
  | null
  | error (e : Errno)
  deriving DecidableEq

def eperm : Int := 1
def enomem : Int := 12

/-- What the kernel answers.  A flag is true when an allocation answers `NULL`.
`uninit` is what the pointers of an unset `eon_dev` show. -/
structure Answers where
  pcimEnableDevice : Option Errno
  pcimIomapRegions : Option Errno
  dmaMask64 : Option Errno
  coherentMask64 : Option Errno
  dmaMask32 : Option Errno
  coherentMask32 : Option Errno
  uninit : Chan → Bool
  devmKzalloc : Bool
  pciAllocIrqVectors : Option Errno
  devmRequestIrq : Option Errno
  kzallocCtx : Bool
  cdevAdd : Option Errno
  deviceCreate : Pointer
  kfifoAlloc : Option Errno
  kthreadRun : Option Errno
  kzallocHdma : Chan → Bool

inductive Resource
  | vectors
  | irq
  | cdev
  | node
  | fifo
  | thread
  | context (ch : Chan)
  deriving DecidableEq

/-- A statement that another party can see: a use of a resource, the call of
`get_dpu_id`, the device number passed to `cdev_add`, and the two stores that open and
the thread read. -/
inductive Event
  | use (u : Use Resource)
  | dpuId
  | number
  | storeDpuDev
  | shouldStop
  deriving DecidableEq

def acquire (r : Resource) : Traced Event Unit := emit (.use (.acquire r))
def release (r : Resource) : Traced Event Unit := emit (.use (.release r))

abbrev Contexts := Chan → Bool

section

variable (k : Answers)

/-- Without the 64-bit mask the code of the 32-bit one is not returned. -/
def setDmaMask : Int :=
  match k.dmaMask64 with
  | none => ret k.coherentMask64
  | some _ =>
    match k.dmaMask32 with
    | none => ret k.coherentMask32
    | some _ => 0

/-! ## Interrupts -/

/-- `eon->irqs` keeps eight bits of the count, or of the code. -/
def irqs : BitVec 8 :=
  match k.pciAllocIrqVectors with
  | none => 1#8
  | some e => BitVec.ofInt 8 e.val

def eonIrqInit : Traced Event Int := do
  if k.pciAllocIrqVectors = none then
    acquire .vectors
  if irqs k < 1#8 then
    return -eperm
  if ret k.devmRequestIrq ≠ 0 then
    release .vectors
    return ret k.devmRequestIrq
  acquire .irq
  return 0

def eonIrqFini : Traced Event Unit := do
  release .irq
  release .vectors

/-! ## Character device -/

/-- A failed `device_create` answers an error pointer, which is not `NULL`; after a
`NULL` the label returns the 0 of `cdev_add`. -/
def charDevInit : Traced Event Int := do
  if k.kzallocCtx then
    return -eperm
  emit .number
  let ret := ret k.cdevAdd
  if ret < 0 then
    return ret
  acquire .cdev
  match k.deviceCreate with
  | .null =>
    release .cdev
    return ret
  | .valid =>
    acquire .node
    emit .storeDpuDev
    return 0
  | .error _ =>
    emit .storeDpuDev
    return 0

def charDevFini : Traced Event Unit := do
  release .node
  release .cdev

/-! ## Channels -/

def hdmaInit (ch : Chan) : Traced Event Int := do
  if k.kzallocHdma ch then
    return -eperm
  acquire (.context ch)
  return 0

/-- The loop over the channels of one direction. -/
def initContexts (rw : RwType) : List (Fin maxHdmaNumber) → Contexts → Traced Event (Int × Contexts)
  | [], hdma => return (0, hdma)
  | i :: rest, hdma => do
    let ret ← hdmaInit k ⟨rw, i⟩
    if ret ≠ 0 then
      return (ret, hdma)
    initContexts rw rest (Function.update hdma ⟨rw, i⟩ true)

def setContexts (hdma : Contexts) (rw : RwType) : List Chan :=
  ((List.finRange maxHdmaNumber).map (Chan.mk rw)).filter hdma

def exitContexts (hdma : Contexts) (rw : RwType) : Traced Event Unit :=
  emitAll ((setContexts hdma rw).map fun ch => .use (.release (.context ch)))

/-! ## The labels -/

def kthreadStop : Traced Event Unit := release .thread

def errCharDev : Traced Event Unit := release .vectors

def errKfifo : Traced Event Unit := do
  charDevFini
  errCharDev

def errKthreadRun : Traced Event Unit := do
  release .fifo
  errKfifo

def exitLabel (hdma : Contexts) : Traced Event Unit := do
  exitContexts hdma .wr
  exitContexts hdma .rd
  kthreadStop
  errKthreadRun

/-! ## Probe -/

/-- The loops at the end of `eon_probe`. -/
def probeContexts : Traced Event (Int × Contexts) := do
  let (ret, hdma) ← initContexts k .rd (List.finRange maxHdmaNumber) fun _ => false
  if ret ≠ 0 then
    exitLabel hdma
    return (ret, hdma)
  let (ret, hdma) ← initContexts k .wr (List.finRange maxHdmaNumber) hdma
  if ret ≠ 0 then
    exitLabel hdma
    return (ret, hdma)
  return (0, hdma)

/-- Behind `eon_irq_init`.  A failed `kfifo_alloc` leaves `ret` at 0, and the pointer of
the thread is compared with one error. -/
def probeRest : Traced Event (Int × Contexts) := do
  let ret' ← charDevInit k
  if ret' ≠ 0 then
    errCharDev
    return (ret', fun _ => false)
  if ret k.kfifoAlloc ≠ 0 then
    errKfifo
    return (ret', fun _ => false)
  acquire .fifo
  if ret k.kthreadRun = -enomem then
    errKthreadRun
    return (-enomem, fun _ => false)
  if k.kthreadRun = none then
    acquire .thread
  probeContexts k

def eonProbe : Traced Event (Int × Contexts) := do
  if ret k.pcimEnableDevice ≠ 0 then
    return (ret k.pcimEnableDevice, fun _ => false)
  if ret k.pcimIomapRegions ≠ 0 then
    return (ret k.pcimIomapRegions, fun _ => false)
  if setDmaMask k ≠ 0 then
    -- `goto exit` with `eon_dev` unset
    exitLabel k.uninit
    return (setDmaMask k, fun _ => false)
  if k.devmKzalloc then
    return (-eperm, fun _ => false)
  emit .dpuId
  let ret ← eonIrqInit k
  if ret ≠ 0 then
    return (ret, fun _ => false)
  probeRest k

end

/-! ## Remove -/

def eonRemove (hdma : Contexts) : Traced Event Unit := do
  emit .shouldStop
  kthreadStop
  eonIrqFini
  exitContexts hdma .wr
  exitContexts hdma .rd
  release .fifo
  charDevFini
  release .vectors

/-! ## Ledgers -/

def uses (t : List Event) : List (Use Resource) :=
  t.filterMap fun
    | .use u => some u
    | _ => none

/-- After a failed probe the kernel undoes what `devm_request_irq` took. -/
def devres (t : List (Use Resource)) : List (Use Resource) :=
  if .acquire .irq ∈ t ∧ .release .irq ∉ t then [.release .irq] else []

@[simp] theorem uses_nil : uses [] = [] := rfl

@[simp] theorem uses_use (u : Use Resource) (t : List Event) :
    uses (.use u :: t) = u :: uses t := rfl

@[simp] theorem uses_other {e : Event} (h : ∀ u, e ≠ .use u) (t : List Event) :
    uses (e :: t) = uses t := by
  cases e with
  | use u => exact absurd rfl (h u)
  | dpuId => rfl
  | number => rfl
  | storeDpuDev => rfl
  | shouldStop => rfl

@[simp] theorem uses_append (s t : List Event) : uses (s ++ t) = uses s ++ uses t :=
  List.filterMap_append

@[simp] theorem uses_map_use (us : List (Use Resource)) : uses (us.map .use) = us := by
  induction us with
  | nil => rfl
  | cons u rest ih => rw [List.map_cons, uses_use, ih]

theorem mem_uses {u : Use Resource} {t : List Event} : u ∈ uses t ↔ .use u ∈ t := by
  induction t with
  | nil => simp
  | cons e rest ih =>
      cases e <;> simp [ih]

@[simp] theorem uses_acquire (r : Resource) : uses (acquire r).trace = [.acquire r] := rfl

@[simp] theorem uses_release (r : Resource) : uses (release r).trace = [.release r] := rfl

def granting : Answers where
  pcimEnableDevice := none
  pcimIomapRegions := none
  dmaMask64 := none
  coherentMask64 := none
  dmaMask32 := none
  coherentMask32 := none
  uninit _ := false
  devmKzalloc := false
  pciAllocIrqVectors := none
  devmRequestIrq := none
  kzallocCtx := false
  cdevAdd := none
  deviceCreate := .valid
  kfifoAlloc := none
  kthreadRun := none
  kzallocHdma _ := false

end EonDrv.Lifecycle

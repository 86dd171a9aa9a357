import Mathlib.Logic.Function.Basic

/-!
# Streaming DMA mappings

A buffer that the CPU maps for a device.  With direct mapping the device works on
the bytes of the CPU.  With bounce buffers it works on a slot, which the mapping fills
when its direction goes to the device and which unmapping copies back when its
direction comes from it.
-/

namespace Streaming

inductive Layer
  | direct
  | bounce
  deriving DecidableEq

structure Direction where
  toDevice : Bool
  fromDevice : Bool

/-- What the CPU sees of a buffer, and what its slot holds. -/
structure Buffer (ι β : Type*) where
  cpu : ι → β
  slot : ι → β

namespace Buffer

variable {ι β : Type*}

def map (dir : Direction) (b : Buffer ι β) : Buffer ι β :=
  if dir.toDevice then { b with slot := b.cpu } else b

def store (f : (ι → β) → ι → β) (b : Buffer ι β) : Buffer ι β := { b with cpu := f b.cpu }

def fetch (l : Layer) (b : Buffer ι β) : ι → β :=
  match l with
  | .direct => b.cpu
  | .bounce => b.slot

/-- Overwrite a memory with the bytes that are given. -/
def overlay (w : ι → Option β) (mem : ι → β) : ι → β := fun i => (w i).getD (mem i)

def deviceStore (l : Layer) (w : ι → Option β) (b : Buffer ι β) : Buffer ι β :=
  match l with
  | .direct => { b with cpu := overlay w b.cpu }
  | .bounce => { b with slot := overlay w b.slot }

def unmap (l : Layer) (dir : Direction) (b : Buffer ι β) : Buffer ι β :=
  match l with
  | .direct => b
  | .bounce => if dir.fromDevice then { b with cpu := b.slot } else b

variable (dir : Direction) (b : Buffer ι β)

@[simp] theorem map_cpu : (b.map dir).cpu = b.cpu := by
  unfold map
  split <;> rfl

theorem map_slot : (b.map dir).slot = if dir.toDevice then b.cpu else b.slot := by
  unfold map
  split <;> rfl

/-- What is written behind a mapping reaches the device through the CPU's bytes only. -/
theorem fetch_direct_store (f : (ι → β) → ι → β) :
    ((b.map dir).store f).fetch .direct = f b.cpu := by
  show f (b.map dir).cpu = f b.cpu
  rw [map_cpu]

theorem fetch_bounce_store (f : (ι → β) → ι → β) :
    ((b.map dir).store f).fetch .bounce = if dir.toDevice then b.cpu else b.slot :=
  map_slot dir b

/-- What the device writes reaches the CPU only by unmapping. -/
@[simp] theorem cpu_deviceStore_direct (w : ι → Option β) :
    (b.deviceStore .direct w).cpu = overlay w b.cpu := rfl

@[simp] theorem cpu_deviceStore_bounce (w : ι → Option β) :
    (b.deviceStore .bounce w).cpu = b.cpu := rfl

end Buffer

end Streaming

import EonDrv.Descriptor.Elements
import EonDrv.Support.Ledger
import EonDrv.Support.Traced

/-!
# Kernel calls of a request

What the kernel answers to the calls that one ioctl makes, one field for each
place of a call, and what the calls take and give back.
-/

namespace EonDrv.Ioctl

open Ledger (Use)
open Traced (emit)

/-! ## Resources -/

inductive Resource
  | kmem (p : Ptr)
  | vmem (p : Ptr)
  | page (p : Ptr)
  | sgTable (sgt : Ptr)
  | sgMapping (sgt : Ptr)
  | singleMapping (addr size : BitVec 64) (dir : DmaDir)
  | hdmaLock (ch : Chan)
  | conbarLock
  deriving DecidableEq

inductive Effect
  | use (u : Use Resource)
  | write (ch : Chan) (w : HdmaReg × BitVec 32)

def acquire (r : Resource) : Traced Effect Unit := emit (.use (.acquire r))
def release (r : Resource) : Traced Effect Unit := emit (.use (.release r))

def alloc (kind : Ptr → Resource) (p : Ptr) : Traced Effect Ptr :=
  ⟨p, if p = 0#64 then [] else [.use (.acquire (kind p))]⟩

/-- `kfree`, `vfree`, and a guarded `put_page`, of `p`. -/
def free (kind : Ptr → Resource) (p : Ptr) : Traced Effect Unit :=
  ⟨(), if p = 0#64 then [] else [.use (.release (kind p))]⟩

def kmalloc := alloc .kmem
def vmalloc := alloc .vmem
def kfree := free .kmem
def vfree := free .vmem

def nonNull (pages : List Ptr) : List Ptr := pages.filter (· ≠ 0#64)

/-- `if (pages[i]) put_page(pages[i])` for the pages of a list. -/
def putPages (pages : List Ptr) : Traced Effect Unit :=
  ⟨(), (nonNull pages).map fun p => .use (.release (.page p))⟩

/-! ## Answers -/

/-- What `get_user_pages_fast` pins: at most the pages asked for, counted by an
`int`. -/
structure PinnedPages (nr : BitVec 32) where
  pages : List Ptr
  length_le : pages.length ≤ nr.toNat
  length_lt : pages.length < 2 ^ 31
  ne_null : ∀ p ∈ pages, p ≠ 0#64

def PinnedPages.none (nr : BitVec 32) : PinnedPages nr := ⟨[], Nat.zero_le _, by simp, by simp⟩

/-- A negative code means that nothing was pinned and nothing stored. -/
inductive PinResult (nr : BitVec 32)
  | pinned (pages : PinnedPages nr)
  | error (code : BitVec 32) (neg : code.msb = true)

/-- The `int` that the call returns. -/
def PinResult.ret {nr : BitVec 32} : PinResult nr → BitVec 32
  | .pinned pages => BitVec.ofNat 32 pages.pages.length
  | .error code _ => code

def PinResult.pages {nr : BitVec 32} : PinResult nr → List Ptr
  | .pinned pages => pages.pages
  | .error _ _ => []

/-- An entry of a table before it is mapped, as `sg_set_page` leaves it. -/
structure SgPage where
  page : Ptr
  length : BitVec 32
  offset : BitVec 32
  deriving DecidableEq

/-- The answers of the kernel.  An allocator answers 0 for `NULL`; a flag is true
when the call fails.  `staleBlocks`, `stalePages` and `staleDescs` are what memory
holds that was not written yet. -/
structure Kernel where
  kmallocArgs : Ptr
  copyFromUser : Bool
  copyToUser : Bool
  vmallocBlocks : BitVec 64 → Ptr
  staleBlocks : Int → Ptr
  vmallocPages : BitVec 64 → Ptr
  stalePages : Nat → Ptr
  getUserPages : (addr : BitVec 64) → (nr : BitVec 32) → PinResult nr
  kzallocSgt : Ptr
  sgAllocTable : BitVec 32 → Bool
  /-- The DMA address and length of every entry, or nothing when the call
  returns 0. -/
  pciMapSg : List SgPage → DmaDir → Option (Nat → SgEntry)
  kmallocDescs : BitVec 64 → Ptr
  staleDescs : Descriptor.Words
  pciMapSingle : Ptr → BitVec 64 → DmaDir → BitVec 64
  pciDmaMappingError : BitVec 64 → Bool
  /-- What the two waits return: the time left, 0 after a timeout, or a negative
  code after a signal. -/
  waitDesc : Int
  waitData : Int

def kmallocMaxSize : BitVec 64 := 0x400000#64

/-- `kmalloc` answers `NULL` above its largest size. -/
def Kernel.KmallocBounded (k : Kernel) : Prop :=
  ∀ size, kmallocMaxSize < size → k.kmallocDescs size = 0#64

/-- A kernel that grants every call, with one page pinned of any request and
memory full of ones. -/
def granting : Kernel where
  kmallocArgs := 0x1000#64
  copyFromUser := false
  copyToUser := false
  vmallocBlocks := fun _ => 0x2000#64
  staleBlocks := fun _ => 0xffffffffffffffff#64
  vmallocPages := fun _ => 0x3000#64
  stalePages := fun _ => 0xffffffffffffffff#64
  getUserPages := fun _ nr =>
    if h : 1 ≤ nr.toNat then .pinned ⟨[0x4000#64], h, by simp, by simp⟩
    else .pinned (.none nr)
  kzallocSgt := 0x5000#64
  sgAllocTable := fun _ => false
  pciMapSg := fun _ _ => some fun i => ⟨BitVec.ofNat 64 (0x80000000 + 0x10000 * i), 0x1000#32⟩
  kmallocDescs := fun size => if kmallocMaxSize < size then 0#64 else 0x6000#64
  staleDescs := fun _ => 0xffffffff#32
  pciMapSingle := fun _ _ _ => 0x90000000#64
  pciDmaMappingError := fun _ => false
  waitDesc := 1
  waitData := 1

theorem granting_kmallocBounded : granting.KmallocBounded := by
  intro size hsize
  exact if_pos hsize

end EonDrv.Ioctl

import EonDrv.Descriptor.Elements
import Mathlib.Tactic.Basic

/-!
# The linked-list reader

The engine in linked-list mode: it executes elements as long as their cycle bit
is the cycle state, and stops at the first element whose cycle bit differs.
-/

namespace EonDrv.Descriptor

open BitField RegisterFile

structure Element where
  flags : BitVec 32
  transferSize : BitVec 32
  sarLow : BitVec 32
  sarHigh : BitVec 32
  darLow : BitVec 32
  darHigh : BitVec 32
  deriving DecidableEq

/-- What a data element asks for. -/
structure Copy where
  size : BitVec 32
  src : BitVec 64
  dst : BitVec 64
  lie : Bool
  rie : Bool
  deriving DecidableEq

namespace Element

def cb (e : Element) : Bool := e.flags.getLsbD cbBit
def tcb (e : Element) : Bool := e.flags.getLsbD tcbBit
def llp (e : Element) : Bool := e.flags.getLsbD llpBit
def lie (e : Element) : Bool := e.flags.getLsbD lieBit
def rie (e : Element) : Bool := e.flags.getLsbD rieBit

/-- `struct end_element` has the pointer where a data element has the source. -/
def llPointer (e : Element) : BitVec 64 := e.sarHigh ++ e.sarLow

def copy (e : Element) : Copy :=
  ⟨e.transferSize, e.sarHigh ++ e.sarLow, e.darHigh ++ e.darLow, e.lie, e.rie⟩

end Element

inductive Stop
  | cycle (e : Element)
  | link (e : Element)
  | pastEnd
  deriving DecidableEq

/-- `elements` counts the elements read, the one it stops at included. -/
structure Run where
  copies : List Copy
  elements : Nat
  stop : Stop
  deriving DecidableEq

def run (cycleState : Bool) : List Element → Run
  | [] => ⟨[], 0, .pastEnd⟩
  | e :: rest =>
      if e.cb = cycleState then
        if e.llp then ⟨[], 1, .link e⟩
        else
          let r := run cycleState rest
          ⟨e.copy :: r.copies, r.elements + 1, r.stop⟩
      else ⟨[], 1, .cycle e⟩

/-- Data elements are executed in order up to the first other cycle bit; what
follows it is not read. -/
theorem run_append {cycleState : Bool} {es : List Element} {e : Element}
    (hes : ∀ d ∈ es, d.cb = cycleState ∧ d.llp = false) (he : e.cb ≠ cycleState)
    (rest : List Element) :
    run cycleState (es ++ e :: rest) = ⟨es.map Element.copy, es.length + 1, .cycle e⟩ := by
  induction es with
  | nil => simp [run, he]
  | cons d ds ih =>
      have hd := hes d List.mem_cons_self
      have htail := ih fun d' hd' => hes d' (List.mem_cons_of_mem _ hd')
      simp [run, hd.1, hd.2, htail]

/-! ## Elements in a buffer -/

def readElement (mem : Words) (k : Nat) : Element :=
  ⟨mem (6 * k), mem (6 * k + 1), mem (6 * k + 2), mem (6 * k + 3), mem (6 * k + 4),
    mem (6 * k + 5)⟩

def elements (mem : Words) (bytes : Nat) : List Element :=
  (List.range (bytes / descBytes)).map (readElement mem)

theorem dataStores_nodup (old : BitVec 32) (desc : Nat) (src dst : BitVec 64) (len : BitVec 32)
    (lie rie cb : BitVec 8) :
    ((dataStores old desc src dst len lie rie cb).map Prod.fst).Nodup := by
  simp [dataStores]

theorem linkStores_nodup (old : BitVec 32) (desc : Nat) (addr : BitVec 64) (tcb cb : BitVec 8) :
    ((linkStores old desc addr tcb cb).map Prod.fst).Nodup := by
  simp [linkStores]

/-- The stores of an element are to different words, so all of them are shown. -/
theorem setDataElement_holds (mem : Words) (desc : Nat) (src dst : BitVec 64) (len : BitVec 32)
    (lie rie cb : BitVec 8) :
    Holds (setDataElement mem desc src dst len lie rie cb)
      (dataStores (mem desc) desc src dst len lie rie cb) :=
  holds_storeAll (dataStores_nodup ..)

theorem setLinkElement_holds (mem : Words) (desc : Nat) (addr : BitVec 64) (tcb cb : BitVec 8) :
    Holds (setLinkElement mem desc addr tcb cb) (linkStores (mem desc) desc addr tcb cb) :=
  holds_storeAll (linkStores_nodup ..)

theorem setDataElement_of_outside (mem : Words) {desc w : Nat} (src dst : BitVec 64)
    (len : BitVec 32) (lie rie cb : BitVec 8) (h : w < desc ∨ desc + 6 ≤ w) :
    setDataElement mem desc src dst len lie rie cb w = mem w := by
  apply storeAll_of_not_mem
  simp only [dataStores, List.map_cons, List.map_nil, List.mem_cons, List.not_mem_nil, or_false]
  omega

theorem setLinkElement_of_outside (mem : Words) {desc w : Nat} (addr : BitVec 64)
    (tcb cb : BitVec 8) (h : w < desc ∨ desc + 6 ≤ w) :
    setLinkElement mem desc addr tcb cb w = mem w := by
  apply storeAll_of_not_mem
  simp only [linkStores, List.map_cons, List.map_nil, List.mem_cons, List.not_mem_nil, or_false]
  omega

theorem readElement_congr {mem mem' : Words} {k : Nat}
    (h : ∀ w, 6 * k ≤ w → w < 6 * k + 6 → mem w = mem' w) :
    readElement mem k = readElement mem' k := by
  unfold readElement
  rw [h (6 * k), h (6 * k + 1), h (6 * k + 2), h (6 * k + 3), h (6 * k + 4), h (6 * k + 5)] <;>
    omega

theorem readElement_setDataElement (mem : Words) (k : Nat) (src dst : BitVec 64)
    (len : BitVec 32) (lie rie cb : BitVec 8) :
    readElement (setDataElement mem (6 * k) src dst len lie rie cb) k =
      ⟨dataFlags (mem (6 * k)) lie rie cb, len, low32 src, high32 src, low32 dst,
        high32 dst⟩ := by
  have hholds := setDataElement_holds mem (6 * k) src dst len lie rie cb
  simp only [Holds, dataStores, List.forall_mem_cons, List.not_mem_nil, false_imp_iff,
    implies_true, and_true] at hholds
  obtain ⟨h0, h4, h5, h2, h3, h1⟩ := hholds
  exact congr (congr (congr (congr (congr (congrArg Element.mk h0) h1) h2) h3) h4) h5

theorem readElement_setDataElement_ne (mem : Words) {k j : Nat} (src dst : BitVec 64)
    (len : BitVec 32) (lie rie cb : BitVec 8) (h : j ≠ k) :
    readElement (setDataElement mem (6 * k) src dst len lie rie cb) j = readElement mem j := by
  apply readElement_congr
  intro w hlo hhi
  apply setDataElement_of_outside
  omega

theorem readElement_setLinkElement_ne (mem : Words) {k j : Nat} (addr : BitVec 64)
    (tcb cb : BitVec 8) (h : j ≠ k) :
    readElement (setLinkElement mem (6 * k) addr tcb cb) j = readElement mem j := by
  apply readElement_congr
  intro w hlo hhi
  apply setLinkElement_of_outside
  omega

/-! ## What the elements mean -/

section Flags

variable (old : BitVec 32) (lie rie cb tcb : BitVec 8)

theorem dataFlags_cb : (dataFlags old lie rie cb).getLsbD cbBit = bit cb := by
  simp (disch := decide) only [dataFlags, getLsbD_withBit_ne, getLsbD_withBit_self]

theorem dataFlags_llp : (dataFlags old lie rie cb).getLsbD llpBit = false := by
  simp (disch := decide) only [dataFlags, getLsbD_withBit_ne, getLsbD_withBit_self]

theorem dataFlags_lie : (dataFlags old lie rie cb).getLsbD lieBit = bit lie := by
  simp (disch := decide) only [dataFlags, getLsbD_withBit_ne, getLsbD_withBit_self]

theorem dataFlags_rie : (dataFlags old lie rie cb).getLsbD rieBit = bit rie := by
  rw [dataFlags, getLsbD_withBit_self _ _ (by decide)]

theorem linkFlags_cb : (linkFlags old tcb cb).getLsbD cbBit = bit cb := by
  simp (disch := decide) only [linkFlags, getLsbD_withBit_ne, getLsbD_withBit_self]

theorem linkFlags_tcb : (linkFlags old tcb cb).getLsbD tcbBit = bit tcb := by
  simp (disch := decide) only [linkFlags, getLsbD_withBit_ne, getLsbD_withBit_self]

theorem linkFlags_llp : (linkFlags old tcb cb).getLsbD llpBit = true := by
  rw [linkFlags, getLsbD_withBit_self _ _ (by decide)]

end Flags

/-- A data element is executable in cycle state 1 when `CB` is set, and copies
what it was given, whatever the buffer held before. -/
theorem dataElement_means (mem : Words) (k : Nat) (src dst : BitVec 64) (len : BitVec 32)
    (lie rie cb : BitVec 8) :
    let e := readElement (setDataElement mem (6 * k) src dst len lie rie cb) k
    e.cb = bit cb ∧ e.llp = false ∧ e.copy = ⟨len, src, dst, bit lie, bit rie⟩ := by
  rw [readElement_setDataElement]
  refine ⟨dataFlags_cb .., dataFlags_llp .., ?_⟩
  simp only [Element.copy, Element.lie, Element.rie, dataFlags_lie, dataFlags_rie,
    high32_append_low32]

theorem linkElement_means (mem : Words) (k : Nat) (addr : BitVec 64) (tcb cb : BitVec 8) :
    let e := readElement (setLinkElement mem (6 * k) addr tcb cb) k
    e.cb = bit cb ∧ e.tcb = bit tcb ∧ e.llp = true ∧ e.llPointer = addr := by
  have hholds := setLinkElement_holds mem (6 * k) addr tcb cb
  simp only [Holds, linkStores, List.forall_mem_cons, List.not_mem_nil, false_imp_iff,
    implies_true, and_true] at hholds
  obtain ⟨h0, h2, h3⟩ := hholds
  simp only [Element.cb, Element.tcb, Element.llp, Element.llPointer, readElement, h0, h2, h3,
    high32_append_low32]
  exact ⟨linkFlags_cb .., linkFlags_tcb .., linkFlags_llp .., trivial⟩

end EonDrv.Descriptor

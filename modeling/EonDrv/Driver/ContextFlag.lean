import EonDrv.Support.AtomicObject
import EonDrv.Support.Locks

/-!
# The flag of a context

`hdma_lock`, `hdma_unlock` and `hdma_islocking` on one context, next to the stage
functions, which hold the same spinlock and leave the flag alone.  Each call is a caller
of its own.  `hdma_islocking` reads the flag without the spinlock.
-/

namespace EonDrv

open Locks (Owned)

inductive FlagOp
  | hdmaLock
  | hdmaUnlock
  | hdmaIslocking
  -- `tranfer_desc` or `dma_llmode_transmit`
  | stage
  deriving DecidableEq

inductive FlagPc
  | entry
  | test
  | store
  | unlock (ret : Int)
  | done (ret : Int)
  deriving DecidableEq

structure FlagState where
  lock : Option Nat
  flag : BitVec 32
  pc : Nat → FlagPc

def FlagState.goto (s : FlagState) (i : Nat) (pc : FlagPc) : FlagState :=
  { s with pc := Function.update s.pc i pc }

/-- The statement behind `spin_lock`.  A stage function goes on without the flag. -/
def FlagOp.body : FlagOp → FlagPc
  | .hdmaLock => .test
  | _ => .store

def FlagOp.store (flag : BitVec 32) : FlagOp → BitVec 32
  | .hdmaLock => 1#32
  | .hdmaUnlock => 0#32
  | _ => flag

def stepFlag (op : Nat → FlagOp) (s : FlagState) (i : Nat) : Option FlagState :=
  match s.pc i with
  | .entry =>
    if op i = .hdmaIslocking then some (s.goto i (.done s.flag.toInt))
    else
      match s.lock with
      | none => some { s.goto i (op i).body with lock := some i }
      | some _ => none
  | .test => if s.flag = 1#32 then some (s.goto i (.unlock (-1))) else some (s.goto i .store)
  | .store => some { s.goto i (.unlock 0) with flag := (op i).store s.flag }
  | .unlock ret => some { s.goto i (.done ret) with lock := none }
  | .done _ => none

/-- `hdma_init` clears the flag. -/
structure FlagInitial (s : FlagState) : Prop where
  lock : s.lock = none
  flag : s.flag = 0#32
  pc : ∀ i, s.pc i = .entry

def flagCalls (op : Nat → FlagOp) : StepSystem FlagState Nat where
  init := FlagInitial
  step := stepFlag op

/-! ## The flag as an object -/

def contextFlag : AtomicObject (BitVec 32) FlagOp Int Empty where
  apply o flag :=
    match o with
    | .hdmaLock => if flag = 1#32 then (-1, flag) else (0, 1#32)
    | .hdmaUnlock => (0, 0#32)
    | .hdmaIslocking => (flag.toInt, flag)
    | .stage => (0, flag)
  event b _ := b.elim

def FlagPc.result : FlagPc → Option Int
  | .unlock ret | .done ret => some ret
  | _ => none

/-- A call shows from its last access of the flag on. -/
def flagShown (s : FlagState) : AtomicObject.State Nat (BitVec 32) Int where
  obj := s.flag
  result i := (s.pc i).result

def FlagPc.inside : FlagPc → Option Unit
  | .test | .store | .unlock _ => some ()
  | _ => none

section

variable {op : Nat → FlagOp} {s t : FlagState} {i : Nat}

theorem goto_pc_self (s : FlagState) (i : Nat) (pc : FlagPc) : (s.goto i pc).pc i = pc :=
  Function.update_self ..

theorem goto_pc_ne (s : FlagState) {i j : Nat} (h : j ≠ i) (pc : FlagPc) :
    (s.goto i pc).pc j = s.pc j :=
  Function.update_of_ne h ..

/-! ## Who holds the spinlock -/

inductive FlagFires (op : Nat → FlagOp) (s : FlagState) (i : Nat) : FlagState → Prop
  | read : s.pc i = .entry → op i = .hdmaIslocking →
      FlagFires op s i (s.goto i (.done s.flag.toInt))
  | take : s.pc i = .entry → op i ≠ .hdmaIslocking → s.lock = none →
      FlagFires op s i { s.goto i (op i).body with lock := some i }
  | taken : s.pc i = .test → s.flag = 1#32 → FlagFires op s i (s.goto i (.unlock (-1)))
  | free : s.pc i = .test → s.flag ≠ 1#32 → FlagFires op s i (s.goto i .store)
  | store : s.pc i = .store →
      FlagFires op s i { s.goto i (.unlock 0) with flag := (op i).store s.flag }
  | unlock {ret : Int} : s.pc i = .unlock ret →
      FlagFires op s i { s.goto i (.done ret) with lock := none }

theorem flagFires_of_step (h : stepFlag op s i = some t) : FlagFires op s i t := by
  unfold stepFlag at h
  cases hpc : s.pc i with
  | entry =>
      simp only [hpc] at h
      split at h
      · rename_i hop
        obtain rfl := Option.some.inj h
        exact .read hpc hop
      · rename_i hop
        split at h
        · rename_i hfree
          obtain rfl := Option.some.inj h
          exact .take hpc hop hfree
        · cases h
  | test =>
      simp only [hpc] at h
      split at h <;> obtain rfl := Option.some.inj h
      · rename_i hflag
        exact .taken hpc hflag
      · rename_i hflag
        exact .free hpc hflag
  | store =>
      simp only [hpc] at h
      obtain rfl := Option.some.inj h
      exact .store hpc
  | unlock ret =>
      simp only [hpc] at h
      obtain rfl := Option.some.inj h
      exact .unlock hpc
  | done ret =>
      simp only [hpc] at h
      cases h

def FlagPc.Of (o : FlagOp) : FlagPc → Prop
  | .test => o = .hdmaLock
  | .store | .unlock _ => o ≠ .hdmaIslocking
  | _ => True

/-- No caller but the holder of the spinlock is between its test and its store. -/
structure FlagOk (op : Nat → FlagOp) (s : FlagState) : Prop where
  owned : Owned (fun _ : Unit => s.lock) fun i => (s.pc i).inside
  place : ∀ i, (s.pc i).Of (op i)
  free : ∀ i, s.pc i = .store → op i = .hdmaLock → s.flag ≠ 1#32

theorem owned_goto (h : Owned (fun _ : Unit => s.lock) fun i => (s.pc i).inside) {pc : FlagPc}
    (hpc : pc.inside = (s.pc i).inside) :
    Owned (fun _ : Unit => s.lock) fun j => ((s.goto i pc).pc j).inside := by
  refine h.move (.same (fun j => ?_) fun _ => rfl)
  by_cases hj : j = i
  · rw [hj, goto_pc_self, hpc]
  · rw [goto_pc_ne s hj]

theorem place_goto (h : ∀ j, (s.pc j).Of (op j)) {pc : FlagPc} (hpc : pc.Of (op i)) (j : Nat) :
    ((s.goto i pc).pc j).Of (op j) := by
  by_cases hj : j = i
  · subst hj
    rw [goto_pc_self]
    exact hpc
  · rw [goto_pc_ne s hj]
    exact h j

theorem free_goto (h : ∀ j, s.pc j = .store → op j = .hdmaLock → s.flag ≠ 1#32) {pc : FlagPc}
    (hpc : pc = .store → op i = .hdmaLock → s.flag ≠ 1#32) (j : Nat)
    (hj : (s.goto i pc).pc j = .store) (hop : op j = .hdmaLock) : s.flag ≠ 1#32 := by
  by_cases hji : j = i
  · subst hji
    rw [goto_pc_self] at hj
    exact hpc hj hop
  · rw [goto_pc_ne s hji] at hj
    exact h j hj hop

theorem FlagOk.initial (h : FlagInitial s) : FlagOk op s where
  owned := Owned.none (fun i => by rw [h.pc i]; rfl) fun _ => h.lock
  place i := by
    rw [h.pc i]
    trivial
  free i hi := by
    rw [h.pc i] at hi
    cases hi

theorem FlagOk.op_test (h : FlagOk op s) (hpc : s.pc i = .test) : op i = .hdmaLock := by
  have hplace := h.place i
  rwa [hpc] at hplace

theorem FlagOk.op_store (h : FlagOk op s) (hpc : s.pc i = .store) : op i ≠ .hdmaIslocking := by
  have hplace := h.place i
  rwa [hpc] at hplace

theorem FlagOk.step (h : FlagOk op s) (hf : FlagFires op s i t) : FlagOk op t := by
  cases hf with
  | read hpc _ =>
      exact ⟨owned_goto h.owned (by rw [hpc]; rfl), place_goto h.place trivial,
        free_goto h.free fun hs => nomatch hs⟩
  | take hpc hop hfree =>
      have hbody : (op i).body.inside = some () := by cases op i <;> rfl
      refine ⟨?_, place_goto h.place ?_, free_goto h.free fun hs hlock => ?_⟩
      · refine h.owned.move (.take i () (by rw [hpc]; rfl) hfree ?_ rfl (fun j hj => ?_)
          fun u hu => absurd rfl hu)
        · exact (congrArg FlagPc.inside (goto_pc_self s i _)).trans hbody
        · exact congrArg FlagPc.inside (goto_pc_ne s hj _)
      · cases hop' : op i with
        | hdmaLock => rfl
        | hdmaIslocking => exact absurd hop' hop
        | _ => exact fun h => nomatch h
      · rw [hlock] at hs
        cases hs
  | taken hpc _ =>
      refine ⟨owned_goto h.owned (by rw [hpc]; rfl), place_goto h.place ?_,
        free_goto h.free fun hs => nomatch hs⟩
      rw [h.op_test hpc]
      exact nofun
  | free hpc hflag =>
      refine ⟨owned_goto h.owned (by rw [hpc]; rfl), place_goto h.place ?_,
        free_goto h.free fun _ _ => hflag⟩
      rw [h.op_test hpc]
      exact nofun
  | store hpc =>
      refine ⟨owned_goto h.owned (by rw [hpc]; rfl), place_goto h.place (h.op_store hpc),
        fun j hj _ => ?_⟩
      -- another caller at its store would hold the spinlock too
      exfalso
      change (s.goto i (.unlock 0)).pc j = .store at hj
      by_cases hji : j = i
      · rw [hji, goto_pc_self] at hj
        cases hj
      · rw [goto_pc_ne s hji] at hj
        exact hji (h.owned.unique (l := ()) (by rw [hj]; rfl) (by rw [hpc]; rfl))
  | unlock hpc =>
      refine ⟨?_, place_goto h.place trivial, free_goto h.free fun hs => nomatch hs⟩
      refine h.owned.move (.release i () (by rw [hpc]; rfl) ?_ rfl (fun j hj => ?_)
        fun u hu => absurd rfl hu)
      · exact congrArg FlagPc.inside (goto_pc_self s i _)
      · exact congrArg FlagPc.inside (goto_pc_ne s hj _)

theorem flagOk_of_reachable (h : (flagCalls op).Reachable s) : FlagOk op s :=
  h.invariant (fun _ hi => .initial hi) fun _ _ _ hok hst => hok.step (flagFires_of_step hst)

/-! ## The refinement -/

theorem flagShown_goto (s : FlagState) {pc : FlagPc} (hpc : pc.result = (s.pc i).result) :
    flagShown (s.goto i pc) = flagShown s := by
  refine congrArg (AtomicObject.State.mk s.flag) (funext fun j => ?_)
  by_cases hj : j = i
  · rw [hj, goto_pc_self, hpc]
  · rw [goto_pc_ne s hj]

theorem flagShown_commit {pc : FlagPc} {ret : Int} {flag : BitVec 32}
    (happly : contextFlag.apply (op i) s.flag = (ret, flag)) (hpc : pc.result = some ret) :
    flagShown { s.goto i pc with flag := flag } = contextFlag.commit i (op i) (flagShown s) := by
  have hcommit : contextFlag.commit i (op i) (flagShown s) =
      ⟨flag, Function.update (fun j => (s.pc j).result) i (some ret)⟩ := by
    rw [AtomicObject.commit]
    change AtomicObject.State.mk (contextFlag.apply (op i) s.flag).2
      (Function.update _ i (some (contextFlag.apply (op i) s.flag).1)) = _
    rw [happly]
    rfl
  rw [hcommit]
  refine congrArg (AtomicObject.State.mk flag) (funext fun j => ?_)
  change ((s.goto i pc).pc j).result = _
  by_cases hj : j = i
  · rw [hj, goto_pc_self, Function.update_self, hpc]
  · rw [goto_pc_ne s hj, Function.update_of_ne hj]

end

/-- Two callers of `hdma_lock`, one of `hdma_unlock`, and readers of the flag. -/
def lockTwice (i : Nat) : FlagOp :=
  match i with
  | 0 | 1 => .hdmaLock
  | 2 => .hdmaUnlock
  | _ => .hdmaIslocking

end EonDrv

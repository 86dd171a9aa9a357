import EonDrv.Machine.Doorbell
import EonDrv.Support.Cpus

/-!
# Sleeping under a spinlock

The driver on `N` CPUs.  `spin_lock` keeps its CPU while it waits; a wait for a
completion and `mutex_lock` give theirs up.  Both stages sleep with the channel
lock held, so a second request on the context spins until the first is woken, and
enough of them leave no CPU to the thread that would wake it.
-/

namespace EonDrv
namespace Machine

open Completion (HdmaRequest Stage ReqPc Base)

inductive Thread
  | request (r : Nat)
  | ioctl (j : Nat)
  | kthread
  deriving DecidableEq

def accessThread (i : Nat) : Thread :=
  let n := i / accessStride
  if i % accessStride = regOperationMaxNum then .ioctl n else .request n

/-- Interrupts, timers, signals and the device need no thread. -/
def actor : Action → Option Thread
  | .comp (.request r) => some (.request r)
  | .comp (.fail r _) => some (.request r)
  | .comp .thread => some .kthread
  | .comp _ => none
  | .access i _ => some (accessThread i)

/-- An access in `mutex_lock`, with `conbar_lock` taken. -/
def blocked (s : State) (i : Nat) : Bool :=
  s.win.pc i == .lock && s.win.conbarLock.isSome

/-- The wait of the completion thread is timed, so the thread can run at any time. -/
def asleep (s : State) : Thread → Bool
  | .request r =>
    match s.comp.req r with
    | .wait _ .asleep => true
    | .batch k => blocked s (batchAccess r k)
    | _ => false
  | .ioctl j => blocked s (ioctlAccess j)
  | .kthread => false

/-- From `spin_lock` to `spin_unlock` a request is not preempted. -/
def pinned (s : State) : Thread → Bool
  | .request r =>
    match s.comp.req r with
    | .lock _ => true
    | pc => pc.critical.isSome
  | _ => false

def threads : Threads State Action Thread := ⟨actor, asleep, pinned⟩

section

variable (reqs : Nat → HdmaRequest) (regArgs : Nat → DpuRegArgs) (regs : Nat → BitVec 32)

def smp (N : Nat) : StepSystem (State × Finset Thread) (Cpus.Action Action Thread) :=
  Cpus.system (system reqs regArgs regs) threads N

/-- Request `r` waits in `spin_lock` for a lock that `h` holds. -/
def SpinsFor (s : State) (r h : Nat) : Prop :=
  ∃ st, s.comp.req r = .lock st ∧ (s.comp.ctx ((reqs r).chan st)).lock = some h

/-- No request spins on a lock whose holder sleeps, and the CPUs are not all spinning. -/
structure NeverStuck (N : Nat) (s : State × Finset Thread) : Prop where
  awake : ∀ r h, SpinsFor reqs s.1 r h → asleep s.1 (.request h) = false
  progress : ¬ (s.2.card = N ∧ ∀ k ∈ s.2, ∃ r h, k = .request r ∧ SpinsFor reqs s.1 r h)

/-! ## Requests that do not overlap -/

/-- The channel whose `spin_lock` the next statement of a request leads to. -/
def arrival (q : HdmaRequest) : ReqPc → Option Chan
  | .setDesc => some (q.chan .upload)
  | .unlock .upload ret => if ret = 0 then some (q.chan .data) else none
  | _ => none

/-- The wait of a stage is over, and only `spin_unlock` is left. -/
def pastWait : ReqPc → Bool
  | .unlock _ _ => true
  | _ => false

def atSpinLock (s : State) (ch : Chan) : Thread → Bool
  | .request r =>
    match s.comp.req r with
    | .lock st => (reqs r).chan st == ch
    | _ => false
  | _ => false

/-- No thread on a CPU is at the lock of the channel, and its holder, if it has one, is
past its wait. -/
def Clear (s : State × Finset Thread) (ch : Chan) : Prop :=
  ((s.1.comp.ctx ch).lock.all fun h => pastWait (s.1.comp.req h)) = true ∧
    ∀ k ∈ s.2, atSpinLock reqs s.1 ch k = false

/-- A request arrives at a lock only when it is clear. -/
def NoOverlap (s : State × Finset Thread) : Cpus.Action Action Thread → Prop
  | .run (.comp (.request r)) =>
    match arrival (reqs r) (s.1.comp.req r) with
    | some ch => Clear reqs s ch
    | none => True
  | _ => True

instance (s : State × Finset Thread) (ch : Chan) : Decidable (Clear reqs s ch) :=
  inferInstanceAs (Decidable (_ ∧ _))

instance (s : State × Finset Thread) (a : Cpus.Action Action Thread) :
    Decidable (NoOverlap reqs s a) := by
  unfold NoOverlap
  split
  · split <;> infer_instance
  · infer_instance

end

/-! ## One request at a time -/

/-- The stage that a request is in, from its `spin_lock` to the end of its wait. -/
def pendingStage : ReqPc → Option Stage
  | .lock st | .program st _ | .setRunning st | .doorbell st | .wait st _ => some st
  | .batch _ => some .data
  | _ => none

def pending (q : HdmaRequest) (pc : ReqPc) : Option Chan := (pendingStage pc).map q.chan

theorem eq_unlock_of_pastWait {pc : ReqPc} (h : pastWait pc = true) :
    ∃ st ret, pc = .unlock st ret := by
  cases pc with
  | unlock st ret => exact ⟨st, ret, rfl⟩
  | _ => cases h

theorem eq_lock_or_critical {q : HdmaRequest} {pc : ReqPc} {ch : Chan}
    (h : pending q pc = some ch) :
    ∃ st, q.chan st = ch ∧ (pc = .lock st ∨ pc.critical = some st ∧ pastWait pc = false) := by
  obtain ⟨st, hst, hch⟩ := Option.map_eq_some_iff.mp h
  refine ⟨st, hch, ?_⟩
  cases pc with
  | lock st' => exact Or.inl (congrArg ReqPc.lock (Option.some.inj hst))
  | program _ _ => exact Or.inr ⟨hst, rfl⟩
  | setRunning _ => exact Or.inr ⟨hst, rfl⟩
  | batch _ => exact Or.inr ⟨hst, rfl⟩
  | doorbell _ => exact Or.inr ⟨hst, rfl⟩
  | wait _ _ => exact Or.inr ⟨hst, rfl⟩
  | _ => cases hst

theorem pending_or_pastWait (q : HdmaRequest) {pc : ReqPc} {st : Stage}
    (h : pc.critical = some st) : pending q pc = some (q.chan st) ∨ pastWait pc = true := by
  cases pc <;> simp only [ReqPc.critical, Option.some.injEq, reduceCtorEq] at h
  all_goals subst h
  all_goals first | exact Or.inl rfl | exact Or.inr rfl

section

variable {reqs : Nat → HdmaRequest}

theorem pending_request {s t : Completion.State} {r : Nat}
    (h : Completion.stepRequest reqs s r = some t) {ch : Chan}
    (hp : pending (reqs r) (t.req r) = some ch) :
    pending (reqs r) (s.req r) = some ch ∨ arrival (reqs r) (s.req r) = some ch := by
  have hadv := Completion.stepRequest_advances h
  generalize s.req r = pc at hadv ⊢
  generalize t.req r = pc' at hadv hp
  cases hadv with
  | setupSg => exact Or.inl hp
  | setDesc => exact Or.inr hp
  | lock _ => exact Or.inl hp
  | program _ => exact Or.inl hp
  | programEnd _ => exact Or.inl hp
  | @setRunning st =>
      cases st with
      | upload => exact Or.inl hp
      | data => exact Or.inl hp
  | batch => exact Or.inl hp
  | refuse => cases hp
  | batchEnd => exact Or.inl hp
  | doorbell => exact Or.inl hp
  | complete _ => cases hp
  | sleep _ => exact Or.inl hp
  | timeout _ => cases hp
  | signal _ => cases hp
  | @unlock st ret =>
      cases st with
      | upload =>
          by_cases hret : ret = 0
          · subst hret
            exact Or.inr hp
          · rw [Completion.afterStage, if_neg hret] at hp
            cases hp
      | data => cases hp
  | teardownDesc => cases hp
  | teardownSg => cases hp

theorem pending_comp {s t : Completion.State} {a : Completion.Action}
    (h : Completion.step reqs s a = some t) {r : Nat} {ch : Chan}
    (hp : pending (reqs r) (t.req r) = some ch) :
    pending (reqs r) (s.req r) = some ch ∨
      a = .request r ∧ arrival (reqs r) (s.req r) = some ch := by
  rcases Completion.step_req_cases h r with hsame | rfl | ⟨ret, rfl, hfail⟩ | ⟨st, w, w', hs, ht⟩
  · exact Or.inl (hsame ▸ hp)
  · rcases pending_request h hp with hold | harr
    · exact Or.inl hold
    · exact Or.inr ⟨rfl, harr⟩
  · rcases (Completion.stepFail_req hfail).2 with hpc | hpc
    · rw [hpc] at hp
      cases hp
    · rw [hpc] at hp
      cases hp
  · rw [ht] at hp
    rw [hs]
    exact Or.inl hp

/-! ## Where a request is on a CPU -/

/-- The next statement is `spin_lock` or `spin_unlock`. -/
def atLock : ReqPc → Bool
  | .lock _ | .unlock _ _ => true
  | _ => false

theorem eq_of_atLock {pc : ReqPc} (h : atLock pc = true) :
    (∃ st, pc = .lock st) ∨ ∃ st ret, pc = .unlock st ret := by
  cases pc with
  | lock st => exact Or.inl ⟨st, rfl⟩
  | unlock st ret => exact Or.inr ⟨st, ret, rfl⟩
  | _ => cases h

def SpinPlace (s : State) (k : Thread) : Prop :=
  ∃ r, k = .request r ∧ atLock (s.comp.req r) = true

theorem atLock_comp {s t : Completion.State} {a : Completion.Action}
    (h : Completion.step reqs s a = some t) {r : Nat} (ht : atLock (t.req r) = true) :
    a = .request r ∨ atLock (s.req r) = true := by
  rcases Completion.step_req_cases h r with hsame | rfl | ⟨ret, rfl, hfail⟩ | ⟨st, w, w', _, hw⟩
  · exact Or.inr (hsame ▸ ht)
  · exact Or.inl rfl
  · rcases (Completion.stepFail_req hfail).2 with hpc | hpc
    · rw [hpc] at ht
      cases ht
    · rw [hpc] at ht
      cases ht
  · rw [hw] at ht
    cases ht

theorem spinPlace_pinned {s : State} {k : Thread} (h : SpinPlace s k) :
    pinned s k = true ∧ asleep s k = false := by
  obtain ⟨r, rfl, hr⟩ := h
  rcases eq_of_atLock hr with ⟨st, hpc⟩ | ⟨st, ret, hpc⟩
  · simp only [pinned, asleep, hpc, and_self]
  · simp only [pinned, asleep, hpc, ReqPc.critical, Option.isSome_some, and_self]

variable {regArgs : Nat → DpuRegArgs} {regs : Nat → BitVec 32} {N : Nat}
  {g : State × Finset Thread → Cpus.Action Action Thread → Prop}

theorem mem_of_spinPlace {s : State × Finset Thread}
    (h : (smp reqs regArgs regs N).ReachVia g s) {r : Nat}
    (hr : atLock (s.1.comp.req r) = true) : .request r ∈ s.2 := by
  refine Cpus.mem_of_place (P := SpinPlace) ?_ ?_ (fun s k => spinPlace_pinned) h _ ⟨r, rfl, hr⟩
  · rintro s (hi : Initial reqs regArgs regs s) k ⟨r, -, hr⟩
    rw [hi.comp.req r] at hr
    cases hr
  · rintro s a t (hst : step reqs regArgs s a = some t) k ⟨r, rfl, hr⟩
    cases a with
    | comp a =>
        rcases atLock_comp (step_comp hst).2.1 hr with rfl | hold
        · exact Or.inl rfl
        · exact Or.inr ⟨r, rfl, hold⟩
    | access i v =>
        rw [(step_access hst).2.1] at hr
        exact Or.inr ⟨r, rfl, hr⟩

/-! ## The invariant -/

def Exclusive (reqs : Nat → HdmaRequest) (s : State × Finset Thread) : Prop :=
  ∀ r r' ch, pending (reqs r) (s.1.comp.req r) = some ch →
    pending (reqs r') (s.1.comp.req r') = some ch → r = r'

/-- A pending request is at the lock, on a CPU, or holds the lock before its wait is over. -/
theorem not_clear {s : State × Finset Thread} (hb : Base reqs s.1.comp)
    (hcpu : ∀ r, atLock (s.1.comp.req r) = true → .request r ∈ s.2) {r : Nat} {ch : Chan}
    (hp : pending (reqs r) (s.1.comp.req r) = some ch) : ¬ Clear reqs s ch := by
  rintro ⟨hpast, hspin⟩
  obtain ⟨st, rfl, hpc | ⟨hcrit, hwait⟩⟩ := eq_lock_or_critical hp
  · have hno := hspin _ (hcpu r (by rw [hpc]; rfl))
    simp only [atSpinLock, hpc, beq_self_eq_true, Bool.true_eq_false] at hno
  · rw [hb.holds hcrit] at hpast
    exact Bool.noConfusion (hwait.symm.trans hpast)

theorem Exclusive.comp {s : State × Finset Thread} {t : Completion.State}
    {a : Completion.Action} (he : Exclusive reqs s) (hb : Base reqs s.1.comp)
    (hcpu : ∀ r, atLock (s.1.comp.req r) = true → .request r ∈ s.2)
    (hg : NoOverlap reqs s (.run (.comp a))) (h : Completion.step reqs s.1.comp a = some t) :
    ∀ r r' ch, pending (reqs r) (t.req r) = some ch → pending (reqs r') (t.req r') = some ch →
      r = r' := by
  have hclear : ∀ r ch, a = .request r → arrival (reqs r) (s.1.comp.req r) = some ch →
      Clear reqs s ch := by
    rintro r ch rfl harr
    simpa only [NoOverlap, harr] using hg
  intro r r' ch hr hr'
  rcases pending_comp h hr with hold | ⟨ha, harr⟩
  · rcases pending_comp h hr' with hold' | ⟨ha', harr'⟩
    · exact he r r' ch hold hold'
    · exact absurd (hclear r' ch ha' harr') (not_clear hb hcpu hold)
  · rcases pending_comp h hr' with hold' | ⟨ha', harr'⟩
    · exact absurd (hclear r ch ha harr) (not_clear hb hcpu hold')
    · rw [ha] at ha'
      exact Completion.Action.request.inj ha'

theorem exclusive_of_reachVia {s : State × Finset Thread}
    (h : (smp reqs regArgs regs N).ReachVia (NoOverlap reqs) s) : Exclusive reqs s := by
  refine h.invariant_of
    (J := fun s => Base reqs s.1.comp ∧ ∀ r, atLock (s.1.comp.req r) = true → .request r ∈ s.2)
    (fun s hs => ⟨Completion.base_of_reachable (comp_reachable (Cpus.base_reachable hs)),
      fun r hr => mem_of_spinPlace hs hr⟩) ?_ ?_
  · intro s (hi : Initial reqs regArgs regs s.1 ∧ s.2 = ∅) r r' ch hr
    rw [hi.1.comp.req r] at hr
    cases hr
  · intro s a t hJ he hg (hst : Cpus.step (system reqs regArgs regs) threads N s a = some t)
    cases Cpus.fires_of_step hst with
    | @run u t cpus a _ hu =>
        cases a with
        | comp a =>
            have hstep : step reqs regArgs u (.comp a) = some t := hu
            exact he.comp hJ.1 hJ.2 hg (step_comp hstep).2.1
        | access i v =>
            intro r r' ch hr hr'
            rw [(step_access hu).2.1] at hr hr'
            exact he r r' ch hr hr'
    | dispatch _ => exact he
    | preempt _ => exact he

/-! ## No stuck state -/

/-- The holder of a lock that a request spins on is past its wait. -/
theorem Exclusive.holder_pastWait {s : State × Finset Thread} (he : Exclusive reqs s)
    (hb : Base reqs s.1.comp) {r h : Nat} (hspin : SpinsFor reqs s.1 r h) :
    pastWait (s.1.comp.req h) = true := by
  obtain ⟨st, hpc, hlock⟩ := hspin
  obtain ⟨st', hcrit, hch⟩ := hb.held hlock
  rcases pending_or_pastWait (reqs h) hcrit with hpend | hpast
  · have hr : pending (reqs r) (s.1.comp.req r) = some ((reqs r).chan st) := by
      rw [hpc]
      rfl
    rw [hch] at hpend
    obtain rfl := he r h _ hr hpend
    rw [hpc] at hcrit
    cases hcrit
  · exact hpast

/-- While requests do not overlap at a lock, no state of any run is stuck. -/
theorem neverStuck_of_noOverlap (hN : 0 < N) {s : State × Finset Thread}
    (h : (smp reqs regArgs regs N).ReachVia (NoOverlap reqs) s) : NeverStuck reqs N s := by
  have hb := Completion.base_of_reachable (comp_reachable (Cpus.base_reachable h))
  have he := exclusive_of_reachVia h
  constructor
  · intro r h hspin
    obtain ⟨st, ret, hpc⟩ := eq_unlock_of_pastWait (he.holder_pastWait hb hspin)
    simp only [asleep, hpc]
  · rintro ⟨hcard, hall⟩
    have hpos : s.2.Nonempty := Finset.card_pos.mp (by omega)
    obtain ⟨k, hk⟩ := hpos
    obtain ⟨r, o, -, hspin⟩ := hall k hk
    obtain ⟨st, ret, hpc⟩ := eq_unlock_of_pastWait (he.holder_pastWait hb hspin)
    have hmem : .request o ∈ s.2 := mem_of_spinPlace h (by rw [hpc]; rfl)
    -- a holder past its wait is on a CPU and does not spin
    obtain ⟨r', o', heq, st', hlock, -⟩ := hall _ hmem
    obtain rfl := Thread.request.inj heq
    rw [hpc] at hlock
    cases hlock

end

/-! ## Two requests on one context -/

theorem smp_initial (N : Nat) :
    (smp batched pokes (fun _ => 0) N).init (probedDriver, ∅) :=
  ⟨probedDriver_initial, rfl⟩

def runRequest (r n : Nat) : List (Cpus.Action Action Thread) :=
  .dispatch (.request r) :: List.replicate n (.run (.comp (.request r)))

/-- On one CPU, request 0 sleeps in its upload with the lock of the context, and
request 1 takes the CPU to spin on it. -/
theorem spins_on_sleeping_holder :
    ∃ s, (smp batched pokes (fun _ => 0) 1).Reachable s ∧ s.2 = {.request 1} ∧
      SpinsFor batched s.1 1 0 ∧ asleep s.1 (.request 0) = true ∧ ¬ NeverStuck batched 1 s := by
  obtain ⟨s, hs, hcpu, h1, hlock, h0⟩ := StepSystem.exists_reachVia
    (S := smp batched pokes (fun _ => 0) 1) (g := fun _ _ => True)
    (fun s => s.2 = {.request 1} ∧ s.1.comp.req 1 = .lock .upload ∧
      (s.1.comp.ctx ⟨.rd, 0⟩).lock = some 0 ∧ s.1.comp.req 0 = .wait .upload .asleep)
    (runRequest 0 16 ++ runRequest 1 2) (.start (smp_initial 1)) (by decide +kernel)
  have hspin : SpinsFor batched s.1 1 0 := ⟨.upload, h1, hlock⟩
  have hasleep : asleep s.1 (.request 0) = true := by
    simp only [asleep, h0]
  refine ⟨s, hs, hcpu, hspin, hasleep, fun hnever => ?_⟩
  rw [hnever.awake 1 0 hspin] at hasleep
  cases hasleep

/-- Request 0 times out, and request 1 spins until it lets the lock go. -/
theorem spins_on_awake_holder :
    ∃ s, (smp batched pokes (fun _ => 0) 2).ReachVia (NoOverlap batched) s ∧
      SpinsFor batched s.1 1 0 ∧ NeverStuck batched 2 s := by
  obtain ⟨s, hs, h1, hlock⟩ := StepSystem.exists_reachVia
    (S := smp batched pokes (fun _ => 0) 2) (g := NoOverlap batched)
    (fun s => s.1.comp.req 1 = .lock .upload ∧ (s.1.comp.ctx ⟨.rd, 0⟩).lock = some 0)
    (runRequest 0 16 ++ [.run (.comp (.expire 0))] ++ runRequest 0 1 ++ runRequest 1 2)
    (.start (smp_initial 2)) (by decide +kernel)
  exact ⟨s, hs, ⟨.upload, h1, hlock⟩, neverStuck_of_noOverlap (by decide) hs⟩

end Machine
end EonDrv

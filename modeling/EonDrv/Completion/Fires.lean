import EonDrv.Completion.System

/-!
# What one statement can do

`Fires` lists the statements of the system with their guards and effects.  Every
step of the system is one of them, and the proofs about runs case on `Fires`
without unfolding the step function.
-/

namespace EonDrv
namespace Completion

/-- Statements of a request that only move it. -/
inductive Moves (q : HdmaRequest) : ReqPc → ReqPc → Prop
  | setupSg : Moves q .setupSg .setDesc
  | setDesc : Moves q .setDesc (.lock .upload)
  | failSetup {ret : Int} : ret ≠ 0 → Moves q .setupSg (.done ret)
  | failDesc {ret : Int} : ret ≠ 0 → Moves q .setDesc (.teardownSg ret)
  | programEnd {st : Stage} {k : Nat} : Moves q (.program st k) (.setRunning st)
  | batchNext {k : Nat} : Moves q (.batch k) (.batch (k + 1))
  | batchEnd {k : Nat} : Moves q (.batch k) (.doorbell .data)
  | interrupt {st : Stage} : Moves q (.wait st (.check .woken)) (.wait st (.check .signal))
  | teardownDesc {ret : Int} : Moves q (.teardownDesc ret) (.teardownSg ret)
  | teardownSg {ret : Int} :
      Moves q (.teardownSg ret) (.done (if ret = 0 then 0 else q.errorReturn ret))

/-- The thread serves no channel at these places. -/
def KthreadPc.free : KthreadPc → Bool
  | .store _ _ _ | .clear _ _ _ | .wake _ _ _ => false
  | _ => true

/-- The flag the token scan leaves for a status word. -/
def scanFlag (s : State) (sc : Scan) (status : IntStatus) : BitVec 8 :=
  match sc with
  | .token => (status.value &&& 3#32).truncate 8
  | .extra => s.thread.flag

def scanLoop (s : State) : Scan → Nat
  | .token => 0
  | .extra => s.thread.loop

section

variable (reqs : Nat → HdmaRequest)

inductive Fires : State → Action → State → Prop
  | move {s : State} {a : Action} {r : Nat} {pc : ReqPc} :
      Moves (reqs r) (s.req r) pc → Fires s a (s.setReq r pc)
  | lock {s : State} {r : Nat} {st : Stage} :
      s.req r = .lock st → (s.ctx ((reqs r).chan st)).lock = none →
      Fires s (.request r)
        ((s.setCtx ((reqs r).chan st)
          { s.ctx ((reqs r).chan st) with lock := some r }).setReq r (.program st 0))
  | program {s : State} {r : Nat} {st : Stage} {k : Nat} {reg : HdmaReg} {val : BitVec 32} :
      s.req r = .program st k → ((reqs r).writes st)[k]? = some (reg, val) →
      Fires s (.request r)
        ((s.setCtx ((reqs r).chan st)
          { s.ctx ((reqs r).chan st) with
            regs := Function.update (s.ctx ((reqs r).chan st)).regs reg val }).setReq r
          (.program st (k + 1)))
  | setRunning {s : State} {r : Nat} {st : Stage} :
      s.req r = .setRunning st →
      Fires s (.request r)
        ((s.setCtx ((reqs r).chan st)
          { s.ctx ((reqs r).chan st) with state := .running }).setReq r (afterRunning st))
  | refuse {s : State} {r k : Nat} :
      s.req r = .batch k → Fires s (.request r) (s.setReq r (.unlock .data (-1)))
  | ring {s : State} {r : Nat} {st : Stage} :
      s.req r = .doorbell st → (reqs r).rings st = true →
      Fires s (.request r)
        { s.setReq r (.wait st (.check .woken)) with
          rung := Function.update s.rung ⟨r, st⟩ true }
  | skipRing {s : State} {r : Nat} {st : Stage} :
      s.req r = .doorbell st → (reqs r).rings st = false →
      Fires s (.request r) (s.setReq r (.wait st (.check .woken)))
  | complete {s : State} {r : Nat} {st : Stage} {why : Wake} :
      s.req r = .wait st (.check why) → (s.ctx ((reqs r).chan st)).state ≠ .running →
      Fires s (.request r) (s.setReq r (.unlock st 0))
  | sleep {s : State} {r : Nat} {st : Stage} :
      s.req r = .wait st (.check .woken) → (s.ctx ((reqs r).chan st)).state = .running →
      Fires s (.request r) (s.setReq r (.wait st .asleep))
  | timeout {s : State} {r : Nat} {st : Stage} :
      s.req r = .wait st (.check .timeout) → (s.ctx ((reqs r).chan st)).state = .running →
      Fires s (.request r) (s.setReq r (.unlock st (-1)))
  | signal {s : State} {r : Nat} {st : Stage} :
      s.req r = .wait st (.check .signal) → (s.ctx ((reqs r).chan st)).state = .running →
      Fires s (.request r) (s.setReq r (.unlock st 0))
  | unlock {s : State} {r : Nat} {st : Stage} {ret : Int} :
      s.req r = .unlock st ret →
      Fires s (.request r)
        ((s.setCtx ((reqs r).chan st)
          { s.ctx ((reqs r).chan st) with lock := none }).setReq r (afterStage st ret))
  | rouse {s : State} {a : Action} {r : Nat} {st : Stage} {why : Wake} :
      s.req r = .wait st .asleep → a = .expire r ∨ a = .interrupt r →
      Fires s a (s.setReq r (.wait st (.check why)))
  | raise {s : State} {ch : Chan} {o : Option Call} {bits : BitVec 32} :
      RaiseAllowed reqs s ch o →
      Fires s (.raise ch o bits)
        { s.setCtx ch { s.ctx ch with intStatus := (s.ctx ch).intStatus.raise o bits } with
          mem := memAfter reqs s.mem o bits
          stopped := marked s.stopped o (HasStop bits)
          aborted := marked s.aborted o (HasAbort bits) }
  | idle {s : State} {a : Action} {th : Kthread} {n : Nat} {flag stop : Bool} :
      a = .thread ∧ th.pc.free = true ∧ s.thread.pc.free = true ∨
        a ≠ .thread ∧ th = s.thread →
      Fires s a
        { s with thread := th, fifo := n, shouldStopFlag := flag, kthreadShouldStop := stop }
  | read {s : State} {sc : Scan} {ch : Chan} :
      s.thread.pc = .read sc ch → HasEvent (s.ctx ch).intStatus.value →
      Fires s .thread
        { s with
          thread := ⟨.store sc ch (s.ctx ch).intStatus, scanFlag s sc (s.ctx ch).intStatus,
            s.thread.loop⟩ }
  | store {s : State} {sc : Scan} {ch : Chan} {status : IntStatus} :
      s.thread.pc = .store sc ch status →
      Fires s .thread
        ((s.setCtx ch
          { s.ctx ch with state := .completed, credit := status, owed := true }).setPc
            (.clear sc ch status))
  | clear {s : State} {sc : Scan} {ch : Chan} {status : IntStatus} :
      s.thread.pc = .clear sc ch status →
      Fires s .thread
        ((s.setCtx ch
          { s.ctx ch with
            intStatus := (s.ctx ch).intStatus.clear (hdmaClearIntrStatus status.value) }).setPc
            (.wake sc ch status))
  | wake {s : State} {sc : Scan} {ch : Chan} {status : IntStatus} :
      s.thread.pc = .wake sc ch status → wakes sc s.thread.flag = true →
      Fires s .thread
        { s.setCtx ch { s.ctx ch with owed := false } with
          thread := ⟨afterScan sc, s.thread.flag, scanLoop s sc⟩
          req := wakeUp reqs s.req ch }
  | skipWake {s : State} {sc : Scan} {ch : Chan} {status : IntStatus} :
      s.thread.pc = .wake sc ch status → wakes sc s.thread.flag = false →
      Fires s .thread { s with thread := ⟨afterScan sc, s.thread.flag, scanLoop s sc⟩ }

variable {reqs}

theorem fires_request {s t : State} {r : Nat} (h : stepRequest reqs s r = some t) :
    Fires reqs s (.request r) t := by
  unfold stepRequest at h
  cases hpc : s.req r with
  | setupSg =>
      simp only [hpc, Option.some.injEq] at h
      exact h ▸ .move (hpc ▸ .setupSg)
  | setDesc =>
      simp only [hpc, Option.some.injEq] at h
      exact h ▸ .move (hpc ▸ .setDesc)
  | lock st =>
      simp only [hpc] at h
      cases hl : (s.ctx ((reqs r).chan st)).lock with
      | none =>
          simp only [hl, Option.some.injEq] at h
          exact h ▸ .lock hpc hl
      | some r' => simp [hl] at h
  | program st k =>
      simp only [hpc] at h
      cases hw : ((reqs r).writes st)[k]? with
      | none =>
          simp only [hw, Option.some.injEq] at h
          exact h ▸ .move (hpc ▸ .programEnd)
      | some w =>
          simp only [hw, Option.some.injEq] at h
          exact h ▸ .program hpc hw
  | setRunning st =>
      simp only [hpc, Option.some.injEq] at h
      exact h ▸ .setRunning hpc
  | batch k =>
      simp only [hpc] at h
      split at h
      · split at h
        · simp only [Option.some.injEq] at h
          exact h ▸ .move (hpc ▸ .batchNext)
        · simp only [Option.some.injEq] at h
          exact h ▸ .refuse hpc
      · simp only [Option.some.injEq] at h
        exact h ▸ .move (hpc ▸ .batchEnd)
  | doorbell st =>
      simp only [hpc] at h
      split at h
      · rename_i hr
        simp only [Option.some.injEq] at h
        exact h ▸ .ring hpc hr
      · rename_i hr
        simp only [Option.some.injEq] at h
        exact h ▸ .skipRing hpc (by simpa using hr)
  | wait st w =>
      cases w with
      | asleep => simp [hpc] at h
      | check why =>
          simp only [hpc] at h
          split at h
          · rename_i hc
            simp only [Option.some.injEq] at h
            exact h ▸ .complete hpc hc
          · rename_i hc
            have hrun : (s.ctx ((reqs r).chan st)).state = .running := by
              simpa using hc
            cases why with
            | woken =>
                simp only [Option.some.injEq] at h
                exact h ▸ .sleep hpc hrun
            | timeout =>
                simp only [Option.some.injEq] at h
                exact h ▸ .timeout hpc hrun
            | signal =>
                simp only [Option.some.injEq] at h
                exact h ▸ .signal hpc hrun
  | unlock st ret =>
      simp only [hpc, Option.some.injEq] at h
      exact h ▸ .unlock hpc
  | teardownDesc ret =>
      simp only [hpc, Option.some.injEq] at h
      exact h ▸ .move (hpc ▸ .teardownDesc)
  | teardownSg ret =>
      simp only [hpc, Option.some.injEq] at h
      exact h ▸ .move (hpc ▸ .teardownSg)
  | done ret => simp [hpc] at h

theorem fires_idle_thread {s : State} {th : Kthread} {n : Nat} (h : th.pc.free = true)
    (hs : s.thread.pc.free = true) :
    Fires reqs s .thread { s with thread := th, fifo := n } := by
  show Fires reqs s .thread
    { s with
      thread := th
      fifo := n
      shouldStopFlag := s.shouldStopFlag
      kthreadShouldStop := s.kthreadShouldStop }
  exact .idle (Or.inl ⟨rfl, h, hs⟩)

theorem fires_thread {s t : State} (h : hamaHandleKthread reqs s = some t) :
    Fires reqs s .thread t := by
  have hfree : ∀ pc, s.thread.pc = pc → pc.free = true → s.thread.pc.free = true := by
    intro pc hpc hf
    rw [hpc]
    exact hf
  unfold hamaHandleKthread at h
  cases hpc : s.thread.pc with
  | wait =>
      simp only [hpc, Option.some.injEq] at h
      subst h
      refine fires_idle_thread ?_ (hfree _ hpc rfl)
      cases s.kthreadShouldStop <;> rfl
  | whileTop =>
      simp only [hpc] at h
      split at h <;> simp only [Option.some.injEq] at h <;> subst h
      · exact fires_idle_thread rfl (hfree _ hpc rfl)
      · exact fires_idle_thread rfl (hfree _ hpc rfl)
  | read sc ch =>
      simp only [hpc] at h
      split at h
      · rename_i he
        simp only [Option.some.injEq] at h
        subst h
        exact .read hpc he
      · cases hn : nextChan ch with
        | none =>
            simp only [hn, Option.some.injEq] at h
            subst h
            refine fires_idle_thread ?_ (hfree _ hpc rfl)
            cases sc <;> rfl
        | some ch' =>
            simp only [hn, Option.some.injEq] at h
            subst h
            exact fires_idle_thread rfl (hfree _ hpc rfl)
  | store sc ch status =>
      simp only [hpc, Option.some.injEq] at h
      subst h
      exact .store hpc
  | clear sc ch status =>
      simp only [hpc, Option.some.injEq] at h
      subst h
      exact .clear hpc
  | wake sc ch status =>
      simp only [hpc] at h
      split at h
      · rename_i hw
        simp only [Option.some.injEq] at h
        subst h
        exact .wake hpc hw
      · rename_i hw
        simp only [Option.some.injEq] at h
        subst h
        exact .skipWake hpc (by simpa using hw)
  | popTokens =>
      simp only [hpc, Option.some.injEq] at h
      subst h
      unfold popTokens
      simp only
      split
      · exact fires_idle_thread rfl (hfree _ hpc rfl)
      · split
        · exact fires_idle_thread rfl (hfree _ hpc rfl)
        · exact fires_idle_thread rfl (hfree _ hpc rfl)
  | extraTop =>
      simp only [hpc] at h
      split at h <;> simp only [Option.some.injEq] at h <;> subst h
      · exact fires_idle_thread rfl (hfree _ hpc rfl)
      · exact fires_idle_thread rfl (hfree _ hpc rfl)
  | outerEnd =>
      simp only [hpc, Option.some.injEq] at h
      subst h
      refine fires_idle_thread ?_ (hfree _ hpc rfl)
      cases s.shouldStopFlag <;> rfl
  | exited => simp [hpc] at h

theorem fires_of_step {s t : State} {a : Action} (h : step reqs s a = some t) :
    Fires reqs s a t := by
  cases a with
  | request r => exact fires_request h
  | fail r ret =>
      simp only [step, stepFail] at h
      split at h
      · cases h
      · rename_i hret
        split at h <;> simp only [Option.some.injEq, reduceCtorEq] at h
        · rename_i hpc
          exact h ▸ .move (hpc ▸ .failSetup hret)
        · rename_i hpc
          exact h ▸ .move (hpc ▸ .failDesc hret)
  | expire r =>
      simp only [step, stepExpire] at h
      split at h <;> simp only [Option.some.injEq, reduceCtorEq] at h
      rename_i hpc
      exact h ▸ .rouse hpc (Or.inl rfl)
  | interrupt r =>
      simp only [step, stepInterrupt] at h
      split at h <;> simp only [Option.some.injEq, reduceCtorEq] at h
      · rename_i hpc
        exact h ▸ .rouse hpc (Or.inr rfl)
      · rename_i hpc
        exact h ▸ .move (hpc ▸ .interrupt)
  | raise ch o bits =>
      simp only [step, stepRaise] at h
      split at h
      · rename_i hallowed
        simp only [Option.some.injEq] at h
        exact h ▸ .raise hallowed
      · cases h
  | irq =>
      simp only [step, Option.some.injEq] at h
      subst h
      exact .idle (Or.inr ⟨by simp, rfl⟩)
  | thread => exact fires_thread h
  | removeFlag =>
      simp only [step, Option.some.injEq] at h
      subst h
      exact .idle (Or.inr ⟨by simp, rfl⟩)
  | removeStop =>
      simp only [step, Option.some.injEq] at h
      subst h
      exact .idle (Or.inr ⟨by simp, rfl⟩)

/-! ## Who moves the thread -/

theorem step_thread {s t : State} {a : Action} (h : step reqs s a = some t) (ha : a ≠ .thread) :
    t.thread = s.thread := by
  cases fires_of_step h with
  | idle hcase =>
      rcases hcase with ⟨rfl, -⟩ | ⟨-, hth⟩
      · exact absurd rfl ha
      · exact hth
  | read _ _ => exact absurd rfl ha
  | store _ => exact absurd rfl ha
  | clear _ => exact absurd rfl ha
  | wake _ _ => exact absurd rfl ha
  | skipWake _ _ => exact absurd rfl ha
  | _ => rfl

theorem step_exited {s t : State} {a : Action} (h : step reqs s a = some t)
    (hpc : s.thread.pc = .exited) : t.thread.pc = .exited := by
  by_cases ha : a = .thread
  · subst ha
    simp [step, hamaHandleKthread, hpc] at h
  · rw [step_thread h ha, hpc]

/-- It returns at the wait after `kthread_stop`, or at the end of its outer loop after
`should_stop_flag`. -/
theorem exits_cases {s t : State} (h : hamaHandleKthread reqs s = some t)
    (hpc : t.thread.pc = .exited) :
    (s.thread.pc = .wait ∧ s.kthreadShouldStop = true) ∨
      (s.thread.pc = .outerEnd ∧ s.shouldStopFlag = true) := by
  unfold hamaHandleKthread at h
  cases hnow : s.thread.pc with
  | wait =>
      simp only [hnow, Option.some.injEq] at h
      subst h
      cases hstop : s.kthreadShouldStop with
      | true => exact Or.inl ⟨rfl, rfl⟩
      | false => simp [State.setPc, hstop] at hpc
  | outerEnd =>
      simp only [hnow, Option.some.injEq] at h
      subst h
      cases hflag : s.shouldStopFlag with
      | true => exact Or.inr ⟨rfl, rfl⟩
      | false => simp [State.setPc, hflag] at hpc
  | whileTop =>
      simp only [hnow] at h
      split at h <;> obtain rfl := Option.some.inj h <;> cases hpc
  | read sc ch =>
      simp only [hnow] at h
      split at h
      · obtain rfl := Option.some.inj h
        cases hpc
      · split at h <;> obtain rfl := Option.some.inj h
        · cases hpc
        · cases sc <;> cases hpc
  | store sc ch status =>
      simp only [hnow, Option.some.injEq] at h
      subst h
      cases hpc
  | clear sc ch status =>
      simp only [hnow, Option.some.injEq] at h
      subst h
      cases hpc
  | wake sc ch status =>
      simp only [hnow] at h
      split at h <;> obtain rfl := Option.some.inj h <;> cases sc <;> cases hpc
  | popTokens =>
      simp only [hnow, Option.some.injEq] at h
      subst h
      unfold popTokens at hpc
      simp only at hpc
      split at hpc
      · cases hpc
      · split at hpc <;> cases hpc
  | extraTop =>
      simp only [hnow] at h
      split at h <;> obtain rfl := Option.some.inj h <;> cases hpc
  | exited => simp [hnow] at h

/-! ## The two stop signals -/

theorem stepRequest_frame {s t : State} {r : Nat} (h : stepRequest reqs s r = some t) :
    t = { s with ctx := t.ctx, req := t.req, rung := t.rung } := by
  unfold stepRequest at h
  cases hpc : s.req r with
  | lock st =>
      simp only [hpc] at h
      split at h
      · exact Option.some.inj h ▸ rfl
      · cases h
  | program st k =>
      simp only [hpc] at h
      split at h <;> exact Option.some.inj h ▸ rfl
  | batch k =>
      simp only [hpc] at h
      split at h
      · split at h <;> exact Option.some.inj h ▸ rfl
      · exact Option.some.inj h ▸ rfl
  | doorbell st =>
      simp only [hpc] at h
      split at h <;> exact Option.some.inj h ▸ rfl
  | wait st w =>
      cases w with
      | asleep => simp [hpc] at h
      | check why =>
          simp only [hpc] at h
          split at h
          · exact Option.some.inj h ▸ rfl
          · cases why <;> exact Option.some.inj h ▸ rfl
  | done ret => simp [hpc] at h
  | _ =>
      simp only [hpc, Option.some.injEq] at h
      exact h ▸ rfl

theorem hamaHandleKthread_frame {s t : State} (h : hamaHandleKthread reqs s = some t) :
    t = { s with ctx := t.ctx, req := t.req, thread := t.thread, fifo := t.fifo } := by
  unfold hamaHandleKthread at h
  cases hpc : s.thread.pc with
  | whileTop =>
      simp only [hpc] at h
      split at h <;> exact Option.some.inj h ▸ rfl
  | read sc ch =>
      simp only [hpc] at h
      split at h
      · exact Option.some.inj h ▸ rfl
      · split at h <;> exact Option.some.inj h ▸ rfl
  | wake sc ch status =>
      simp only [hpc] at h
      split at h <;> exact Option.some.inj h ▸ rfl
  | popTokens =>
      simp only [hpc, Option.some.injEq] at h
      subst h
      unfold popTokens
      simp only
      split
      · rfl
      · split <;> rfl
  | extraTop =>
      simp only [hpc] at h
      split at h <;> exact Option.some.inj h ▸ rfl
  | exited => simp [hpc] at h
  | _ =>
      simp only [hpc, Option.some.injEq] at h
      exact h ▸ rfl

theorem step_kthreadShouldStop {s t : State} {a : Action} (h : step reqs s a = some t)
    (hstop : s.kthreadShouldStop = true) : t.kthreadShouldStop = true := by
  have hsame : ∀ (r : Nat) (pc : ReqPc), (s.setReq r pc).kthreadShouldStop = true :=
    fun _ _ => hstop
  cases a with
  | request r =>
      rw [stepRequest_frame h]
      exact hstop
  | fail r ret =>
      simp only [step, stepFail] at h
      split at h
      · cases h
      · split at h <;> simp only [Option.some.injEq, reduceCtorEq] at h <;> exact h ▸ hsame _ _
  | expire r =>
      simp only [step, stepExpire] at h
      split at h <;> simp only [Option.some.injEq, reduceCtorEq] at h
      exact h ▸ hsame _ _
  | interrupt r =>
      simp only [step, stepInterrupt] at h
      split at h <;> simp only [Option.some.injEq, reduceCtorEq] at h <;> exact h ▸ hsame _ _
  | raise ch o bits =>
      simp only [step, stepRaise] at h
      split at h
      · exact Option.some.inj h ▸ hstop
      · cases h
  | thread =>
      rw [hamaHandleKthread_frame h]
      exact hstop
  | removeStop => exact Option.some.inj h ▸ rfl
  | _ => exact Option.some.inj h ▸ hstop

/-! ## Who moves a request -/

/-- Where its own statement takes a request. -/
inductive Advances (q : HdmaRequest) (s : State) : ReqPc → ReqPc → Prop
  | setupSg : Advances q s .setupSg .setDesc
  | setDesc : Advances q s .setDesc (.lock .upload)
  | lock {st : Stage} : (s.ctx (q.chan st)).lock = none →
      Advances q s (.lock st) (.program st 0)
  | program {st : Stage} {k : Nat} {w : HdmaReg × BitVec 32} : (q.writes st)[k]? = some w →
      Advances q s (.program st k) (.program st (k + 1))
  | programEnd {st : Stage} {k : Nat} : (q.writes st)[k]? = none →
      Advances q s (.program st k) (.setRunning st)
  | setRunning {st : Stage} : Advances q s (.setRunning st) (afterRunning st)
  | batch {k : Nat} : Advances q s (.batch k) (.batch (k + 1))
  | refuse {k : Nat} : Advances q s (.batch k) (.unlock .data (-1))
  | batchEnd {k : Nat} : Advances q s (.batch k) (.doorbell .data)
  | doorbell {st : Stage} : Advances q s (.doorbell st) (.wait st (.check .woken))
  | complete {st : Stage} {why : Wake} : (s.ctx (q.chan st)).state ≠ .running →
      Advances q s (.wait st (.check why)) (.unlock st 0)
  | sleep {st : Stage} : (s.ctx (q.chan st)).state = .running →
      Advances q s (.wait st (.check .woken)) (.wait st .asleep)
  | timeout {st : Stage} : (s.ctx (q.chan st)).state = .running →
      Advances q s (.wait st (.check .timeout)) (.unlock st (-1))
  | signal {st : Stage} : (s.ctx (q.chan st)).state = .running →
      Advances q s (.wait st (.check .signal)) (.unlock st 0)
  | unlock {st : Stage} {ret : Int} : Advances q s (.unlock st ret) (afterStage st ret)
  | teardownDesc {ret : Int} : Advances q s (.teardownDesc ret) (.teardownSg ret)
  | teardownSg {ret : Int} :
      Advances q s (.teardownSg ret) (.done (if ret = 0 then 0 else q.errorReturn ret))

theorem stepRequest_advances {s t : State} {r : Nat} (h : stepRequest reqs s r = some t) :
    Advances (reqs r) s (s.req r) (t.req r) := by
  have hto : ∀ (u : State) (pc : ReqPc), Advances (reqs r) s (s.req r) pc →
      u.setReq r pc = t → Advances (reqs r) s (s.req r) (t.req r) := by
    rintro u pc hpc rfl
    rwa [show (u.setReq r pc).req r = pc from Function.update_self ..]
  unfold stepRequest at h
  cases hpc : s.req r with
  | lock st =>
      simp only [hpc] at h hto
      split at h
      · exact hto _ _ (.lock ‹_›) (Option.some.inj h)
      · cases h
  | program st k =>
      simp only [hpc] at h hto
      split at h
      · exact hto _ _ (.program ‹_›) (Option.some.inj h)
      · exact hto _ _ (.programEnd ‹_›) (Option.some.inj h)
  | batch k =>
      simp only [hpc] at h hto
      split at h
      · split at h
        · exact hto _ _ .batch (Option.some.inj h)
        · exact hto _ _ .refuse (Option.some.inj h)
      · exact hto _ _ .batchEnd (Option.some.inj h)
  | doorbell st =>
      have hwait : t.req r = .wait st (.check .woken) := by
        simp only [hpc] at h
        split at h <;> obtain rfl := Option.some.inj h <;> exact Function.update_self ..
      rw [hwait]
      exact .doorbell
  | wait st w =>
      simp only [hpc] at h hto
      cases w with
      | asleep => cases h
      | check why =>
          simp only at h
          split at h
          · exact hto _ _ (.complete ‹_›) (Option.some.inj h)
          · rename_i hstate
            have hrun := not_not.mp hstate
            cases why with
            | woken => exact hto _ _ (.sleep hrun) (Option.some.inj h)
            | timeout => exact hto _ _ (.timeout hrun) (Option.some.inj h)
            | signal => exact hto _ _ (.signal hrun) (Option.some.inj h)
  | setupSg =>
      simp only [hpc] at h hto
      exact hto _ _ .setupSg (Option.some.inj h)
  | setDesc =>
      simp only [hpc] at h hto
      exact hto _ _ .setDesc (Option.some.inj h)
  | setRunning st =>
      simp only [hpc] at h hto
      exact hto _ _ .setRunning (Option.some.inj h)
  | unlock st ret =>
      simp only [hpc] at h hto
      exact hto _ _ .unlock (Option.some.inj h)
  | teardownDesc ret =>
      simp only [hpc] at h hto
      exact hto _ _ .teardownDesc (Option.some.inj h)
  | teardownSg ret =>
      simp only [hpc] at h hto
      exact hto _ _ .teardownSg (Option.some.inj h)
  | done ret => simp [hpc] at h

theorem stepRequest_req_ne {s t : State} {r r' : Nat} (h : stepRequest reqs s r = some t)
    (hr : r' ≠ r) : t.req r' = s.req r' := by
  have hmove : ∀ (u : State) (pc : ReqPc), u.req = s.req → (u.setReq r pc).req r' = s.req r' := by
    intro u pc hu
    rw [← hu]
    exact Function.update_of_ne hr ..
  unfold stepRequest at h
  cases hpc : s.req r with
  | lock st =>
      simp only [hpc] at h
      split at h
      · obtain rfl := Option.some.inj h
        exact hmove (s.setCtx _ _) _ rfl
      · cases h
  | program st k =>
      simp only [hpc] at h
      split at h
      · obtain rfl := Option.some.inj h
        exact hmove (s.setCtx _ _) _ rfl
      · obtain rfl := Option.some.inj h
        exact hmove s _ rfl
  | setRunning st =>
      simp only [hpc, Option.some.injEq] at h
      exact h ▸ hmove (s.setCtx _ _) _ rfl
  | batch k =>
      simp only [hpc] at h
      split at h
      · split at h <;> exact Option.some.inj h ▸ hmove s _ rfl
      · exact Option.some.inj h ▸ hmove s _ rfl
  | doorbell st =>
      simp only [hpc] at h
      split at h
      · obtain rfl := Option.some.inj h
        exact hmove s (.wait st (.check .woken)) rfl
      · exact Option.some.inj h ▸ hmove s _ rfl
  | wait st w =>
      cases w with
      | asleep => simp [hpc] at h
      | check why =>
          simp only [hpc] at h
          split at h
          · exact Option.some.inj h ▸ hmove s _ rfl
          · cases why <;> exact Option.some.inj h ▸ hmove s _ rfl
  | unlock st ret =>
      simp only [hpc, Option.some.injEq] at h
      exact h ▸ hmove (s.setCtx _ _) _ rfl
  | done ret => simp [hpc] at h
  | _ =>
      simp only [hpc, Option.some.injEq] at h
      exact h ▸ hmove s _ rfl

theorem hamaHandleKthread_req {s t : State} (h : hamaHandleKthread reqs s = some t) :
    t.req = s.req ∨ ∃ ch, t.req = wakeUp reqs s.req ch := by
  unfold hamaHandleKthread at h
  cases hpc : s.thread.pc with
  | wake sc ch status =>
      simp only [hpc] at h
      split at h
      · obtain rfl := Option.some.inj h
        exact Or.inr ⟨ch, rfl⟩
      · obtain rfl := Option.some.inj h
        exact Or.inl rfl
  | whileTop =>
      simp only [hpc] at h
      split at h <;> exact Or.inl (Option.some.inj h ▸ rfl)
  | read sc ch =>
      simp only [hpc] at h
      split at h
      · exact Or.inl (Option.some.inj h ▸ rfl)
      · split at h <;> exact Or.inl (Option.some.inj h ▸ rfl)
  | popTokens =>
      simp only [hpc, Option.some.injEq] at h
      subst h
      unfold popTokens
      simp only
      split
      · exact Or.inl rfl
      · split <;> exact Or.inl rfl
  | extraTop =>
      simp only [hpc] at h
      split at h <;> exact Or.inl (Option.some.inj h ▸ rfl)
  | exited => simp [hpc] at h
  | _ =>
      simp only [hpc, Option.some.injEq] at h
      exact Or.inl (h ▸ rfl)

/-- What moves a request: a statement of its own, the failure of a stage, or the end
of its sleep. -/
theorem step_req_cases {s t : State} {a : Action} (h : step reqs s a = some t) (r : Nat) :
    t.req r = s.req r ∨ a = .request r ∨
      (∃ ret, a = .fail r ret ∧ stepFail s r ret = some t) ∨
      ∃ st w w', s.req r = .wait st w ∧ t.req r = .wait st w' := by
  have hne : ∀ {r' : Nat} {pc : ReqPc}, r ≠ r' → (s.setReq r' pc).req r = s.req r :=
    fun hr => Function.update_of_ne hr ..
  cases a with
  | request r' =>
      by_cases hr : r = r'
      · exact Or.inr (Or.inl (by rw [hr]))
      · exact Or.inl (stepRequest_req_ne h hr)
  | fail r' ret =>
      by_cases hr : r = r'
      · subst hr
        exact Or.inr (Or.inr (Or.inl ⟨ret, rfl, h⟩))
      · refine Or.inl ?_
        simp only [step, stepFail] at h
        split at h
        · cases h
        · split at h <;> simp only [Option.some.injEq, reduceCtorEq] at h
          · exact h ▸ hne hr
          · exact h ▸ hne hr
  | expire r' =>
      simp only [step, stepExpire] at h
      split at h <;> simp only [Option.some.injEq, reduceCtorEq] at h
      rename_i st hpc
      subst h
      by_cases hr : r = r'
      · subst hr
        exact Or.inr (Or.inr (Or.inr ⟨st, _, _, hpc, Function.update_self ..⟩))
      · exact Or.inl (hne hr)
  | interrupt r' =>
      simp only [step, stepInterrupt] at h
      split at h <;> simp only [Option.some.injEq, reduceCtorEq] at h
      all_goals
        rename_i st hpc
        subst h
        by_cases hr : r = r'
        · subst hr
          exact Or.inr (Or.inr (Or.inr ⟨st, _, _, hpc, Function.update_self ..⟩))
        · exact Or.inl (hne hr)
  | raise ch o bits =>
      simp only [step, stepRaise] at h
      split at h
      · exact Or.inl (Option.some.inj h ▸ rfl)
      · cases h
  | thread =>
      rcases hamaHandleKthread_req h with hsame | ⟨ch, hwake⟩
      · exact Or.inl (congrFun hsame r)
      · rw [hwake]
        unfold wakeUp
        split
        · rename_i st hpc
          split
          · exact Or.inr (Or.inr (Or.inr ⟨st, _, _, hpc, rfl⟩))
          · exact Or.inl hpc.symm
        · exact Or.inl rfl
  | _ =>
      obtain rfl := Option.some.inj h
      exact Or.inl rfl

end

end Completion
end EonDrv

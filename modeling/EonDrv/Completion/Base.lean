import EonDrv.Completion.Fires
import EonDrv.Support.Locks

/-!
# Locks, order of statements, and doorbells

The invariant that every run keeps without any condition: a channel lock is held
by the request that is between taking and releasing it, a doorbell is rung once
and only after its statement, and the thread's `flag` belongs to the status word
it is serving.
-/

namespace EonDrv
namespace Completion

/-- The stage whose lock the request holds. -/
def ReqPc.critical : ReqPc → Option Stage
  | .program st _ | .setRunning st | .doorbell st | .wait st _ | .unlock st _ => some st
  | .batch _ => some .data
  | _ => none

def Stage.base : Stage → Nat
  | .upload => 0
  | .data => 10

/-- The place of a statement in the order of the code. -/
def ReqPc.rank : ReqPc → Nat
  | .setupSg => 0
  | .setDesc => 1
  | .lock st => st.base + 2
  | .program st _ => st.base + 3
  | .setRunning st => st.base + 4
  | .batch _ => Stage.data.base + 5
  | .doorbell st => st.base + 6
  | .wait st _ => st.base + 7
  | .unlock st _ => st.base + 8
  | .teardownDesc _ => 19
  | .teardownSg _ => 20
  | .done _ => 21

def Stage.doorRank (st : Stage) : Nat := st.base + 6

def KthreadPc.Serves (pc : KthreadPc) (sc : Scan) (ch : Chan) (status : IntStatus) : Prop :=
  pc = .store sc ch status ∨ pc = .clear sc ch status ∨ pc = .wake sc ch status

def owner (s : State) (ch : Chan) : Option Nat := (s.ctx ch).lock

def inside (reqs : Nat → HdmaRequest) (s : State) (r : Nat) : Option Chan :=
  (s.req r).critical.map (reqs r).chan

structure Base (reqs : Nat → HdmaRequest) (s : State) : Prop where
  locks : Locks.Owned (owner s) (inside reqs s)
  rung : ∀ c, s.rung c = true → c.stage.doorRank < (s.req c.request).rank
  stopped : ∀ c, s.stopped c = true → s.rung c = true
  aborted : ∀ c, s.aborted c = true → s.rung c = true
  pending : ∀ ch, ∀ e ∈ (s.ctx ch).intStatus, ∀ c, e.origin = some c → s.rung c = true
  snapshot : ∀ sc ch status, s.thread.pc.Serves sc ch status →
    ∀ e ∈ status, ∀ c, e.origin = some c → s.rung c = true
  event : ∀ sc ch status, s.thread.pc.Serves sc ch status → HasEvent status.value
  flag : ∀ ch status, s.thread.pc.Serves .token ch status →
    s.thread.flag = (status.value &&& 3#32).truncate 8

namespace Moves

variable {q : HdmaRequest} {pc pc' : ReqPc}

theorem critical_eq (h : Moves q pc pc') : pc'.critical = pc.critical := by
  cases h <;> rfl

theorem rank_le (h : Moves q pc pc') : pc.rank ≤ pc'.rank := by
  cases h <;> simp [ReqPc.rank, Stage.base]

end Moves

namespace State

variable (s : State)

@[simp] theorem setReq_req_self (r : Nat) (pc : ReqPc) : (s.setReq r pc).req r = pc :=
  Function.update_self ..

theorem setReq_req_ne {r r' : Nat} (h : r' ≠ r) (pc : ReqPc) :
    (s.setReq r pc).req r' = s.req r' :=
  Function.update_of_ne h ..

@[simp] theorem setReq_ctx (r : Nat) (pc : ReqPc) : (s.setReq r pc).ctx = s.ctx := rfl
@[simp] theorem setReq_thread (r : Nat) (pc : ReqPc) : (s.setReq r pc).thread = s.thread := rfl
@[simp] theorem setReq_rung (r : Nat) (pc : ReqPc) : (s.setReq r pc).rung = s.rung := rfl
@[simp] theorem setReq_stopped (r : Nat) (pc : ReqPc) :
    (s.setReq r pc).stopped = s.stopped := rfl
@[simp] theorem setReq_aborted (r : Nat) (pc : ReqPc) :
    (s.setReq r pc).aborted = s.aborted := rfl
@[simp] theorem setReq_mem (r : Nat) (pc : ReqPc) : (s.setReq r pc).mem = s.mem := rfl

@[simp] theorem setCtx_ctx_self (ch : Chan) (c : HdmaContext) : (s.setCtx ch c).ctx ch = c :=
  Function.update_self ..

theorem setCtx_ctx_ne {ch ch' : Chan} (h : ch' ≠ ch) (c : HdmaContext) :
    (s.setCtx ch c).ctx ch' = s.ctx ch' :=
  Function.update_of_ne h ..

@[simp] theorem setCtx_req (ch : Chan) (c : HdmaContext) : (s.setCtx ch c).req = s.req := rfl
@[simp] theorem setCtx_thread (ch : Chan) (c : HdmaContext) :
    (s.setCtx ch c).thread = s.thread := rfl
@[simp] theorem setCtx_rung (ch : Chan) (c : HdmaContext) : (s.setCtx ch c).rung = s.rung := rfl
@[simp] theorem setCtx_stopped (ch : Chan) (c : HdmaContext) :
    (s.setCtx ch c).stopped = s.stopped := rfl
@[simp] theorem setCtx_aborted (ch : Chan) (c : HdmaContext) :
    (s.setCtx ch c).aborted = s.aborted := rfl
@[simp] theorem setCtx_mem (ch : Chan) (c : HdmaContext) : (s.setCtx ch c).mem = s.mem := rfl

@[simp] theorem setPc_ctx (pc : KthreadPc) : (s.setPc pc).ctx = s.ctx := rfl
@[simp] theorem setPc_req (pc : KthreadPc) : (s.setPc pc).req = s.req := rfl
@[simp] theorem setPc_pc (pc : KthreadPc) : (s.setPc pc).thread.pc = pc := rfl
@[simp] theorem setPc_flag (pc : KthreadPc) : (s.setPc pc).thread.flag = s.thread.flag := rfl
@[simp] theorem setPc_rung (pc : KthreadPc) : (s.setPc pc).rung = s.rung := rfl
@[simp] theorem setPc_stopped (pc : KthreadPc) : (s.setPc pc).stopped = s.stopped := rfl
@[simp] theorem setPc_aborted (pc : KthreadPc) : (s.setPc pc).aborted = s.aborted := rfl
@[simp] theorem setPc_mem (pc : KthreadPc) : (s.setPc pc).mem = s.mem := rfl

end State

variable {reqs : Nat → HdmaRequest}

/-! ## Wake-ups -/

theorem wakeUp_cases (reqs : Nat → HdmaRequest) (req : Nat → ReqPc) (ch : Chan) (r : Nat) :
    wakeUp reqs req ch r = req r ∨
      ∃ st, req r = .wait st .asleep ∧ (reqs r).chan st = ch ∧
        wakeUp reqs req ch r = .wait st (.check .woken) := by
  unfold wakeUp
  split
  · rename_i st hpc
    by_cases hch : (reqs r).chan st = ch
    · exact Or.inr ⟨st, hpc, hch, if_pos hch⟩
    · exact Or.inl ((if_neg hch).trans hpc.symm)
  · exact Or.inl rfl

theorem wakeUp_critical (req : Nat → ReqPc) (ch : Chan) (r : Nat) :
    (wakeUp reqs req ch r).critical = (req r).critical := by
  rcases wakeUp_cases reqs req ch r with h | ⟨st, h, _, hw⟩
  · rw [h]
  · rw [hw, h]
    rfl

theorem wakeUp_rank (req : Nat → ReqPc) (ch : Chan) (r : Nat) :
    (wakeUp reqs req ch r).rank = (req r).rank := by
  rcases wakeUp_cases reqs req ch r with h | ⟨st, h, _, hw⟩
  · rw [h]
  · rw [hw, h]
    cases st <;> rfl

/-! ## Order -/

theorem rank_setReq_le {s : State} {r r' : Nat} {pc : ReqPc}
    (h : (s.req r).rank ≤ pc.rank) : (s.req r').rank ≤ ((s.setReq r pc).req r').rank := by
  by_cases hr : r' = r
  · subst hr
    simpa using h
  · exact Nat.le_of_eq (congrArg ReqPc.rank (s.setReq_req_ne hr pc).symm)

theorem rank_afterRunning (st : Stage) : st.base + 4 ≤ (afterRunning st).rank := by
  cases st <;> simp [afterRunning, ReqPc.rank, Stage.base]

theorem rank_afterStage (st : Stage) (ret : Int) :
    st.base + 8 ≤ (afterStage st ret).rank := by
  cases st with
  | upload =>
      by_cases hret : ret = 0
      · simp [afterStage, hret, ReqPc.rank, Stage.base]
      · simp [afterStage, hret, ReqPc.rank, Stage.base]
  | data => simp [afterStage, ReqPc.rank, Stage.base]

theorem Fires.rank_le {s t : State} {a : Action} (h : Fires reqs s a t) (r : Nat) :
    (s.req r).rank ≤ (t.req r).rank := by
  cases h with
  | move hm => exact rank_setReq_le hm.rank_le
  | @lock r' st hpc _ =>
      refine rank_setReq_le (s := s.setCtx _ _) ?_
      rw [State.setCtx_req, hpc]
      simp [ReqPc.rank]
  | @program r' st k reg val hpc _ =>
      refine rank_setReq_le (s := s.setCtx _ _) ?_
      rw [State.setCtx_req, hpc]
      simp [ReqPc.rank]
  | @setRunning r' st hpc =>
      refine rank_setReq_le (s := s.setCtx _ _) ?_
      rw [State.setCtx_req, hpc]
      exact rank_afterRunning st
  | refuse hpc => exact rank_setReq_le (by rw [hpc]; simp [ReqPc.rank])
  | @ring r' st hpc _ =>
      have hle : (s.req r').rank ≤ (ReqPc.wait st (.check .woken)).rank := by
        rw [hpc]
        simp [ReqPc.rank]
      exact rank_setReq_le hle
  | skipRing hpc _ => exact rank_setReq_le (by rw [hpc]; simp [ReqPc.rank])
  | complete hpc _ => exact rank_setReq_le (by rw [hpc]; simp [ReqPc.rank])
  | sleep hpc _ => exact rank_setReq_le (by rw [hpc]; simp [ReqPc.rank])
  | timeout hpc _ => exact rank_setReq_le (by rw [hpc]; simp [ReqPc.rank])
  | signal hpc _ => exact rank_setReq_le (by rw [hpc]; simp [ReqPc.rank])
  | @unlock r' st ret hpc =>
      refine rank_setReq_le (s := s.setCtx _ _) ?_
      rw [State.setCtx_req, hpc]
      exact rank_afterStage st ret
  | rouse hpc _ => exact rank_setReq_le (by rw [hpc]; simp [ReqPc.rank])
  | @wake sc ch status _ _ => exact Nat.le_of_eq (wakeUp_rank s.req ch r).symm
  | raise _ => exact Nat.le_refl _
  | idle _ => exact Nat.le_refl _
  | read _ _ => exact Nat.le_refl _
  | store _ => exact Nat.le_refl _
  | clear _ => exact Nat.le_refl _
  | skipWake _ _ => exact Nat.le_refl _

/-- A failed setup leads to no stage. -/
theorem stepFail_req {s t : State} {r : Nat} {ret : Int} (h : stepFail s r ret = some t) :
    ret ≠ 0 ∧ (t.req r = .done ret ∨ t.req r = .teardownSg ret) := by
  unfold stepFail at h
  split at h
  · cases h
  · rename_i hret
    refine ⟨hret, ?_⟩
    split at h <;> simp only [Option.some.injEq, reduceCtorEq] at h
    · exact Or.inl (h ▸ State.setReq_req_self ..)
    · exact Or.inr (h ▸ State.setReq_req_self ..)

theorem stepFail_at {s t : State} {r : Nat} {ret : Int} (h : stepFail s r ret = some t) :
    s.req r = .setupSg ∨ s.req r = .setDesc := by
  unfold stepFail at h
  split at h
  · cases h
  · split at h
    · exact Or.inl ‹_›
    · exact Or.inr ‹_›
    · cases h

/-! ## Locks -/

theorem inside_of_critical {s t : State} {r : Nat}
    (h : (t.req r).critical = (s.req r).critical) : inside reqs t r = inside reqs s r := by
  unfold inside
  rw [h]

theorem inside_setReq {s : State} {r r' : Nat} {pc : ReqPc}
    (h : pc.critical = (s.req r).critical) :
    inside reqs (s.setReq r pc) r' = inside reqs s r' := by
  refine inside_of_critical ?_
  by_cases hr : r' = r
  · subst hr
    rw [State.setReq_req_self, h]
  · rw [s.setReq_req_ne hr]

theorem owner_setCtx {s : State} {ch ch' : Chan} {c : HdmaContext}
    (h : c.lock = (s.ctx ch).lock) : owner (s.setCtx ch c) ch' = owner s ch' := by
  unfold owner
  by_cases hch : ch' = ch
  · subst hch
    rw [State.setCtx_ctx_self, h]
  · rw [s.setCtx_ctx_ne hch]

abbrev LockMove (reqs : Nat → HdmaRequest) (s t : State) : Prop :=
  Locks.Move (owner s) (inside reqs s) (owner t) (inside reqs t)

theorem LockMove.inside {s : State} {r : Nat} {pc : ReqPc} {ch : Chan} {c : HdmaContext}
    (hpc : pc.critical = (s.req r).critical) (hc : c.lock = (s.ctx ch).lock) :
    LockMove reqs s ((s.setCtx ch c).setReq r pc) :=
  .same (fun _ => inside_setReq (s := s.setCtx ch c) hpc) fun _ => owner_setCtx hc

theorem LockMove.step {s : State} {r : Nat} {pc : ReqPc}
    (hpc : pc.critical = (s.req r).critical) : LockMove reqs s (s.setReq r pc) :=
  .same (fun _ => inside_setReq hpc) fun _ => rfl

theorem inside_setReq_ne {s : State} {r r' : Nat} {pc : ReqPc} (h : r' ≠ r) :
    Completion.inside reqs (s.setReq r pc) r' = Completion.inside reqs s r' := by
  refine inside_of_critical ?_
  rw [s.setReq_req_ne h]

theorem owner_setCtx_ne {s : State} {ch ch' : Chan} {c : HdmaContext} (h : ch' ≠ ch) :
    owner (s.setCtx ch c) ch' = owner s ch' := by
  unfold owner
  rw [s.setCtx_ctx_ne h]

theorem afterStage_critical (st : Stage) (ret : Int) : (afterStage st ret).critical = none := by
  cases st with
  | upload =>
      by_cases hret : ret = 0
      · simp [afterStage, hret, ReqPc.critical]
      · simp [afterStage, hret, ReqPc.critical]
  | data => rfl

theorem Fires.lockMove {s t : State} {a : Action} (h : Fires reqs s a t) :
    LockMove reqs s t := by
  cases h with
  | move hm => exact .step hm.critical_eq
  | @lock r st hpc hl =>
      refine .take r ((reqs r).chan st) ?_ hl ?_ ?_ ?_ ?_
      · simp only [inside, hpc, ReqPc.critical, Option.map_none]
      · simp only [inside, State.setReq_req_self, ReqPc.critical, Option.map_some]
      · simp only [owner, State.setReq_ctx, State.setCtx_ctx_self]
      · exact fun r' hr => inside_setReq_ne hr
      · exact fun ch hch => owner_setCtx_ne hch
  | program hpc _ => exact .inside (by rw [hpc]; rfl) rfl
  | @setRunning r st hpc =>
      refine .inside ?_ rfl
      rw [hpc]
      cases st <;> rfl
  | refuse hpc => exact .step (by rw [hpc]; rfl)
  | @ring r st hpc _ =>
      have hcrit : (ReqPc.wait st (.check .woken)).critical = (s.req r).critical := by
        rw [hpc]
        rfl
      exact .same (fun _ => inside_setReq hcrit) fun _ => rfl
  | skipRing hpc _ => exact .step (by rw [hpc]; rfl)
  | complete hpc _ => exact .step (by rw [hpc]; rfl)
  | sleep hpc _ => exact .step (by rw [hpc]; rfl)
  | timeout hpc _ => exact .step (by rw [hpc]; rfl)
  | signal hpc _ => exact .step (by rw [hpc]; rfl)
  | @unlock r st ret hpc =>
      refine .release r ((reqs r).chan st) ?_ ?_ ?_ ?_ ?_
      · simp only [inside, hpc, ReqPc.critical, Option.map_some]
      · simp only [inside, State.setReq_req_self, afterStage_critical, Option.map_none]
      · simp only [owner, State.setReq_ctx, State.setCtx_ctx_self]
      · exact fun r' hr => inside_setReq_ne hr
      · exact fun ch hch => owner_setCtx_ne hch
  | rouse hpc _ => exact .step (by rw [hpc]; rfl)
  | raise _ => exact .same (fun _ => rfl) fun _ => owner_setCtx rfl
  | idle _ => exact .same (fun _ => rfl) fun _ => rfl
  | read _ _ => exact .same (fun _ => rfl) fun _ => rfl
  | store _ => exact .same (fun _ => rfl) fun _ => owner_setCtx rfl
  | clear _ => exact .same (fun _ => rfl) fun _ => owner_setCtx rfl
  | @wake sc ch status _ _ =>
      exact .same (fun r => inside_of_critical (wakeUp_critical s.req ch r)) fun _ =>
        owner_setCtx rfl
  | skipWake _ _ => exact .same (fun _ => rfl) fun _ => rfl

/-! ## Marks and the flag -/

theorem Fires.rung_cases {s t : State} {a : Action} (h : Fires reqs s a t) {c : Call}
    (hc : t.rung c = true) :
    s.rung c = true ∨
      s.req c.request = .doorbell c.stage ∧
        t.req c.request = .wait c.stage (.check .woken) := by
  cases h with
  | @ring r st hpc _ =>
      by_cases hcall : c = ⟨r, st⟩
      · subst hcall
        exact Or.inr ⟨hpc, State.setReq_req_self ..⟩
      · have hold : s.rung c = true := by
          rw [← Function.update_of_ne hcall true s.rung]
          exact hc
        exact Or.inl hold
  | _ => exact Or.inl hc

theorem Fires.rung_mono {s t : State} {a : Action} (h : Fires reqs s a t) {c : Call}
    (hc : s.rung c = true) : t.rung c = true := by
  cases h with
  | @ring r st _ _ =>
      by_cases hcall : c = ⟨r, st⟩
      · subst hcall
        exact Function.update_self ..
      · exact (Function.update_of_ne hcall ..).trans hc
  | _ => exact hc

theorem marked_eq_true {f : Call → Bool} {o : Option Call} {on : Bool} {c : Call} :
    marked f o on c = true ↔ f c = true ∨ o = some c ∧ on = true := by
  simp [marked]

theorem Fires.stopped_cases {s t : State} {a : Action} (h : Fires reqs s a t) {c : Call}
    (hc : t.stopped c = true) :
    s.stopped c = true ∨ s.rung c = true ∧
      ∃ bits, a = .raise (chanOf reqs c) (some c) bits ∧ HasStop bits := by
  cases h with
  | @raise ch o bits hallowed =>
      rcases marked_eq_true.mp hc with h | ⟨rfl, h⟩
      · exact Or.inl h
      · obtain ⟨hrung, rfl⟩ := hallowed
        exact Or.inr ⟨hrung, bits, rfl, of_decide_eq_true h⟩
  | _ => exact Or.inl hc

theorem Fires.aborted_cases {s t : State} {a : Action} (h : Fires reqs s a t) {c : Call}
    (hc : t.aborted c = true) :
    s.aborted c = true ∨ s.rung c = true ∧
      ∃ bits, a = .raise (chanOf reqs c) (some c) bits ∧ HasAbort bits := by
  cases h with
  | @raise ch o bits hallowed =>
      rcases marked_eq_true.mp hc with h | ⟨rfl, h⟩
      · exact Or.inl h
      · obtain ⟨hrung, rfl⟩ := hallowed
        exact Or.inr ⟨hrung, bits, rfl, of_decide_eq_true h⟩
  | _ => exact Or.inl hc

theorem KthreadPc.not_serves {pc : KthreadPc} (h : pc.free = true) (sc : Scan) (ch : Chan)
    (status : IntStatus) : ¬ pc.Serves sc ch status := by
  rintro (rfl | rfl | rfl) <;> cases h

theorem afterScan_free (sc : Scan) : (afterScan sc).free = true := by
  cases sc <;> rfl

/-- What the thread serves after a step it served before, or has just read. -/
theorem Fires.serves_cases {s t : State} {a : Action} (h : Fires reqs s a t) {sc : Scan}
    {ch : Chan} {status : IntStatus} (ht : t.thread.pc.Serves sc ch status) :
    s.thread.pc.Serves sc ch status ∧ t.thread.flag = s.thread.flag ∨
      s.thread.pc = .read sc ch ∧ status = (s.ctx ch).intStatus ∧ HasEvent status.value ∧
        t.thread.flag = scanFlag s sc status := by
  cases h with
  | @idle _ th n flag stop hth =>
      rcases hth with ⟨_, hfree, _⟩ | ⟨_, rfl⟩
      · exact absurd ht (KthreadPc.not_serves hfree _ _ _)
      · exact Or.inl ⟨ht, rfl⟩
  | @read sc' ch' hpc he =>
      rcases ht with h | h | h
      · simp only [KthreadPc.store.injEq] at h
        obtain ⟨rfl, rfl, rfl⟩ := h
        exact Or.inr ⟨hpc, rfl, he, rfl⟩
      · cases h
      · cases h
  | @store sc' ch' status' hpc =>
      rcases ht with h | h | h
      · cases h
      · simp only [State.setPc_pc, KthreadPc.clear.injEq] at h
        obtain ⟨rfl, rfl, rfl⟩ := h
        exact Or.inl ⟨Or.inl hpc, rfl⟩
      · cases h
  | @clear sc' ch' status' hpc =>
      rcases ht with h | h | h
      · cases h
      · cases h
      · simp only [State.setPc_pc, KthreadPc.wake.injEq] at h
        obtain ⟨rfl, rfl, rfl⟩ := h
        exact Or.inl ⟨Or.inr (Or.inl hpc), rfl⟩
  | @wake sc' ch' status' _ _ =>
      exact absurd ht (KthreadPc.not_serves (afterScan_free sc') _ _ _)
  | @skipWake sc' ch' status' _ _ =>
      exact absurd ht (KthreadPc.not_serves (afterScan_free sc') _ _ _)
  | _ => exact Or.inl ⟨ht, rfl⟩

theorem intStatus_setCtx {s : State} {ch ch' : Chan} {c : HdmaContext}
    (h : c.intStatus = (s.ctx ch).intStatus) :
    ((s.setCtx ch c).ctx ch').intStatus = (s.ctx ch').intStatus := by
  by_cases hch : ch' = ch
  · subst hch
    rw [State.setCtx_ctx_self, h]
  · rw [s.setCtx_ctx_ne hch]

theorem Fires.pending_cases {s t : State} {a : Action} (h : Fires reqs s a t) {ch : Chan}
    {e : Raise (Option Call) 32} (he : e ∈ (t.ctx ch).intStatus) :
    (∃ e₀ ∈ (s.ctx ch).intStatus, e.origin = e₀.origin) ∨
      ∀ c, e.origin = some c → s.rung c = true := by
  have hsame : (t.ctx ch).intStatus = (s.ctx ch).intStatus →
      ∃ e₀ ∈ (s.ctx ch).intStatus, e.origin = e₀.origin := by
    intro heq
    exact ⟨e, heq ▸ he, rfl⟩
  cases h with
  | @raise ch' o bits hallowed =>
      by_cases hch : ch = ch'
      · subst hch
        have hctx : ((s.setCtx ch
            { s.ctx ch with intStatus := (s.ctx ch).intStatus.raise o bits }).ctx ch).intStatus =
            (s.ctx ch).intStatus.raise o bits := by
          rw [State.setCtx_ctx_self]
        have he' : e ∈ (s.ctx ch).intStatus.raise o bits := by
          rw [← hctx]
          exact he
        rcases List.mem_cons.mp he' with rfl | hold
        · refine Or.inr fun c hc => ?_
          have ho : o = some c := hc
          subst ho
          exact hallowed.1
        · exact Or.inl ⟨e, hold, rfl⟩
      · exact Or.inl (hsame (congrArg HdmaContext.intStatus (s.setCtx_ctx_ne hch _)))
  | @clear sc ch' status _ =>
      by_cases hch : ch = ch'
      · subst hch
        have hctx : ((s.setCtx ch
            { s.ctx ch with
              intStatus :=
                (s.ctx ch).intStatus.clear (hdmaClearIntrStatus status.value) }).ctx ch).intStatus =
            (s.ctx ch).intStatus.clear (hdmaClearIntrStatus status.value) := by
          rw [State.setCtx_ctx_self]
        have he' : e ∈ (s.ctx ch).intStatus.clear (hdmaClearIntrStatus status.value) := by
          rw [← hctx]
          exact he
        obtain ⟨e₀, he₀, ho, _⟩ := Sticky.mem_clear he'
        exact Or.inl ⟨e₀, he₀, ho⟩
      · exact Or.inl (hsame (congrArg HdmaContext.intStatus (s.setCtx_ctx_ne hch _)))
  | lock _ _ => exact Or.inl (hsame (intStatus_setCtx rfl))
  | program _ _ => exact Or.inl (hsame (intStatus_setCtx rfl))
  | setRunning _ => exact Or.inl (hsame (intStatus_setCtx rfl))
  | unlock _ => exact Or.inl (hsame (intStatus_setCtx rfl))
  | store _ => exact Or.inl (hsame (intStatus_setCtx rfl))
  | wake _ _ => exact Or.inl (hsame (intStatus_setCtx rfl))
  | _ => exact Or.inl (hsame rfl)

/-! ## The invariant of every run -/

theorem Base.initial {s : State} (h : Initial s) : Base reqs s where
  locks := Locks.Owned.none
    (fun r => by simp only [inside, h.req r, ReqPc.critical, Option.map_none])
    fun ch => h.lock ch
  rung c hc := by
    rw [h.rung c] at hc
    cases hc
  stopped c hc := by
    rw [h.stopped c] at hc
    cases hc
  aborted c hc := by
    rw [h.aborted c] at hc
    cases hc
  pending ch e he := by
    rw [h.intStatus ch] at he
    cases he
  snapshot sc ch status hpc := by
    rw [h.thread] at hpc
    exact absurd hpc (KthreadPc.not_serves rfl _ _ _)
  event sc ch status hpc := by
    rw [h.thread] at hpc
    exact absurd hpc (KthreadPc.not_serves rfl _ _ _)
  flag ch status hpc := by
    rw [h.thread] at hpc
    exact absurd hpc (KthreadPc.not_serves rfl _ _ _)

theorem Base.step {s t : State} {a : Action} (hb : Base reqs s) (h : Fires reqs s a t) :
    Base reqs t where
  locks := hb.locks.move h.lockMove
  rung c hc := by
    rcases h.rung_cases hc with hold | ⟨_, hpc⟩
    · exact Nat.lt_of_lt_of_le (hb.rung c hold) (h.rank_le c.request)
    · rw [hpc]
      exact Nat.lt_succ_self _
  stopped c hc := by
    rcases h.stopped_cases hc with hold | ⟨hrung, _⟩
    · exact h.rung_mono (hb.stopped c hold)
    · exact h.rung_mono hrung
  aborted c hc := by
    rcases h.aborted_cases hc with hold | ⟨hrung, _⟩
    · exact h.rung_mono (hb.aborted c hold)
    · exact h.rung_mono hrung
  pending ch e he c hc := by
    rcases h.pending_cases he with ⟨e₀, he₀, ho⟩ | hrung
    · exact h.rung_mono (hb.pending ch e₀ he₀ c (ho ▸ hc))
    · exact h.rung_mono (hrung c hc)
  snapshot sc ch status hpc e he c hc := by
    rcases h.serves_cases hpc with ⟨hold, _⟩ | ⟨_, rfl, _, _⟩
    · exact h.rung_mono (hb.snapshot sc ch status hold e he c hc)
    · exact h.rung_mono (hb.pending ch e he c hc)
  event sc ch status hpc := by
    rcases h.serves_cases hpc with ⟨hold, _⟩ | ⟨_, _, hev, _⟩
    · exact hb.event sc ch status hold
    · exact hev
  flag ch status hpc := by
    rcases h.serves_cases hpc with ⟨hold, hflag⟩ | ⟨_, _, _, hflag⟩
    · rw [hflag]
      exact hb.flag ch status hold
    · exact hflag

theorem base_of_reachable {s : State} (h : (system reqs).Reachable s) : Base reqs s :=
  StepSystem.Reachable.invariant (fun _ hi => Base.initial hi)
    (fun s a t hb (hs : EonDrv.Completion.step reqs s a = some t) =>
      hb.step (fires_of_step hs)) h

theorem Base.holds {s : State} (hb : Base reqs s) {r : Nat} {st : Stage}
    (h : (s.req r).critical = some st) : (s.ctx ((reqs r).chan st)).lock = some r := by
  refine (hb.locks r _).mp ?_
  unfold inside
  rw [h]
  rfl

theorem Base.held {s : State} (hb : Base reqs s) {ch : Chan} {r : Nat}
    (h : (s.ctx ch).lock = some r) :
    ∃ st, (s.req r).critical = some st ∧ (reqs r).chan st = ch :=
  Option.map_eq_some_iff.mp ((hb.locks r ch).mpr h)

end Completion
end EonDrv

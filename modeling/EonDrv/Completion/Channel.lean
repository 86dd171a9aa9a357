import EonDrv.Completion.Base
import EonDrv.Support.Doorbell

/-!
# A channel is a doorbell cell

One channel of the completion path, with the request that holds its lock and the
status the thread has read from it, is one cell of the doorbell handshake.  Every
step of the system is one step of every cell, so that a condition on the steps
carries over to the invariants of the handshake.
-/

namespace EonDrv
namespace Completion

open Doorbell (Phase Active Held Cell Event)

def masks : Doorbell.Masks 32 where
  event := eventMask
  stop := stopBit
  abort := abortBit
  stop_event b hstop := by
    intro hevent
    apply hstop
    have hmask : stopBit = eventMask &&& stopBit := by decide
    rw [hmask, ← BitVec.and_assoc, hevent, BitVec.zero_and]

def WaitPc.phase : WaitPc → Phase
  | .check _ => .awake
  | .asleep => .asleep

/-- The stage and phase of a request, from its store of `RUNNING` to the end of
its wait. -/
def ReqPc.phase : ReqPc → Option (Stage × Phase)
  | .batch _ => some (.data, .armed)
  | .doorbell st => some (st, .armed)
  | .wait st w => some (st, w.phase)
  | _ => none

/-- The token scan wakes for a stop bit, the extra scan always. -/
def Scan.wakesFor : Scan → IntStatus → Bool
  | .token, status => HasStop status.value
  | .extra, _ => true

def KthreadPc.held (pc : KthreadPc) (ch : Chan) : Option (Held Call 32) :=
  match pc with
  | .store sc ch' status => if ch' = ch then some ⟨.store, sc.wakesFor status, status⟩ else none
  | .clear sc ch' status => if ch' = ch then some ⟨.clear, sc.wakesFor status, status⟩ else none
  | .wake sc ch' status => if ch' = ch then some ⟨.wake, sc.wakesFor status, status⟩ else none
  | _ => none

section

variable (reqs : Nat → HdmaRequest)

def activeAt (s : State) (r : Nat) (sp : Stage × Phase) : Active Call :=
  ⟨⟨r, sp.1⟩, (reqs r).rings sp.1, sp.2, s.rung ⟨r, sp.1⟩, s.stopped ⟨r, sp.1⟩,
    s.aborted ⟨r, sp.1⟩⟩

def active (s : State) (r : Nat) : Option (Active Call) :=
  (s.req r).phase.map (activeAt reqs s r)

def cell (s : State) (ch : Chan) : Cell Call 32 where
  call := (s.ctx ch).lock.bind (active reqs s)
  running := (s.ctx ch).state == .running
  status := (s.ctx ch).intStatus
  credit := (s.ctx ch).credit
  owed := (s.ctx ch).owed
  held := s.thread.pc.held ch

/-- What the event of a cell says about the step. -/
def Shows (s : State) (a : Action) (ch : Chan) : Event Call 32 → Prop
  | .arm c _ => a = .request c.request ∧ s.req c.request = .setRunning c.stage ∧
      chanOf reqs c = ch
  | .raise o bits => a = .raise ch o bits
  | .read b => a = .thread ∧ ∃ sc, s.thread.pc = .read sc ch ∧
      HasEvent (s.ctx ch).intStatus.value ∧ b = sc.wakesFor (s.ctx ch).intStatus
  | .store => a = .thread ∧ ∃ sc status, s.thread.pc = .store sc ch status
  | .cut ok => ∃ r st why, a = .request r ∧ s.req r = .wait st (.check why) ∧
      (reqs r).chan st = ch ∧ (s.ctx ch).state = .running ∧ why ≠ .woken ∧
      (ok = true ↔ why = .signal)
  | _ => True

variable {reqs}

/-! ## Cells that a step leaves alone -/

theorem phase_critical {pc : ReqPc} {sp : Stage × Phase} (h : pc.phase = some sp) :
    pc.critical = some sp.1 := by
  cases pc <;> simp only [ReqPc.phase, Option.some.injEq, reduceCtorEq] at h
  all_goals
    subst h
    rfl

theorem Moves.phase_eq {q : HdmaRequest} {pc pc' : ReqPc} (h : Moves q pc pc') :
    pc'.phase = pc.phase := by
  cases h <;> rfl

theorem cell_call {s : State} {ch : Chan} {r : Nat} (h : (s.ctx ch).lock = some r) :
    (cell reqs s ch).call = active reqs s r := by
  show (s.ctx ch).lock.bind (active reqs s) = _
  rw [h]
  rfl

theorem cell_call_none {s : State} {ch : Chan} (h : (s.ctx ch).lock = none) :
    (cell reqs s ch).call = none := by
  show (s.ctx ch).lock.bind (active reqs s) = _
  rw [h]
  rfl

theorem Base.cell_call {s : State} (hb : Base reqs s) {r : Nat} {sp : Stage × Phase}
    (h : (s.req r).phase = some sp) :
    (cell reqs s ((reqs r).chan sp.1)).call = some (activeAt reqs s r sp) := by
  rw [Completion.cell_call (hb.holds (phase_critical h)), active, h]
  rfl

theorem Base.of_cell_call {s : State} (hb : Base reqs s) {ch : Chan} {a : Active Call}
    (h : (cell reqs s ch).call = some a) :
    ∃ r sp, (s.req r).phase = some sp ∧ (reqs r).chan sp.1 = ch ∧ a = activeAt reqs s r sp := by
  cases hl : (s.ctx ch).lock with
  | none =>
      rw [cell_call_none hl] at h
      cases h
  | some r =>
      rw [Completion.cell_call hl] at h
      obtain ⟨sp, hsp, rfl⟩ := Option.map_eq_some_iff.mp h
      obtain ⟨st, hst, hch⟩ := hb.held hl
      rw [phase_critical hsp, Option.some.injEq] at hst
      exact ⟨r, sp, hsp, hst ▸ hch, rfl⟩

theorem Base.lock_ne {s : State} (hb : Base reqs s) {r : Nat} {ch : Chan}
    (h : ∀ st, (s.req r).critical = some st → (reqs r).chan st ≠ ch) :
    (s.ctx ch).lock ≠ some r := by
  intro hl
  obtain ⟨st, hc, hch⟩ := hb.held hl
  exact h st hc hch

theorem cell_congr {s t : State} {ch : Chan}
    (hlock : (t.ctx ch).lock = (s.ctx ch).lock)
    (hstate : (t.ctx ch).state = (s.ctx ch).state)
    (hstatus : (t.ctx ch).intStatus = (s.ctx ch).intStatus)
    (hcredit : (t.ctx ch).credit = (s.ctx ch).credit)
    (howed : (t.ctx ch).owed = (s.ctx ch).owed)
    (hactive : ∀ r, (s.ctx ch).lock = some r → active reqs t r = active reqs s r)
    (hheld : t.thread.pc.held ch = s.thread.pc.held ch) :
    cell reqs t ch = cell reqs s ch := by
  have hcall : (t.ctx ch).lock.bind (active reqs t) = (s.ctx ch).lock.bind (active reqs s) := by
    rw [hlock]
    cases hl : (s.ctx ch).lock with
    | none => rfl
    | some r => exact hactive r hl
  unfold cell
  rw [hcall, hstate, hstatus, hcredit, howed, hheld]

theorem active_setReq_ne {s : State} {r r' : Nat} (h : r' ≠ r) (pc : ReqPc) :
    active reqs (s.setReq r pc) r' = active reqs s r' := by
  show ((s.setReq r pc).req r').phase.map _ = _
  rw [s.setReq_req_ne h]
  rfl

theorem cell_setReq_ne {s : State} {r : Nat} {pc : ReqPc} {ch : Chan}
    (h : (s.ctx ch).lock ≠ some r) : cell reqs (s.setReq r pc) ch = cell reqs s ch :=
  cell_congr rfl rfl rfl rfl rfl
    (fun r' hl => active_setReq_ne (by rintro rfl; exact h hl) pc) rfl

theorem cell_setReq_phase {s : State} {r : Nat} {pc : ReqPc} {ch : Chan}
    (h : pc.phase = (s.req r).phase) : cell reqs (s.setReq r pc) ch = cell reqs s ch := by
  refine cell_congr rfl rfl rfl rfl rfl (fun r' _ => ?_) rfl
  by_cases hr : r' = r
  · subst hr
    show ((s.setReq r' pc).req r').phase.map _ = _
    rw [State.setReq_req_self, h]
    rfl
  · exact active_setReq_ne hr pc

theorem cell_setCtx_ne {s : State} {ch ch' : Chan} (h : ch' ≠ ch) (c : HdmaContext) :
    cell reqs (s.setCtx ch c) ch' = cell reqs s ch' := by
  have hctx := s.setCtx_ctx_ne h c
  exact cell_congr (by rw [hctx]) (by rw [hctx]) (by rw [hctx]) (by rw [hctx]) (by rw [hctx])
    (fun _ _ => rfl) rfl

theorem cell_setPc {s : State} {pc : KthreadPc} {ch : Chan}
    (h : pc.held ch = s.thread.pc.held ch) : cell reqs (s.setPc pc) ch = cell reqs s ch :=
  cell_congr rfl rfl rfl rfl rfl (fun _ _ => rfl) h

theorem held_free {pc : KthreadPc} (h : pc.free = true) (ch : Chan) : pc.held ch = none := by
  cases pc <;> first | rfl | cases h

/-! ## Cells that a step changes -/

theorem cell_holder {s t : State} {ch : Chan} {r : Nat} (hctx : t.ctx ch = s.ctx ch)
    (hthread : t.thread = s.thread) (hl : (s.ctx ch).lock = some r) :
    cell reqs t ch = { cell reqs s ch with call := active reqs t r } := by
  have hcall : (t.ctx ch).lock.bind (active reqs t) = active reqs t r := by
    rw [hctx, hl]
    rfl
  unfold cell
  rw [hcall, hctx, hthread]

theorem cell_setReq_self {s : State} {r : Nat} {pc : ReqPc} {ch : Chan}
    (h : (s.ctx ch).lock = some r) :
    cell reqs (s.setReq r pc) ch =
      { cell reqs s ch with call := pc.phase.map (activeAt reqs s r) } := by
  have hactive : active reqs (s.setReq r pc) r = pc.phase.map (activeAt reqs s r) := by
    unfold active
    rw [State.setReq_req_self]
    rfl
  rw [cell_holder (s := s) (t := s.setReq r pc) rfl rfl h, hactive]

theorem cell_setCtx_self (s : State) (ch : Chan) (c : HdmaContext) :
    cell reqs (s.setCtx ch c) ch =
      ⟨c.lock.bind (active reqs s), c.state == .running, c.intStatus, c.credit, c.owed,
        s.thread.pc.held ch⟩ := by
  unfold cell
  rw [State.setCtx_ctx_self]
  rfl

theorem Base.cell_elsewhere {s : State} (hb : Base reqs s) {r : Nat} {ch ch' : Chan}
    (hcrit : ∀ st, (s.req r).critical = some st → (reqs r).chan st = ch) (hne : ch' ≠ ch)
    (c : HdmaContext) (pc : ReqPc) :
    cell reqs ((s.setCtx ch c).setReq r pc) ch' = cell reqs s ch' := by
  have hlock : (s.ctx ch').lock ≠ some r :=
    hb.lock_ne fun st hst heq => hne (heq.symm.trans (hcrit st hst))
  have hlock' : ((s.setCtx ch c).ctx ch').lock ≠ some r := by
    rw [s.setCtx_ctx_ne hne]
    exact hlock
  rw [cell_setReq_ne hlock', cell_setCtx_ne hne]

theorem Base.rung_false {s : State} (hb : Base reqs s) {c : Call}
    (h : (s.req c.request).rank ≤ c.stage.doorRank) : s.rung c = false := by
  cases hr : s.rung c with
  | false => rfl
  | true =>
      have hlt := hb.rung c hr
      omega

theorem Base.stopped_false {s : State} (hb : Base reqs s) {c : Call}
    (h : s.rung c = false) : s.stopped c = false := by
  cases hs : s.stopped c with
  | false => rfl
  | true =>
      rw [hb.stopped c hs] at h
      cases h

theorem Base.aborted_false {s : State} (hb : Base reqs s) {c : Call}
    (h : s.rung c = false) : s.aborted c = false := by
  cases hs : s.aborted c with
  | false => rfl
  | true =>
      rw [hb.aborted c hs] at h
      cases h

theorem held_serves {pc : KthreadPc} {ch : Chan} {h : Held Call 32} (hh : pc.held ch = some h) :
    ∃ sc, pc.Serves sc ch h.status ∧ h.wakes = sc.wakesFor h.status := by
  cases pc <;> simp only [KthreadPc.held, reduceCtorEq] at hh
  all_goals
    split at hh <;> simp only [Option.some.injEq, reduceCtorEq] at hh
    rename_i hch
    subst hch hh
  · exact ⟨_, Or.inl rfl, rfl⟩
  · exact ⟨_, Or.inr (Or.inl rfl), rfl⟩
  · exact ⟨_, Or.inr (Or.inr rfl), rfl⟩

/-- A call whose doorbell is not rung has raised nothing. -/
theorem Base.fresh {s : State} (hb : Base reqs s) {c : Call} (h : s.rung c = false)
    (ch : Chan) : Doorbell.Fresh (cell reqs s ch) c := by
  have hno : ∀ e : Raise (Option Call) 32,
      (∀ c', e.origin = some c' → s.rung c' = true) → e.origin ≠ some c := by
    intro e he ho
    rw [he c ho] at h
    cases h
  refine ⟨fun e he => hno e (hb.pending ch e he), fun hd hh e he => ?_⟩
  obtain ⟨sc, hserves, _⟩ := held_serves hh
  exact hno e (hb.snapshot sc ch hd.status hserves e he)

theorem hasStop_iff (w : BitVec 32) : HasStop w ↔ w.getLsbD 0 = true := by
  unfold HasStop stopBit
  rw [BitVec.and_one_eq_setWidth_ofBool_getLsbD]
  cases w.getLsbD 0 <;> decide

theorem flag_wakes (w : BitVec 32) :
    (((w &&& 3#32).truncate 8 &&& 1#8) == 1#8) = decide (HasStop w) := by
  have hbit : ((w &&& 3#32).truncate 8 : BitVec 8).getLsbD 0 = w.getLsbD 0 := by
    simp [BitVec.truncate_eq_setWidth]
  rw [BitVec.and_one_eq_setWidth_ofBool_getLsbD, hbit]
  cases h : w.getLsbD 0 with
  | false =>
      have hno : ¬ HasStop w := by rw [hasStop_iff, h]; exact Bool.false_ne_true
      rw [decide_eq_false hno]
      decide
  | true =>
      rw [decide_eq_true ((hasStop_iff w).mpr h)]
      decide

theorem Base.wakes_eq {s : State} (hb : Base reqs s) {sc : Scan} {ch : Chan}
    {status : IntStatus} (h : s.thread.pc = .wake sc ch status) :
    wakes sc s.thread.flag = sc.wakesFor status := by
  cases sc with
  | extra => rfl
  | token =>
      rw [hb.flag ch status (Or.inr (Or.inr h))]
      exact flag_wakes status.value

/-! ## Every step is a step of every cell -/

/-- One step of the cell, with what its event says about the step taken. -/
def Follows (reqs : Nat → HdmaRequest) (s : State) (a : Action) (t : State) (ch : Chan) : Prop :=
  ∃ e, Shows reqs s a ch e ∧ Doorbell.Step masks (cell reqs s ch) e (cell reqs t ch)

theorem Follows.other {s t : State} {a : Action} {ch : Chan}
    (h : cell reqs t ch = cell reqs s ch) : Follows reqs s a t ch :=
  ⟨.other, trivial, h ▸ .other⟩

theorem Follows.lock {s : State} (hb : Base reqs s) {a : Action} {r : Nat} {st : Stage}
    (hpc : s.req r = .lock st) (hl : (s.ctx ((reqs r).chan st)).lock = none) (ch : Chan) :
    Follows reqs s a
      ((s.setCtx ((reqs r).chan st)
        { s.ctx ((reqs r).chan st) with lock := some r }).setReq r (.program st 0)) ch := by
  refine .other ?_
  by_cases hch : ch = (reqs r).chan st
  · subst hch
    have hlock : ((s.setCtx ((reqs r).chan st)
        { s.ctx ((reqs r).chan st) with lock := some r }).ctx ((reqs r).chan st)).lock =
        some r := by
      rw [State.setCtx_ctx_self]
    have hnone : (none : Option (Active Call)) = (cell reqs s ((reqs r).chan st)).call :=
      (cell_call_none hl).symm
    rw [cell_setReq_self hlock, cell_setCtx_self]
    show Cell.mk none _ _ _ _ _ = _
    rw [hnone]
    rfl
  · refine hb.cell_elsewhere (fun st' hst => ?_) hch _ _
    rw [hpc] at hst
    cases hst

theorem Follows.unlock {s : State} (hb : Base reqs s) {a : Action} {r : Nat} {st : Stage}
    {ret : Int} (hpc : s.req r = .unlock st ret) (ch : Chan) :
    Follows reqs s a
      ((s.setCtx ((reqs r).chan st)
        { s.ctx ((reqs r).chan st) with lock := none }).setReq r (afterStage st ret)) ch := by
  have hcrit : (s.req r).critical = some st := by rw [hpc]; rfl
  refine .other ?_
  by_cases hch : ch = (reqs r).chan st
  · subst hch
    have hnone : (none : Option (Active Call)) = (cell reqs s ((reqs r).chan st)).call := by
      rw [cell_call (hb.holds hcrit), active, hpc]
      rfl
    rw [cell_setReq_ne (by rw [State.setCtx_ctx_self]; simp), cell_setCtx_self]
    show Cell.mk none _ _ _ _ _ = _
    rw [hnone]
    rfl
  · refine hb.cell_elsewhere (fun st' hst => ?_) hch _ _
    rw [hcrit, Option.some.injEq] at hst
    rw [hst]

theorem Follows.program {s : State} {a : Action} {r : Nat} {st : Stage}
    {k k' : Nat} (hpc : s.req r = .program st k) (regs : HdmaReg → BitVec 32) (ch : Chan) :
    Follows reqs s a
      ((s.setCtx ((reqs r).chan st)
        { s.ctx ((reqs r).chan st) with regs := regs }).setReq r (.program st k')) ch := by
  refine .other ?_
  have hctx : cell reqs (s.setCtx ((reqs r).chan st)
      { s.ctx ((reqs r).chan st) with regs := regs }) ch = cell reqs s ch := by
    by_cases hch : ch = (reqs r).chan st
    · subst hch
      rw [cell_setCtx_self]
      rfl
    · exact cell_setCtx_ne hch _
  rw [cell_setReq_phase (by rw [State.setCtx_req, hpc]; rfl), hctx]

theorem Follows.setRunning {s : State} (hb : Base reqs s) {r : Nat} {st : Stage}
    (hpc : s.req r = .setRunning st) (ch : Chan) :
    Follows reqs s (.request r)
      ((s.setCtx ((reqs r).chan st)
        { s.ctx ((reqs r).chan st) with state := .running }).setReq r (afterRunning st)) ch := by
  have hcrit : (s.req r).critical = some st := by rw [hpc]; rfl
  by_cases hch : ch = (reqs r).chan st
  · subst hch
    have hl := hb.holds hcrit
    have hrung : s.rung ⟨r, st⟩ = false := by
      refine hb.rung_false ?_
      show (s.req r).rank ≤ st.doorRank
      rw [hpc]
      simp [ReqPc.rank, Stage.doorRank]
    have hnone : (cell reqs s ((reqs r).chan st)).call = none := by
      rw [cell_call hl, active, hpc]
      rfl
    have hlock : ((s.setCtx ((reqs r).chan st)
        { s.ctx ((reqs r).chan st) with state := .running }).ctx ((reqs r).chan st)).lock =
        some r := by
      rw [State.setCtx_ctx_self]
      exact hl
    have hphase : (afterRunning st).phase = some (st, .armed) := by cases st <;> rfl
    have hactive : activeAt reqs (s.setCtx ((reqs r).chan st)
        { s.ctx ((reqs r).chan st) with state := .running }) r (st, .armed) =
        ⟨⟨r, st⟩, (reqs r).rings st, .armed, false, false, false⟩ := by
      simp only [activeAt, State.setCtx_rung, State.setCtx_stopped, State.setCtx_aborted, hrung,
        hb.stopped_false hrung, hb.aborted_false hrung]
    refine ⟨.arm ⟨r, st⟩ ((reqs r).rings st), ⟨rfl, hpc, rfl⟩, ?_⟩
    rw [cell_setReq_self hlock, cell_setCtx_self, hphase, Option.map_some, hactive]
    exact .arm hnone (hb.fresh hrung ((reqs r).chan st))
  · refine .other (hb.cell_elsewhere (fun st' hst => ?_) hch _ _)
    rw [hcrit, Option.some.injEq] at hst
    rw [hst]

theorem Follows.setReq {s : State} (hb : Base reqs s) {a : Action} {r : Nat} {st : Stage}
    {pc : ReqPc} {e : Event Call 32} (hcrit : (s.req r).critical = some st)
    (hshow : Shows reqs s a ((reqs r).chan st) e)
    (hstep : Doorbell.Step masks (cell reqs s ((reqs r).chan st)) e
      { cell reqs s ((reqs r).chan st) with call := pc.phase.map (activeAt reqs s r) })
    (ch : Chan) : Follows reqs s a (s.setReq r pc) ch := by
  by_cases hch : ch = (reqs r).chan st
  · subst hch
    refine ⟨e, hshow, ?_⟩
    rw [cell_setReq_self (hb.holds hcrit)]
    exact hstep
  · refine .other (cell_setReq_ne (hb.lock_ne fun st' hst heq => hch ?_))
    rw [hcrit, Option.some.injEq] at hst
    rw [← heq, hst]

theorem Follows.ring {s : State} (hb : Base reqs s) {r : Nat} {st : Stage}
    (hpc : s.req r = .doorbell st) (hrings : (reqs r).rings st = true) (ch : Chan) :
    Follows reqs s (.request r)
      { s.setReq r (.wait st (.check .woken)) with
        rung := Function.update s.rung ⟨r, st⟩ true } ch := by
  have hphase : (s.req r).phase = some (st, .armed) := by rw [hpc]; rfl
  have hl := hb.holds (phase_critical hphase)
  by_cases hch : ch = (reqs r).chan st
  · subst hch
    refine ⟨.ring, trivial, ?_⟩
    have hactive : active reqs { s.setReq r (.wait st (.check .woken)) with
        rung := Function.update s.rung ⟨r, st⟩ true } r =
        some { activeAt reqs s r (st, .armed) with
          phase := .awake
          rung := (activeAt reqs s r (st, .armed)).rings } := by
      show ((s.setReq r (.wait st (.check .woken))).req r).phase.map _ = _
      rw [State.setReq_req_self]
      simp [ReqPc.phase, WaitPc.phase, activeAt, hrings]
    rw [cell_holder (s := s) (t := { s.setReq r (.wait st (.check .woken)) with
      rung := Function.update s.rung ⟨r, st⟩ true }) rfl rfl hl, hactive]
    exact .ring (hb.cell_call hphase) rfl
  · refine .other (cell_congr rfl rfl rfl rfl rfl (fun r' hl' => ?_) rfl)
    have hr : r' ≠ r := by
      rintro rfl
      obtain ⟨st', hc, heq⟩ := hb.held hl'
      rw [phase_critical hphase, Option.some.injEq] at hc
      exact hch (by rw [← heq, ← hc])
    have hcalls : ∀ st', (⟨r', st'⟩ : Call) ≠ ⟨r, st⟩ := by
      intro st' heq
      exact hr (congrArg Call.request heq)
    show ((s.setReq r _).req r').phase.map _ = _
    rw [s.setReq_req_ne hr]
    unfold active activeAt
    simp only [Function.update_of_ne (hcalls _)]
    rfl

theorem activeAt_marked {s t : State} {o : Option Call} {bits : BitVec 32} {r : Nat}
    {sp : Stage × Phase} (hrung : t.rung = s.rung)
    (hstopped : t.stopped = marked s.stopped o (HasStop bits))
    (haborted : t.aborted = marked s.aborted o (HasAbort bits)) :
    activeAt reqs t r sp = (activeAt reqs s r sp).mark masks o bits := by
  unfold activeAt Active.mark
  rw [hrung, hstopped, haborted]
  rfl

theorem Follows.raise {s : State} (hb : Base reqs s) {ch₀ : Chan} {o : Option Call}
    {bits : BitVec 32} (hallowed : RaiseAllowed reqs s ch₀ o) (ch : Chan) :
    Follows reqs s (.raise ch₀ o bits)
      { s.setCtx ch₀ { s.ctx ch₀ with intStatus := (s.ctx ch₀).intStatus.raise o bits } with
        mem := memAfter reqs s.mem o bits
        stopped := marked s.stopped o (HasStop bits)
        aborted := marked s.aborted o (HasAbort bits) } ch := by
  generalize ht : ({ s.setCtx ch₀
    { s.ctx ch₀ with intStatus := (s.ctx ch₀).intStatus.raise o bits } with
      mem := memAfter reqs s.mem o bits
      stopped := marked s.stopped o (HasStop bits)
      aborted := marked s.aborted o (HasAbort bits) } : State) = t
  have hrung : t.rung = s.rung := by rw [← ht]; rfl
  have hstopped : t.stopped = marked s.stopped o (HasStop bits) := by rw [← ht]
  have haborted : t.aborted = marked s.aborted o (HasAbort bits) := by rw [← ht]
  have hreq : t.req = s.req := by rw [← ht]; rfl
  have hthread : t.thread = s.thread := by rw [← ht]; rfl
  have hmark : ∀ r, active reqs t r = (active reqs s r).map fun a => a.mark masks o bits := by
    intro r
    unfold active
    rw [hreq]
    cases (s.req r).phase with
    | none => rfl
    | some sp => exact congrArg some (activeAt_marked hrung hstopped haborted)
  by_cases hch : ch = ch₀
  · subst hch
    have hctx : t.ctx ch =
        { s.ctx ch with intStatus := (s.ctx ch).intStatus.raise o bits } := by
      rw [← ht]
      exact State.setCtx_ctx_self ..
    have hcall : (t.ctx ch).lock.bind (active reqs t) =
        (cell reqs s ch).call.map fun a => a.mark masks o bits := by
      show _ = ((s.ctx ch).lock.bind (active reqs s)).map _
      rw [hctx]
      show (s.ctx ch).lock.bind _ = _
      cases (s.ctx ch).lock with
      | none => rfl
      | some r => exact hmark r
    refine ⟨.raise o bits, rfl, ?_⟩
    have hcell : cell reqs t ch =
        { cell reqs s ch with
          status := (cell reqs s ch).status.raise o bits
          call := (cell reqs s ch).call.map fun a => a.mark masks o bits } := by
      rw [← hcall]
      unfold cell
      rw [hctx, hthread]
    rw [hcell]
    refine .raise fun a ha ho => ?_
    obtain ⟨r, sp, _, _, rfl⟩ := hb.of_cell_call ha
    subst ho
    exact hallowed.1
  · have hctx : t.ctx ch = s.ctx ch := by
      rw [← ht]
      exact State.setCtx_ctx_ne _ hch _
    refine .other (cell_congr (by rw [hctx]) (by rw [hctx]) (by rw [hctx]) (by rw [hctx])
      (by rw [hctx]) (fun r hl => ?_) (by rw [hthread]))
    rw [hmark]
    cases hact : active reqs s r with
    | none => rfl
    | some a =>
        obtain ⟨r', sp, _, hsp, rfl⟩ := hb.of_cell_call ((cell_call hl).trans hact)
        -- the device raises for `o` on the channel of `o`
        refine congrArg some (Active.mark_ne fun ho => hch ?_)
        subst ho
        rw [← hsp]
        exact hallowed.2

/-! ## The thread -/

theorem held_ne {sc : Scan} {ch ch' : Chan} {status : IntStatus} (h : ch ≠ ch') :
    (KthreadPc.store sc ch status).held ch' = none ∧
      (KthreadPc.clear sc ch status).held ch' = none ∧
      (KthreadPc.wake sc ch status).held ch' = none :=
  ⟨if_neg h, if_neg h, if_neg h⟩

theorem Follows.idle {s : State} {a : Action} {th : Kthread} {n : Nat} {flag stop : Bool}
    (h : a = .thread ∧ th.pc.free = true ∧ s.thread.pc.free = true ∨
      a ≠ .thread ∧ th = s.thread) (ch : Chan) :
    Follows reqs s a
      { s with thread := th, fifo := n, shouldStopFlag := flag, kthreadShouldStop := stop }
      ch := by
  refine .other (cell_congr rfl rfl rfl rfl rfl (fun _ _ => rfl) ?_)
  rcases h with ⟨_, ht, hs⟩ | ⟨_, rfl⟩
  · rw [held_free ht, held_free hs]
  · rfl

theorem Follows.read {s : State} {sc : Scan} {ch₀ : Chan} (hpc : s.thread.pc = .read sc ch₀)
    (hevent : HasEvent (s.ctx ch₀).intStatus.value) (flag : BitVec 8) (loop : Nat) (ch : Chan) :
    Follows reqs s .thread
      { s with thread := ⟨.store sc ch₀ (s.ctx ch₀).intStatus, flag, loop⟩ } ch := by
  have hnone : (cell reqs s ch).held = none := by
    show s.thread.pc.held ch = none
    rw [hpc]
    rfl
  by_cases hch : ch = ch₀
  · subst hch
    refine ⟨.read (sc.wakesFor (s.ctx ch).intStatus), ⟨rfl, sc, hpc, hevent, rfl⟩, ?_⟩
    have hcell : cell reqs
        { s with thread := ⟨.store sc ch (s.ctx ch).intStatus, flag, loop⟩ } ch =
        { cell reqs s ch with
          held := some ⟨.store, sc.wakesFor (s.ctx ch).intStatus, (cell reqs s ch).status⟩ } := by
      unfold cell
      simp only [KthreadPc.held, if_true]
      rfl
    rw [hcell]
    exact .read hnone hevent
  · refine .other (cell_congr rfl rfl rfl rfl rfl (fun _ _ => rfl) ?_)
    exact (held_ne (Ne.symm hch)).1.trans hnone.symm

theorem Follows.store {s : State} {sc : Scan} {ch₀ : Chan} {status : IntStatus}
    (hpc : s.thread.pc = .store sc ch₀ status) (ch : Chan) :
    Follows reqs s .thread
      ((s.setCtx ch₀
        { s.ctx ch₀ with state := .completed, credit := status, owed := true }).setPc
          (.clear sc ch₀ status)) ch := by
  by_cases hch : ch = ch₀
  · subst hch
    have hheld : (cell reqs s ch).held = some ⟨.store, sc.wakesFor status, status⟩ := by
      show s.thread.pc.held ch = _
      rw [hpc]
      exact if_pos rfl
    refine ⟨.store, ⟨rfl, sc, status, hpc⟩, ?_⟩
    have hcell : cell reqs ((s.setCtx ch
        { s.ctx ch with state := .completed, credit := status, owed := true }).setPc
          (.clear sc ch status)) ch =
        { cell reqs s ch with
          running := false
          credit := status
          owed := true
          held := some ⟨.clear, sc.wakesFor status, status⟩ } := by
      unfold cell
      rw [State.setPc_ctx, State.setCtx_ctx_self]
      simp only [State.setPc_pc, KthreadPc.held, if_true]
      rfl
    rw [hcell]
    exact .store hheld
  · refine .other ((cell_setPc ?_).trans (cell_setCtx_ne hch _))
    rw [State.setCtx_thread, hpc]
    exact (held_ne (Ne.symm hch)).2.1.trans (held_ne (Ne.symm hch)).1.symm

theorem Follows.clear {s : State} (hb : Base reqs s) {sc : Scan} {ch₀ : Chan}
    {status : IntStatus} (hpc : s.thread.pc = .clear sc ch₀ status) (ch : Chan) :
    Follows reqs s .thread
      ((s.setCtx ch₀
        { s.ctx ch₀ with
          intStatus := (s.ctx ch₀).intStatus.clear (hdmaClearIntrStatus status.value) }).setPc
          (.wake sc ch₀ status)) ch := by
  -- the thread clears what it read: a status without events is not cleared
  have hmask : hdmaClearIntrStatus status.value = status.value := by
    refine if_neg fun hzero => hb.event sc ch₀ status (Or.inr (Or.inl hpc)) ?_
    rw [hzero]
    exact BitVec.zero_and
  rw [hmask]
  by_cases hch : ch = ch₀
  · subst hch
    have hheld : (cell reqs s ch).held = some ⟨.clear, sc.wakesFor status, status⟩ := by
      show s.thread.pc.held ch = _
      rw [hpc]
      exact if_pos rfl
    refine ⟨.clear, trivial, ?_⟩
    have hcell : cell reqs ((s.setCtx ch
        { s.ctx ch with intStatus := (s.ctx ch).intStatus.clear status.value }).setPc
          (.wake sc ch status)) ch =
        { cell reqs s ch with
          status := (cell reqs s ch).status.clear status.value
          held := some ⟨.wake, sc.wakesFor status, status⟩ } := by
      unfold cell
      rw [State.setPc_ctx, State.setCtx_ctx_self]
      simp only [State.setPc_pc, KthreadPc.held, if_true]
      rfl
    rw [hcell]
    exact .clear hheld
  · refine .other ((cell_setPc ?_).trans (cell_setCtx_ne hch _))
    rw [State.setCtx_thread, hpc]
    exact (held_ne (Ne.symm hch)).2.2.trans (held_ne (Ne.symm hch)).2.1.symm

theorem active_wakeUp {s : State} {r : Nat} {ch : Chan}
    (h : ∀ st, (s.req r).critical = some st → (reqs r).chan st = ch) :
    (wakeUp reqs s.req ch r).phase.map (activeAt reqs s r) =
      (active reqs s r).map Active.rouse := by
  unfold wakeUp active
  cases hpc : s.req r with
  | wait st w =>
      cases w with
      | asleep =>
          simp only [if_pos (h st (by rw [hpc]; rfl))]
          rfl
      | check why => rfl
  | batch k => rfl
  | doorbell st => rfl
  | _ => rfl

theorem Follows.wake {s : State} (hb : Base reqs s) {sc : Scan} {ch₀ : Chan}
    {status : IntStatus} (hpc : s.thread.pc = .wake sc ch₀ status)
    (hwakes : wakes sc s.thread.flag = true) (loop : Nat) (ch : Chan) :
    Follows reqs s .thread
      { s.setCtx ch₀ { s.ctx ch₀ with owed := false } with
        thread := ⟨afterScan sc, s.thread.flag, loop⟩
        req := wakeUp reqs s.req ch₀ } ch := by
  generalize ht : ({ s.setCtx ch₀ { s.ctx ch₀ with owed := false } with
    thread := ⟨afterScan sc, s.thread.flag, loop⟩
    req := wakeUp reqs s.req ch₀ } : State) = t
  have hreq : t.req = wakeUp reqs s.req ch₀ := by rw [← ht]
  have hactive : ∀ r, active reqs t r =
      (wakeUp reqs s.req ch₀ r).phase.map (activeAt reqs s r) := by
    intro r
    rw [← hreq, ← ht]
    rfl
  have hfree : ∀ ch', t.thread.pc.held ch' = none := by
    intro ch'
    rw [← ht]
    exact held_free (afterScan_free sc) ch'
  by_cases hch : ch = ch₀
  · subst hch
    have hctx : t.ctx ch = { s.ctx ch with owed := false } := by
      rw [← ht]
      exact State.setCtx_ctx_self ..
    have hheld : (cell reqs s ch).held = some ⟨.wake, true, status⟩ := by
      show s.thread.pc.held ch = _
      rw [hpc, ← hwakes, hb.wakes_eq hpc]
      exact if_pos rfl
    have hcall : (t.ctx ch).lock.bind (active reqs t) =
        (cell reqs s ch).call.map Active.rouse := by
      show _ = ((s.ctx ch).lock.bind (active reqs s)).map _
      rw [hctx]
      show (s.ctx ch).lock.bind _ = _
      cases hl : (s.ctx ch).lock with
      | none => rfl
      | some r =>
          obtain ⟨st, hst, hchan⟩ := hb.held hl
          refine (hactive r).trans (active_wakeUp fun st' hst' => ?_)
          rw [hst, Option.some.injEq] at hst'
          rw [← hst', hchan]
    have hcell : cell reqs t ch =
        { cell reqs s ch with
          held := none
          owed := false
          call := (cell reqs s ch).call.map Active.rouse } := by
      rw [← hcall, ← hfree ch]
      unfold cell
      rw [hctx]
    refine ⟨.wake, trivial, ?_⟩
    rw [hcell]
    exact .wake hheld
  · have hctx : t.ctx ch = s.ctx ch := by
      rw [← ht]
      exact State.setCtx_ctx_ne _ hch _
    have hheld : t.thread.pc.held ch = s.thread.pc.held ch := by
      rw [hfree, hpc]
      exact (held_ne (Ne.symm hch)).2.2.symm
    refine .other (cell_congr (by rw [hctx]) (by rw [hctx]) (by rw [hctx]) (by rw [hctx])
      (by rw [hctx]) (fun r hl => ?_) hheld)
    rw [hactive]
    rcases wakeUp_cases reqs s.req ch₀ r with hsame | ⟨st, hst, hchan, _⟩
    · rw [hsame]
      rfl
    · obtain ⟨st', hst', hchan'⟩ := hb.held hl
      rw [hst] at hst'
      cases hst'
      exact absurd (hchan'.symm.trans hchan) hch

theorem Follows.skipWake {s : State} (hb : Base reqs s) {sc : Scan} {ch₀ : Chan}
    {status : IntStatus} (hpc : s.thread.pc = .wake sc ch₀ status)
    (hwakes : wakes sc s.thread.flag = false) (loop : Nat) (ch : Chan) :
    Follows reqs s .thread { s with thread := ⟨afterScan sc, s.thread.flag, loop⟩ } ch := by
  have hfree := held_free (afterScan_free sc) ch
  by_cases hch : ch = ch₀
  · subst hch
    have hheld : (cell reqs s ch).held = some ⟨.wake, false, status⟩ := by
      show s.thread.pc.held ch = _
      rw [hpc, ← hwakes, hb.wakes_eq hpc]
      exact if_pos rfl
    have hcell : cell reqs { s with thread := ⟨afterScan sc, s.thread.flag, loop⟩ } ch =
        { cell reqs s ch with held := none } := by
      rw [← hfree]
      rfl
    refine ⟨.wake, trivial, ?_⟩
    rw [hcell]
    exact .wake hheld
  · refine .other (cell_congr rfl rfl rfl rfl rfl (fun _ _ => rfl) ?_)
    rw [hpc]
    exact hfree.trans (held_ne (Ne.symm hch)).2.2.symm

/-- Every step of the completion path is one step of every channel's cell. -/
theorem cell_step {s t : State} {a : Action} (hb : Base reqs s) (h : Fires reqs s a t)
    (ch : Chan) : Follows reqs s a t ch := by
  cases h with
  | move hm => exact .other (cell_setReq_phase hm.phase_eq)
  | lock hpc hl => exact .lock hb hpc hl ch
  | program hpc _ => exact .program hpc _ ch
  | setRunning hpc => exact .setRunning hb hpc ch
  | @refuse r k hpc =>
      have hphase : (s.req r).phase = some (.data, .armed) := by rw [hpc]; rfl
      exact .setReq (e := .refuse) hb (phase_critical hphase) trivial
        (.refuse (hb.cell_call hphase) rfl) ch
  | ring hpc hrings => exact .ring hb hpc hrings ch
  | @skipRing r st hpc hrings =>
      have hphase : (s.req r).phase = some (st, .armed) := by rw [hpc]; rfl
      have hrung : s.rung ⟨r, st⟩ = false := by
        refine hb.rung_false ?_
        show (s.req r).rank ≤ st.doorRank
        rw [hpc]
        exact Nat.le_refl _
      refine .setReq (e := .ring) hb (phase_critical hphase) trivial ?_ ch
      have hactive : activeAt reqs s r (st, .awake) =
          { activeAt reqs s r (st, .armed) with
            phase := .awake
            rung := (activeAt reqs s r (st, .armed)).rings } := by
        simp only [activeAt, hrings, hrung]
      show Doorbell.Step _ _ _
        { cell reqs s ((reqs r).chan st) with call := some (activeAt reqs s r (st, .awake)) }
      rw [hactive]
      exact .ring (hb.cell_call hphase) rfl
  | @complete r st why hpc hstate =>
      have hphase : (s.req r).phase = some (st, .awake) := by rw [hpc]; rfl
      have hrun : (cell reqs s ((reqs r).chan st)).running = false := beq_false_of_ne hstate
      exact .setReq (e := .complete) hb (phase_critical hphase) trivial
        (.complete (hb.cell_call hphase) rfl hrun) ch
  | @sleep r st hpc hstate =>
      have hphase : (s.req r).phase = some (st, .awake) := by rw [hpc]; rfl
      have hrun : (cell reqs s ((reqs r).chan st)).running = true := beq_iff_eq.mpr hstate
      exact .setReq (e := .sleep) hb (phase_critical hphase) trivial
        (.sleep (hb.cell_call hphase) rfl hrun) ch
  | @timeout r st hpc hstate =>
      have hphase : (s.req r).phase = some (st, .awake) := by rw [hpc]; rfl
      have hrun : (cell reqs s ((reqs r).chan st)).running = true := beq_iff_eq.mpr hstate
      exact .setReq (e := .cut false) hb (phase_critical hphase)
        ⟨r, st, .timeout, rfl, hpc, rfl, hstate, by simp, by simp⟩
        (.cut (hb.cell_call hphase) rfl hrun) ch
  | @signal r st hpc hstate =>
      have hphase : (s.req r).phase = some (st, .awake) := by rw [hpc]; rfl
      have hrun : (cell reqs s ((reqs r).chan st)).running = true := beq_iff_eq.mpr hstate
      exact .setReq (e := .cut true) hb (phase_critical hphase)
        ⟨r, st, .signal, rfl, hpc, rfl, hstate, by simp, by simp⟩
        (.cut (hb.cell_call hphase) rfl hrun) ch
  | unlock hpc => exact .unlock hb hpc ch
  | @rouse _ r st why hpc _ =>
      have hphase : (s.req r).phase = some (st, .asleep) := by rw [hpc]; rfl
      exact .setReq (e := .rouse) hb (phase_critical hphase) trivial
        (.rouse (hb.cell_call hphase) rfl) ch
  | raise hallowed => exact .raise hb hallowed ch
  | idle hth => exact .idle hth ch
  | read hpc hevent => exact .read hpc hevent _ _ ch
  | store hpc => exact .store hpc ch
  | clear hpc => exact .clear hb hpc ch
  | wake hpc hw => exact .wake hb hpc hw _ ch
  | skipWake hpc hw => exact .skipWake hb hpc hw _ ch

theorem cell_idle {s : State} (h : Initial s) (ch : Chan) : (cell reqs s ch).Idle where
  call := cell_call_none (h.lock ch)
  owed := h.owed ch
  held := by
    show s.thread.pc.held ch = none
    rw [h.thread]
    rfl

/-- A cell invariant kept by the steps that a condition allows holds of every
channel in every run whose steps meet the condition. -/
theorem cell_invariant {G : State → Action → Prop}
    {allowed : Cell Call 32 → Event Call 32 → Prop} {I : Cell Call 32 → Prop}
    (hidle : ∀ v, v.Idle → I v)
    (hstep : ∀ v e v', I v → allowed v e → Doorbell.Step masks v e v' → I v')
    (hG : ∀ s a ch e, Base reqs s → G s a → Shows reqs s a ch e → allowed (cell reqs s ch) e)
    {s : State} (h : (system reqs).ReachVia G s) (ch : Chan) : I (cell reqs s ch) := by
  have hall : ∀ ch, I (cell reqs s ch) := by
    refine StepSystem.ReachVia.invariant_of (I := fun s => ∀ ch, I (cell reqs s ch))
      (fun s hs => base_of_reachable hs.reachable) (fun s hs ch => hidle _ (cell_idle hs ch))
      (fun s a t hb hi hg hst ch => ?_) h
    obtain ⟨e, hshow, hcell⟩ := cell_step hb (fires_of_step hst) ch
    exact hstep _ e _ (hi ch) (hG s a ch e hb hg hshow) hcell
  exact hall ch

end

end Completion
end EonDrv

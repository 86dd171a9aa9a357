import EonDrv.Completion.Waits
import EonDrv.Machine.System

/-!
# A request on its own

A run of the driver in which one request moves and no other party does.  When its batch is
skipped it makes no access, so it comes through its stages with the window untouched.
-/

namespace EonDrv
namespace Machine

open Completion (HdmaRequest ReqPc Stage)

/-- A run in which only request `r` moved, and made no write, has it at `pc` with at most
the lock of `held` taken. -/
structure Alone (reqs : Nat → HdmaRequest) (regArgs : Nat → DpuRegArgs)
    (regs : Nat → BitVec 32) (r : Nat) (pc : ReqPc) (held : Option Chan)
    (c : Completion.State) : Prop where
  silent : ∃ w : Window.State, w.log = [] ∧ (system reqs regArgs regs).Reachable ⟨c, w⟩
  req : c.req r = pc
  free : ∀ ch, held ≠ some ch → (c.ctx ch).lock = none

section

variable {reqs : Nat → HdmaRequest} {regArgs : Nat → DpuRegArgs} {regs : Nat → BitVec 32}
  {r : Nat} {pc : ReqPc} {held : Option Chan} {c c' : Completion.State}

theorem Alone.silent_next (h : Alone reqs regArgs regs r pc held c)
    (hcount : (reqs r).regs.count = 0)
    {a : Completion.Action} (ha : a = .request r ∨ a = .interrupt r)
    (hst : Completion.step reqs c a = some c') :
    ∃ w : Window.State, w.log = [] ∧ (system reqs regArgs regs).Reachable ⟨c', w⟩ := by
  obtain ⟨w, hlog, hs⟩ := h.silent
  refine ⟨applyWrite w (channelWrite reqs c a), ?_, ?_⟩
  · rw [← hlog]
    cases channelWrite reqs c a <;> rfl
  · have hready : Ready reqs ⟨c, w⟩ a := by
      rcases ha with rfl | rfl
      · unfold Ready
        simp only
        split
        · intro hk
          omega
        · trivial
      · trivial
    refine hs.next (a := .comp a) trivial ?_
    show step reqs regArgs ⟨c, w⟩ (.comp a) = _
    simp only [step, hready, if_true, hst, Option.map_some]

theorem Alone.move (h : Alone reqs regArgs regs r pc held c) (hcount : (reqs r).regs.count = 0)
    {pc' : ReqPc} (hst : Completion.stepRequest reqs c r = some (c.setReq r pc')) :
    Alone reqs regArgs regs r pc' held (c.setReq r pc') where
  silent := h.silent_next hcount (a := .request r) (Or.inl rfl) hst
  req := Completion.State.setReq_req_self ..
  free := h.free

theorem Alone.store (h : Alone reqs regArgs regs r pc held c) (hcount : (reqs r).regs.count = 0)
    {ch : Chan} {x : Completion.HdmaContext} {pc' : ReqPc} {held' : Option Chan}
    (hst : Completion.stepRequest reqs c r = some ((c.setCtx ch x).setReq r pc'))
    (hheld : ∀ ch', held' ≠ some ch' → ch' ≠ ch → held ≠ some ch')
    (hlock : held' ≠ some ch → x.lock = none) :
    Alone reqs regArgs regs r pc' held' ((c.setCtx ch x).setReq r pc') where
  silent := h.silent_next hcount (a := .request r) (Or.inl rfl) hst
  req := Completion.State.setReq_req_self ..
  free ch' hch := by
    rw [Completion.State.setReq_ctx]
    by_cases heq : ch' = ch
    · subst heq
      rw [Completion.State.setCtx_ctx_self]
      exact hlock hch
    · rw [Completion.State.setCtx_ctx_ne _ heq]
      exact h.free ch' (hheld ch' hch heq)

variable (reqs regArgs regs r) in
theorem exists_alone_start (hcount : (reqs r).regs.count = 0) :
    ∃ c, Alone reqs regArgs regs r (.lock .upload) none c := by
  have h0 : Alone reqs regArgs regs r .setupSg none Completion.probed :=
    ⟨⟨{ regs := RegisterFile.storeAll regs Window.iatuConfig
        configBarBase := 0
        conbarLock := none
        pc := fun _ => .enter
        data := fun i => (accesses reqs regArgs i).args.regData
        log := [] }, rfl,
      .start ⟨Completion.probed_initial, rfl, rfl, rfl, fun _ => rfl, fun _ => rfl, rfl⟩⟩,
      rfl, fun _ _ => rfl⟩
  have h1 : Alone reqs regArgs regs r .setDesc none _ := h0.move hcount rfl
  exact ⟨_, h1.move hcount (by simp only [Completion.stepRequest, h1.req])⟩

theorem Alone.program (hcount : (reqs r).regs.count = 0) {st : Stage} (n : Nat) {k : Nat}
    (hk : ((reqs r).writes st).length = k + n)
    (h : Alone reqs regArgs regs r (.program st k) (some ((reqs r).chan st)) c) :
    ∃ c', Alone reqs regArgs regs r (.setRunning st) (some ((reqs r).chan st)) c' := by
  induction n generalizing k c with
  | zero =>
      have hnone : ((reqs r).writes st)[k]? = none := List.getElem?_eq_none_iff.mpr (by omega)
      exact ⟨_, h.move hcount (by simp only [Completion.stepRequest, h.req, hnone])⟩
  | succ n ih =>
      have hsome : ((reqs r).writes st)[k]? = some ((reqs r).writes st)[k] :=
        List.getElem?_eq_getElem (by omega)
      have hnext : Alone reqs regArgs regs r (.program st (k + 1)) (some ((reqs r).chan st)) _ :=
        h.store hcount (by simp only [Completion.stepRequest, h.req, hsome]; rfl)
          (fun _ hch _ => hch) fun hch => absurd rfl hch
      exact ih (by omega) hnext

theorem Alone.doorbell (hcount : (reqs r).regs.count = 0) {st : Stage}
    (h : Alone reqs regArgs regs r (.doorbell st) held c) :
    ∃ c', Alone reqs regArgs regs r (.wait st (.check .woken)) held c' ∧ c'.ctx = c.ctx := by
  by_cases hrings : (reqs r).rings st = true
  · have hst : Completion.step reqs c (.request r) =
        some { c.setReq r (.wait st (.check .woken)) with
          rung := Function.update c.rung ⟨r, st⟩ true } := by
      simp only [Completion.step, Completion.stepRequest, h.req, hrings, if_true]
      rfl
    exact ⟨_, ⟨h.silent_next hcount (Or.inl rfl) hst, Completion.State.setReq_req_self ..,
      h.free⟩, rfl⟩
  · exact ⟨_, h.move hcount (by simp only [Completion.stepRequest, h.req, hrings]; rfl), rfl⟩

theorem Alone.skip (hcount : (reqs r).regs.count = 0)
    (h : Alone reqs regArgs regs r (.batch 0) held c) :
    Alone reqs regArgs regs r (.doorbell .data) held (c.setReq r (.doorbell .data)) :=
  h.move hcount (by simp only [Completion.stepRequest, h.req, hcount, Nat.lt_irrefl, if_false])

theorem Alone.stage (hcount : (reqs r).regs.count = 0) {st : Stage}
    (h : Alone reqs regArgs regs r (.lock st) none c) :
    ∃ c', Alone reqs regArgs regs r (.wait st (.check .woken)) (some ((reqs r).chan st)) c' ∧
      (c'.ctx ((reqs r).chan st)).state = .running := by
  have hfree := h.free ((reqs r).chan st) (by simp)
  have hlock : Alone reqs regArgs regs r (.program st 0) (some ((reqs r).chan st)) _ :=
    h.store hcount (by simp only [Completion.stepRequest, h.req, hfree]; rfl) (by simp) (by simp)
  obtain ⟨c₁, h₁⟩ := hlock.program hcount ((reqs r).writes st).length (Nat.zero_add _).symm
  have h₂ : Alone reqs regArgs regs r (Completion.afterRunning st) (some ((reqs r).chan st)) _ :=
    h₁.store hcount (by simp only [Completion.stepRequest, h₁.req]; rfl) (fun _ hch _ => hch)
      fun hch => absurd rfl hch
  have hdoor : ∃ c', Alone reqs regArgs regs r (.doorbell st) (some ((reqs r).chan st)) c' ∧
      (c'.ctx ((reqs r).chan st)).state = .running := by
    cases st with
    | upload => exact ⟨_, h₂, by simp⟩
    | data => exact ⟨_, Alone.skip hcount h₂, by simp⟩
  obtain ⟨c₃, h₃, hrun⟩ := hdoor
  obtain ⟨c₄, h₄, hctx⟩ := h₃.doorbell hcount
  exact ⟨c₄, h₄, by rw [hctx, hrun]⟩

/-- A signal ends the wait with 0. -/
theorem Alone.leave (hcount : (reqs r).regs.count = 0) {st : Stage}
    (h : Alone reqs regArgs regs r (.wait st (.check .woken)) (some ((reqs r).chan st)) c)
    (hrun : (c.ctx ((reqs r).chan st)).state = .running) :
    ∃ c', Alone reqs regArgs regs r (Completion.afterStage st 0) none c' := by
  have hst : Completion.step reqs c (.interrupt r) =
      some (c.setReq r (.wait st (.check .signal))) := by
    simp only [Completion.step, Completion.stepInterrupt, h.req]
  have h₁ : Alone reqs regArgs regs r (.wait st (.check .signal)) (some ((reqs r).chan st)) _ :=
    ⟨h.silent_next hcount (Or.inr rfl) hst, Completion.State.setReq_req_self .., h.free⟩
  have h₂ : Alone reqs regArgs regs r (.unlock st 0) (some ((reqs r).chan st)) _ :=
    h₁.move hcount (by simp [Completion.stepRequest, hrun])
  exact ⟨_, h₂.store hcount (by simp only [Completion.stepRequest, h₂.req]; rfl)
    (fun ch' _ hne heq => hne (Option.some.inj heq).symm) fun _ => rfl⟩

end

/-- A skipped batch: the request comes to the wait of its data with no write made. -/
theorem exists_unwritten (reqs : Nat → HdmaRequest) (regArgs : Nat → DpuRegArgs)
    (regs : Nat → BitVec 32) {r : Nat} (hcount : (reqs r).regs.count = 0) :
    ∃ s, (system reqs regArgs regs).Reachable s ∧
      s.comp.req r = .wait .data (.check .woken) ∧ s.win.log = [] := by
  obtain ⟨c₀, h₀⟩ := exists_alone_start reqs regArgs regs r hcount
  obtain ⟨c₁, h₁, hrun⟩ := h₀.stage hcount
  obtain ⟨c₂, h₂⟩ := h₁.leave hcount hrun
  have hdata : Alone reqs regArgs regs r (.lock .data) none c₂ := h₂
  obtain ⟨c₃, h₃, -⟩ := hdata.stage hcount
  obtain ⟨w, hlog, hs⟩ := h₃.silent
  exact ⟨_, hs, h₃.req, hlog⟩

end Machine
end EonDrv

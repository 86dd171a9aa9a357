import EonDrv.Machine.Alone
import EonDrv.Machine.Doorbell
import EonDrv.Window.Written

/-!
# The register batch of a request

The writes of a batch are accesses of the register window, one after the other while the
request is at them.  The log shows them in array order, so what the log holds of a request
follows from its place.  The loop runs for a `num` below the capacity only: at the capacity
and above it is skipped, and the doorbell is rung all the same.
-/

namespace EonDrv
namespace Machine

open Completion (HdmaRequest ReqPc Stage Base)

section

variable (reqs : Nat → HdmaRequest)

def OfBatch (r : Nat) (e : Window.Entry) : Prop :=
  e.client / accessStride = r ∧ e.client % accessStride < regOperationMaxNum

instance (r : Nat) (e : Window.Entry) : Decidable (OfBatch r e) :=
  inferInstanceAs (Decidable (_ ∧ _))

/-- What reached the SoC for the batch of request `r`, first to last. -/
def batchLog (w : Window.State) (r : Nat) : List Window.Entry :=
  (w.log.filter fun e => OfBatch r e).reverse

/-- Write `k` of the batch, to its own `reg_addr`. -/
def batchEntry (r k : Nat) : Window.Entry :=
  let w := (reqs r).regs.write k
  ⟨batchAccess r k, .writel, w.regAddr, w.regData⟩

def batchEntries (r n : Nat) : List Window.Entry := (List.range n).map (batchEntry reqs r)

/-- The whole batch fits `write_data` and reached the SoC, each write once and in order. -/
def Performed (s : State) (r : Nat) : Prop :=
  let num := (reqs r).regs.num.toNat
  num ≤ regOperationMaxNum ∧ batchLog s.win r = batchEntries reqs r num

/-- `dma_llmode_transmit` is at its wait. -/
def AtDataWait (pc : ReqPc) : Prop := ∃ w, pc = .wait .data w

/-- The batch is performed before the doorbell and the wait, or an error is returned
without them. -/
structure BatchUnit (s : State) (r : Nat) : Prop where
  rung : s.comp.rung ⟨r, .data⟩ = true → Performed reqs s r
  waits : AtDataWait (s.comp.req r) → Performed reqs s r
  returns : ∀ ret, s.comp.req r = .unlock .data ret →
    Performed reqs s r ∨ (ret ≠ 0 ∧ s.comp.rung ⟨r, .data⟩ = false)

/-! ## What the log holds by the place of the request -/

/-- At write `k`: the writes in front of it are in the log, the ones behind it have not
begun. -/
structure AtWrite (s : State) (r k : Nat) : Prop where
  le : k ≤ (reqs r).regs.count
  log : batchLog s.win r =
    batchEntries reqs r (k + if (s.win.pc (batchAccess r k)).passed then 1 else 0)
  fresh : ∀ j, k < j ∨ (reqs r).regs.count ≤ j → j < regOperationMaxNum →
    s.win.pc (batchAccess r j) = .enter

structure NoWrite (s : State) (r : Nat) : Prop where
  log : batchLog s.win r = []
  fresh : ∀ j, j < regOperationMaxNum → s.win.pc (batchAccess r j) = .enter

def Wrote (s : State) (r : Nat) : Prop :=
  batchLog s.win r = batchEntries reqs r (reqs r).regs.count

def BatchPlace (s : State) (r : Nat) : ReqPc → Prop
  | .batch k => AtWrite reqs s r k
  | .doorbell .data | .wait .data _ => Wrote reqs s r
  | .unlock .data ret => Wrote reqs s r ∨ ret ≠ 0 ∧ s.comp.rung ⟨r, .data⟩ = false
  | .teardownDesc _ | .teardownSg _ | .done _ =>
      s.comp.rung ⟨r, .data⟩ = true → Wrote reqs s r
  | _ => NoWrite s r

end

/-! ## The accesses of a batch -/

theorem batchAccess_div (r : Nat) {k : Nat} (hk : k < regOperationMaxNum) :
    batchAccess r k / accessStride = r := by
  simp only [batchAccess, accessStride, regOperationMaxNum] at hk ⊢
  omega

theorem batchAccess_mod (r : Nat) {k : Nat} (hk : k < regOperationMaxNum) :
    batchAccess r k % accessStride = k := by
  simp only [batchAccess, accessStride, regOperationMaxNum] at hk ⊢
  omega

theorem count_lt (regs : RegInfos) : regs.count < regOperationMaxNum := by
  unfold RegInfos.count RegInfos.runs
  split
  · rename_i h
    simp only [Bool.and_eq_true, decide_eq_true_eq] at h
    exact h.2
  · decide

theorem count_of_enabled {regs : RegInfos} (hop : regs.regOperation = regEnable) :
    regs.count = if regs.num.toNat < regOperationMaxNum then regs.num.toNat else 0 := by
  simp only [RegInfos.count, RegInfos.runs, hop, beq_self_eq_true, Bool.true_and,
    decide_eq_true_eq]

section

variable {reqs : Nat → HdmaRequest} {regArgs : Nat → DpuRegArgs}

theorem accesses_batch (r : Nat) {k : Nat} (hk : k < regOperationMaxNum) :
    accesses reqs regArgs (batchAccess r k) = ⟨.regsOperations, batchArgs reqs r k⟩ := by
  simp only [accesses, batchAccess_div r hk, batchAccess_mod r hk]
  rw [if_neg (by omega)]

theorem op_batch (r : Nat) {k : Nat} (hk : k < regOperationMaxNum) :
    (accesses reqs regArgs (batchAccess r k)).op = some .writel := by
  rw [accesses_batch r hk]
  rfl

theorem writeEntry_batch (r : Nat) {k : Nat} (hk : k < regOperationMaxNum) :
    Window.writeEntry (accesses reqs regArgs) (batchAccess r k) = batchEntry reqs r k := by
  rw [Window.writeEntry, accesses_batch r hk]
  rfl

theorem batchEntries_succ (reqs : Nat → HdmaRequest) (r n : Nat) :
    batchEntries reqs r (n + 1) = batchEntries reqs r n ++ [batchEntry reqs r n] := by
  rw [batchEntries, List.range_succ, List.map_append]
  rfl

theorem batchLog_cons_self {w w' : Window.State} {r k : Nat} (hk : k < regOperationMaxNum)
    (h : w'.log = batchEntry reqs r k :: w.log) :
    batchLog w' r = batchLog w r ++ [batchEntry reqs r k] := by
  have hof : OfBatch r (batchEntry reqs r k) :=
    ⟨batchAccess_div r hk, (batchAccess_mod r hk).symm ▸ hk⟩
  rw [batchLog, h, List.filter_cons_of_pos (by simpa using hof), List.reverse_cons]
  rfl

theorem batchLog_cons_ne {w w' : Window.State} {r : Nat} {e : Window.Entry}
    (he : ¬ OfBatch r e) (h : w'.log = e :: w.log) : batchLog w' r = batchLog w r := by
  rw [batchLog, h, List.filter_cons_of_neg (by simpa using he)]
  rfl

/-! ## The step lemmas -/

structure SameBatch (s t : State) (r : Nat) : Prop where
  log : batchLog t.win r = batchLog s.win r
  pc : ∀ j, j < regOperationMaxNum → t.win.pc (batchAccess r j) = s.win.pc (batchAccess r j)

theorem NoWrite.congr {s t : State} {r : Nat} (h : NoWrite s r) (hs : SameBatch s t r) :
    NoWrite t r where
  log := hs.log.trans h.log
  fresh j hj := (hs.pc j hj).trans (h.fresh j hj)

theorem AtWrite.congr {s t : State} {r k : Nat} (h : AtWrite reqs s r k)
    (hs : SameBatch s t r) : AtWrite reqs t r k where
  le := h.le
  log := by
    rw [hs.log, hs.pc k (Nat.lt_of_le_of_lt h.le (count_lt _))]
    exact h.log
  fresh j hj hlt := (hs.pc j hlt).trans (h.fresh j hj hlt)

theorem Wrote.congr {s t : State} {r : Nat} (h : Wrote reqs s r) (hs : SameBatch s t r) :
    Wrote reqs t r := hs.log.trans h

theorem BatchPlace.congr {s t : State} {r : Nat} {pc : ReqPc} (h : BatchPlace reqs s r pc)
    (hs : SameBatch s t r)
    (hrung : t.comp.rung ⟨r, .data⟩ = true → s.comp.rung ⟨r, .data⟩ = true) :
    BatchPlace reqs t r pc := by
  have hclosed : (s.comp.rung ⟨r, .data⟩ = true → Wrote reqs s r) →
      t.comp.rung ⟨r, .data⟩ = true → Wrote reqs t r := fun hw hr => (hw (hrung hr)).congr hs
  cases pc with
  | batch k => exact AtWrite.congr h hs
  | doorbell st =>
      cases st with
      | upload => exact NoWrite.congr h hs
      | data => exact Wrote.congr h hs
  | wait st w =>
      cases st with
      | upload => exact NoWrite.congr h hs
      | data => exact Wrote.congr h hs
  | unlock st ret =>
      cases st with
      | upload => exact NoWrite.congr h hs
      | data =>
          rcases h with hw | ⟨hret, hno⟩
          · exact Or.inl (hw.congr hs)
          · refine Or.inr ⟨hret, Bool.eq_false_iff.mpr fun hr => ?_⟩
            rw [hrung hr] at hno
            cases hno
  | teardownDesc ret => exact hclosed h
  | teardownSg ret => exact hclosed h
  | done ret => exact hclosed h
  | _ => exact NoWrite.congr h hs

theorem NoWrite.atWrite {s : State} {r : Nat} (h : NoWrite s r) : AtWrite reqs s r 0 where
  le := Nat.zero_le _
  log := by
    rw [h.log, h.fresh 0 (by decide)]
    rfl
  fresh j _ hlt := h.fresh j hlt

theorem AtWrite.next {s : State} {r k : Nat} (h : AtWrite reqs s r k)
    (hk : k < (reqs r).regs.count)
    (hpassed : (s.win.pc (batchAccess r k)).passed = true) : AtWrite reqs s r (k + 1) where
  le := hk
  log := by
    have hlt := count_lt (reqs r).regs
    rw [h.log, hpassed, h.fresh (k + 1) (Or.inl (Nat.lt_succ_self k)) (by omega)]
    rfl
  fresh j hj hlt := h.fresh j (by omega) hlt

theorem AtWrite.wrote {s : State} {r k : Nat} (h : AtWrite reqs s r k)
    (hk : (reqs r).regs.count ≤ k) : Wrote reqs s r := by
  have hlog := h.log
  obtain rfl : k = (reqs r).regs.count := Nat.le_antisymm h.le hk
  rwa [h.fresh _ (Or.inr (Nat.le_refl _)) (count_lt _)] at hlog

/-- A statement of write `k` moves the write, or makes it. -/
theorem AtWrite.access {regs : Nat → BitVec 32} {s t : State} {r k : Nat} {v : BitVec 32}
    (h : AtWrite reqs s r k) (hk : k < (reqs r).regs.count)
    (hwin : (Window.system regs (accesses reqs regArgs)).Reachable s.win)
    (hst : Window.step (accesses reqs regArgs) s.win (.client (batchAccess r k) v) =
      some t.win) : AtWrite reqs t r k where
  le := h.le
  log := by
    have hlt : k < regOperationMaxNum := Nat.lt_trans hk (count_lt _)
    rcases Window.writes_of_reachable hwin (op_batch r hlt) hst with
      ⟨hlog, hpassed⟩ | ⟨hbefore, hafter, hlog⟩
    · rw [batchLog, hlog, hpassed]
      exact h.log
    · have hold := h.log
      rw [writeEntry_batch r hlt] at hlog
      rw [hbefore] at hold
      rw [batchLog_cons_self hlt hlog, hafter, hold]
      exact (batchEntries_succ reqs r k).symm
  fresh j hj hlt := by
    refine (Window.step_pc_ne hst fun heq => ?_).trans (h.fresh j hj hlt)
    have hjk : j = k := by
      simp only [batchAccess] at heq
      omega
    omega

theorem sameBatch_access {s t : State} {r i : Nat} {v : BitVec 32}
    (hof : ¬ (i / accessStride = r ∧ i % accessStride < regOperationMaxNum))
    (hst : Window.step (accesses reqs regArgs) s.win (.client i v) = some t.win) :
    SameBatch s t r where
  log := by
    rcases Window.step_log hst with hlog | ⟨e, rfl, hlog⟩
    · rw [batchLog, hlog]
      rfl
    · exact batchLog_cons_ne hof hlog
  pc j hj := by
    refine Window.step_pc_ne hst fun heq => hof ?_
    rw [← heq, batchAccess_div r hj, batchAccess_mod r hj]
    exact ⟨rfl, hj⟩

theorem BatchPlace.access {regs : Nat → BitVec 32} {s t : State} {r i : Nat} {v : BitVec 32}
    (h : BatchPlace reqs s r (s.comp.req r))
    (hwin : (Window.system regs (accesses reqs regArgs)).Reachable s.win)
    (hrun : Running reqs s i) (hcomp : t.comp = s.comp)
    (hst : Window.step (accesses reqs regArgs) s.win (.client i v) = some t.win) :
    BatchPlace reqs t r (t.comp.req r) := by
  by_cases hof : i / accessStride = r ∧ i % accessStride < regOperationMaxNum
  · obtain ⟨hdiv, hlt⟩ := hof
    have hi : batchAccess r (i % accessStride) = i := by
      rw [batchAccess, ← hdiv, Nat.div_add_mod]
    rcases hrun with hioctl | ⟨hpc, hk⟩
    · omega
    · rw [hdiv] at hpc hk
      rw [hcomp, hpc]
      rw [hpc] at h
      rw [← hi] at hst
      exact AtWrite.access h hk hwin hst
  · rw [hcomp]
    exact h.congr (sameBatch_access hof hst) fun hr => by rwa [hcomp] at hr

theorem stepRequest_batch {s t : Completion.State} {r k : Nat} (hpc : s.req r = .batch k)
    (h : Completion.stepRequest reqs s r = some t) :
    (k < (reqs r).regs.count ∧ regAddrAccepted ((reqs r).regs.write k).regAddr = true ∧
        t.req r = .batch (k + 1)) ∨
      t.req r = .unlock .data (-1) ∨
      ((reqs r).regs.count ≤ k ∧ t.req r = .doorbell .data) := by
  simp only [Completion.stepRequest, hpc] at h
  split at h
  · split at h <;> obtain rfl := Option.some.inj h
    · exact Or.inl ⟨‹_›, ‹_›, Completion.State.setReq_req_self ..⟩
    · exact Or.inr (Or.inl (Completion.State.setReq_req_self ..))
  · obtain rfl := Option.some.inj h
    exact Or.inr (Or.inr ⟨Nat.not_lt.mp ‹_›, Completion.State.setReq_req_self ..⟩)

/-- An accepted access that has returned is behind its `switch`. -/
theorem passed_of_returned {regs : Nat → BitVec 32} {s : State} {i : Nat}
    (hwin : (Window.system regs (accesses reqs regArgs)).Reachable s.win)
    (hacc : (accesses reqs regArgs i).accepted = true) (hret : returned s i = true) :
    (s.win.pc i).passed = true := by
  have hplace := (Window.coherent_of_reachable hwin).place i
  unfold returned at hret
  split at hret
  · rename_i hpc
    rw [hpc]
    rfl
  · rename_i hpc
    rw [hpc] at hplace
    rw [show (accesses reqs regArgs i).accepted = false from hplace] at hacc
    cases hacc
  · cases hret

theorem sameBatch_comp {s t : State} {o : Option (Chan × HdmaReg × BitVec 32)}
    (hwin : t.win = applyWrite s.win o) (r : Nat) : SameBatch s t r := by
  cases o with
  | none => exact ⟨by rw [hwin]; rfl, fun _ _ => by rw [hwin]; rfl⟩
  | some p => exact ⟨by rw [hwin]; rfl, fun _ _ => by rw [hwin]; rfl⟩

theorem BatchPlace.wait {s t : State} {r : Nat} {st : Stage} {w : Completion.WaitPc}
    (h : BatchPlace reqs s r (.wait st w)) (hs : SameBatch s t r) :
    (∀ w', BatchPlace reqs t r (.wait st w')) ∧ ∀ ret, BatchPlace reqs t r (.unlock st ret) := by
  cases st with
  | upload => exact ⟨fun _ => NoWrite.congr h hs, fun _ => NoWrite.congr h hs⟩
  | data => exact ⟨fun _ => Wrote.congr h hs, fun _ => Or.inl (Wrote.congr h hs)⟩

theorem BatchPlace.request {regs : Nat → BitVec 32} {s t : State} {r : Nat}
    (h : BatchPlace reqs s r (s.comp.req r)) (hs : SameBatch s t r) (hb : Base reqs s.comp)
    (hwin : (Window.system regs (accesses reqs regArgs)).Reachable s.win)
    (hready : Ready reqs s (.request r))
    (hst : Completion.stepRequest reqs s.comp r = some t.comp) :
    BatchPlace reqs t r (t.comp.req r) := by
  have hrung : t.comp.rung ⟨r, .data⟩ = true →
      s.comp.rung ⟨r, .data⟩ = true ∨ s.comp.req r = .doorbell .data := by
    intro hr
    rcases (Completion.fires_request hst).rung_cases hr with hold | ⟨hdoor, -⟩
    · exact Or.inl hold
    · exact Or.inr hdoor
  have hquiet : (s.comp.req r).rank ≤ Stage.data.doorRank → s.comp.req r ≠ .doorbell .data →
      t.comp.rung ⟨r, .data⟩ = false := by
    intro hrank hne
    refine Bool.eq_false_iff.mpr fun hr => ?_
    rcases hrung hr with hold | hdoor
    · rw [hb.rung_false (c := ⟨r, .data⟩) hrank] at hold
      cases hold
    · exact hne hdoor
  have hkeep : ∀ pc, s.comp.req r ≠ .doorbell .data → BatchPlace reqs s r pc →
      BatchPlace reqs t r pc := by
    intro pc hne hpc
    refine hpc.congr hs fun hr => ?_
    rcases hrung hr with hold | hdoor
    · exact hold
    · exact absurd hdoor hne
  by_cases hbatch : ∃ k, s.comp.req r = .batch k
  · obtain ⟨k, hpc⟩ := hbatch
    rw [hpc] at h hquiet
    simp only [Ready, hpc] at hready
    have hat : AtWrite reqs s r k := h
    rcases stepRequest_batch hpc hst with ⟨hk, hacc, hnext⟩ | hnext | ⟨hk, hnext⟩
    · rw [hnext]
      have hpassed := passed_of_returned hwin
        (by rw [accesses_batch r (Nat.lt_trans hk (count_lt _))]; exact hacc) (hready hk)
      exact (hat.next hk hpassed).congr hs
    · rw [hnext]
      exact Or.inr ⟨by decide, hquiet (show 15 ≤ 16 by omega) (by simp)⟩
    · rw [hnext]
      exact (hat.wrote hk).congr hs
  · have hadv := Completion.stepRequest_advances hst
    generalize s.comp.req r = pc at h hadv hquiet hkeep hbatch
    generalize t.comp.req r = pc' at hadv ⊢
    cases hadv with
    | setupSg => exact hkeep (.lock .upload) (by simp) h
    | setDesc => exact hkeep (.lock .upload) (by simp) h
    | @lock st _ => exact hkeep (.lock st) (by simp) h
    | @program st k w _ => exact hkeep (.lock st) (by simp) h
    | @programEnd st k _ => exact hkeep (.lock st) (by simp) h
    | @setRunning st =>
        have hno := hkeep (.lock st) (by simp) h
        cases st with
        | upload => exact hno
        | data => exact NoWrite.atWrite hno
    | batch => exact absurd ⟨_, rfl⟩ hbatch
    | refuse => exact absurd ⟨_, rfl⟩ hbatch
    | batchEnd => exact absurd ⟨_, rfl⟩ hbatch
    | @doorbell st =>
        cases st with
        | upload => exact NoWrite.congr h hs
        | data => exact Wrote.congr h hs
    | complete _ => exact (h.wait hs).2 0
    | sleep _ => exact (h.wait hs).1 .asleep
    | timeout _ => exact (h.wait hs).2 (-1)
    | signal _ => exact (h.wait hs).2 0
    | @unlock st ret =>
        cases st with
        | upload =>
            have hno := hquiet (show 8 ≤ 16 by omega) (by simp)
            unfold Completion.afterStage
            simp only
            split
            · exact NoWrite.congr h hs
            · intro hr
              rw [hno] at hr
              cases hr
        | data =>
            intro hr
            rcases hkeep (.unlock .data ret) (by simp) h with hw | ⟨-, hno⟩
            · exact hw
            · rw [hno] at hr
              cases hr
    | teardownDesc => exact hkeep (.teardownSg 0) (by simp) h
    | teardownSg => exact hkeep (.teardownSg 0) (by simp) h

/-- A statement of another party: a wait is woken, or the setup fails. -/
theorem BatchPlace.other {s t : State} {r : Nat} {a : Completion.Action}
    (h : BatchPlace reqs s r (s.comp.req r)) (hs : SameBatch s t r) (hb : Base reqs s.comp)
    (ha : a ≠ .request r) (hst : Completion.step reqs s.comp a = some t.comp) :
    BatchPlace reqs t r (t.comp.req r) := by
  have hrung : t.comp.rung ⟨r, .data⟩ = true → s.comp.rung ⟨r, .data⟩ = true := by
    intro hr
    rcases (Completion.fires_of_step hst).rung_cases hr with hold | ⟨hdoor, hwait⟩
    · exact hold
    · -- only the request itself leaves its doorbell
      rcases Completion.step_req_cases hst r with
        hsame | hown | ⟨ret, -, hfail⟩ | ⟨st, w, w', hw, -⟩
      · rw [hsame] at hwait
        cases hdoor.symm.trans hwait
      · exact absurd hown ha
      · rcases Completion.stepFail_at hfail with hat | hat <;> cases hdoor.symm.trans hat
      · cases hdoor.symm.trans hw
  rcases Completion.step_req_cases hst r with hsame | hown | ⟨ret, -, hfail⟩ | ⟨st, w, w', hw, hw'⟩
  · rw [hsame]
    exact h.congr hs hrung
  · exact absurd hown ha
  · have hrank : (s.comp.req r).rank ≤ Stage.data.doorRank := by
      rcases Completion.stepFail_at hfail with hat | hat <;> rw [hat] <;> decide
    have hno : t.comp.rung ⟨r, .data⟩ ≠ true := by
      intro hr
      rw [hb.rung_false (c := ⟨r, .data⟩) hrank] at hrung
      cases hrung hr
    rcases (Completion.stepFail_req hfail).2 with hto | hto <;> rw [hto] <;>
      exact fun hr => absurd hr hno
  · rw [hw] at h
    rw [hw']
    exact (h.wait hs).1 w'

theorem batchPlace_of_reachable {regs : Nat → BitVec 32} {s : State}
    (h : (system reqs regArgs regs).Reachable s) (r : Nat) :
    BatchPlace reqs s r (s.comp.req r) := by
  refine StepSystem.ReachVia.invariant_of (I := fun s => BatchPlace reqs s r (s.comp.req r))
    (J := fun s => Base reqs s.comp ∧
      (Window.system regs (accesses reqs regArgs)).Reachable s.win)
    (fun s hs => ⟨Completion.base_of_reachable (comp_reachable hs), win_reachable hs⟩) ?_ ?_ h
  · intro s (hi : Initial reqs regArgs regs s)
    rw [hi.comp.req r]
    refine ⟨?_, fun j _ => hi.win.pc _⟩
    rw [batchLog, hi.win.log]
    rfl
  · intro s a t ⟨hb, hwin⟩ hp _ (hst : step reqs regArgs s a = some t)
    cases a with
    | comp a =>
        obtain ⟨hready, hcomp, hto⟩ := step_comp hst
        have hs := sameBatch_comp hto r
        by_cases ha : a = .request r
        · subst ha
          exact hp.request hs hb hwin hready hcomp
        · exact hp.other hs hb ha hcomp
    | access i v =>
        obtain ⟨hrun, hcomp, hacc⟩ := step_access hst
        exact hp.access hwin hrun hcomp hacc

theorem BatchPlace.wrote {s : State} {r : Nat} {pc : ReqPc} (h : BatchPlace reqs s r pc)
    (hrank : Stage.data.doorRank < pc.rank) (hrung : s.comp.rung ⟨r, .data⟩ = true) :
    Wrote reqs s r := by
  cases pc with
  | wait st w =>
      cases st with
      | upload => exact absurd hrank (show ¬ 16 < 7 by omega)
      | data => exact h
  | unlock st ret =>
      cases st with
      | upload => exact absurd hrank (show ¬ 16 < 8 by omega)
      | data =>
          rcases h with hw | ⟨-, hno⟩
          · exact hw
          · rw [hno] at hrung
            cases hrung
  | teardownDesc ret => exact h hrung
  | teardownSg ret => exact h hrung
  | done ret => exact h hrung
  | setupSg => exact absurd hrank (show ¬ 16 < 0 by omega)
  | setDesc => exact absurd hrank (show ¬ 16 < 1 by omega)
  | batch k => exact absurd hrank (show ¬ 16 < 15 by omega)
  | lock st | program st k | setRunning st | doorbell st =>
      cases st <;> simp [ReqPc.rank, Stage.doorRank, Stage.base] at hrank

theorem batchUnit_of_lt {regs : Nat → BitVec 32} {s : State} {r : Nat}
    (hop : (reqs r).regs.regOperation = regEnable)
    (hnum : (reqs r).regs.num.toNat < regOperationMaxNum)
    (h : (system reqs regArgs regs).Reachable s) : BatchUnit reqs s r := by
  have hb := Completion.base_of_reachable (comp_reachable h)
  have hplace := batchPlace_of_reachable h r
  have hcount := count_of_enabled hop
  rw [if_pos hnum] at hcount
  have hdone : Wrote reqs s r → Performed reqs s r := by
    intro hw
    refine ⟨Nat.le_of_lt hnum, ?_⟩
    rw [← hcount]
    exact hw
  refine ⟨fun hrung => hdone (hplace.wrote (hb.rung _ hrung) hrung), fun ⟨w, hpc⟩ => hdone ?_,
    fun ret hpc => ?_⟩
  · rw [hpc] at hplace
    exact hplace
  · rw [hpc] at hplace
    rcases hplace with hw | hno
    · exact Or.inl (hdone hw)
    · exact Or.inr hno

/-! ## Below the capacity and above it -/

/-- The batch is performed as a unit, in every state of every run, exactly below the
capacity. -/
theorem batchUnit_iff (regArgs : Nat → DpuRegArgs) (regs : Nat → BitVec 32) {r : Nat}
    (hop : (reqs r).regs.regOperation = regEnable) :
    (∀ s, (system reqs regArgs regs).Reachable s → BatchUnit reqs s r) ↔
      (reqs r).regs.num.toNat < regOperationMaxNum := by
  constructor
  · intro h
    by_contra hnum
    have hcount := count_of_enabled hop
    rw [if_neg hnum] at hcount
    obtain ⟨s, hs, hpc, hlog⟩ := exists_unwritten reqs regArgs regs hcount
    obtain ⟨hle, hdone⟩ := (h s hs).waits ⟨_, hpc⟩
    have hlen := congrArg List.length hdone
    rw [batchLog, hlog, batchEntries, List.length_map, List.length_range] at hlen
    simp only [List.filter_nil, List.reverse_nil, List.length_nil] at hlen
    simp only [regOperationMaxNum] at hnum
    omega
  · intro hnum s hs
    exact batchUnit_of_lt hop hnum hs

end

theorem batched_unit :
    ∃ s, (system batched pokes fun _ => 0).Reachable s ∧
      s.comp.req 0 = .wait .data (.check .woken) ∧ s.comp.rung ⟨0, .data⟩ = true ∧
      batchLog s.win 0 = [⟨0, .writel, 0x50000010, 7⟩] ∧ BatchUnit batched s 0 := by
  obtain ⟨s, hs, hpc, hrung, hlog⟩ := StepSystem.exists_reachVia
    (S := system batched pokes fun _ => 0) (g := fun _ _ => True)
    (fun s => s.comp.req 0 = .wait .data (.check .woken) ∧ s.comp.rung ⟨0, .data⟩ = true ∧
      batchLog s.win 0 = [⟨0, .writel, 0x50000010, 7⟩])
    (untilDataDoorbell ++ [Action.comp (.request 0)]) (.start probedDriver_initial)
    (by decide +kernel)
  exact ⟨s, hs, hpc, hrung, hlog, (batchUnit_iff pokes (fun _ => 0) rfl).mpr (by decide) s hs⟩

def full (r : Nat) : HdmaRequest :=
  { Completion.sample r with regs := ⟨regEnable, 16, fun _ => ⟨0x50000010, 7⟩⟩ }

def probedFull : State where
  comp := Completion.probed
  win := { probedDriver.win with data := fun i => (accesses full pokes i).args.regData }

/-- Both transfers of request 0, each ended by the device, up to its return. -/
def untilReturn : List Completion.Action :=
  Completion.untilUpload 0 ++ [Completion.Action.request 0] ++ Completion.stopUpload 0 ++
    Completion.threadSteps 6 ++ Completion.untilData 0 ++ [Completion.Action.request 0] ++
    Completion.stopData 0 ++ Completion.threadSteps 6 ++
    List.replicate 4 (Completion.Action.request 0)

/-- A batch of 16 writes is skipped, the doorbell is rung, and the call returns 0. -/
theorem full_skipped : ∃ s : State, (system full pokes fun _ => 0).Reachable s ∧
    s.comp.req 0 = .done 0 ∧ s.comp.rung ⟨0, .data⟩ = true ∧ s.win.log = [] ∧
    ¬ BatchUnit full s 0 := by
  obtain ⟨s, hs, hpc, hrung, hlog⟩ := StepSystem.exists_reachVia
    (S := system full pokes fun _ => 0) (g := fun _ _ => True) (s := probedFull)
    (fun s => s.comp.req 0 = .done 0 ∧ s.comp.rung ⟨0, .data⟩ = true ∧ s.win.log = [])
    (untilReturn.map .comp)
    (.start ⟨Completion.probed_initial, rfl, rfl, rfl, fun _ => rfl, fun _ => rfl, rfl⟩)
    (by decide +kernel)
  refine ⟨s, hs, hpc, hrung, hlog, fun h => ?_⟩
  have hlen := congrArg List.length (h.rung hrung).2
  rw [batchLog, hlog] at hlen
  exact absurd hlen (by decide)

end Machine
end EonDrv

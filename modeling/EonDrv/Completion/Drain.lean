import EonDrv.Completion.Waits
import EonDrv.Support.Trajectory
import Mathlib.Data.Finset.Card

/-!
# The completion thread on its own

With no further interrupt and no stop signal the thread works off what it finds, whatever
the tokens and the status words are.  A pass of the inner loop serves a channel, or counts
an idle pass, and gives up a token at 32 of them; a round of the outer loop gives up a
token, or serves a channel by the extra scan.
-/

namespace EonDrv
namespace Completion

open Trajectory (Leads Summary)

def scanOrder : List Chan := (List.finRange maxHdmaNumber).flatMap fun i => [⟨.rd, i⟩, ⟨.wr, i⟩]

theorem mem_scanOrder (ch : Chan) : ch ∈ scanOrder := by
  refine List.mem_flatMap.mpr ⟨ch.id, List.mem_finRange ch.id, ?_⟩
  obtain ⟨rwType, id⟩ := ch
  cases rwType
  · exact List.mem_cons_self
  · exact List.mem_cons_of_mem _ List.mem_cons_self

/-! ## What the thread does -/

/-- The begin of a round of the outer loop, the store of a state, and the write of
`int_clear`. -/
inductive KthreadEvent
  | round
  | completed (ch : Chan)
  | cleared (ch : Chan) (mask : BitVec 32)
  deriving DecidableEq

def KthreadEvent.chan : KthreadEvent → Option Chan
  | .round => none
  | .completed ch => some ch
  | .cleared ch _ => some ch

def kthreadShows (s : State) : List KthreadEvent :=
  match s.thread.pc with
  | .wait => [.round]
  | .store _ ch _ => [.completed ch]
  | .clear _ ch status => [.cleared ch (hdmaClearIntrStatus status.value)]
  | _ => []

def eventsOf (ch : Chan) (es : List KthreadEvent) : List KthreadEvent :=
  es.filter fun e => e.chan = some ch

def rounds (es : List KthreadEvent) : Nat := es.count .round

/-- The channels with a stop, watermark or abort bit. -/
def pending (s : State) : Finset Chan :=
  scanOrder.toFinset.filter fun ch => HasEvent (s.ctx ch).intStatus.value

/-- `eon_remove` has not begun. -/
def NotStopped (s : State) : Prop := s.shouldStopFlag = false ∧ s.kthreadShouldStop = false

structure Untouched (s : State) (es : List KthreadEvent) (t : State) (ch : Chan) : Prop where
  events : eventsOf ch es = []
  ctx : t.ctx ch = s.ctx ch

/-- The run completed the channel and cleared the word it read, once. -/
structure ServedOnce (s : State) (es : List KthreadEvent) (t : State) (ch : Chan) : Prop where
  pending : HasEvent (s.ctx ch).intStatus.value
  events : eventsOf ch es = [.completed ch, .cleared ch (s.ctx ch).intStatus.value]
  state : (t.ctx ch).state = .completed
  status : (t.ctx ch).intStatus.value = 0#32
  regs : (t.ctx ch).regs = (s.ctx ch).regs

def Serves (s : State) (es : List KthreadEvent) (t : State) : Prop :=
  ∀ ch, Untouched s es t ch ∨ ServedOnce s es t ch

structure Drained (s : State) (es : List KthreadEvent) (t : State) : Prop where
  fifo : t.fifo = 0
  quiet : ∀ ch, ¬ HasEvent (t.ctx ch).intStatus.value
  served : ∀ ch, HasEvent (s.ctx ch).intStatus.value → ServedOnce s es t ch
  others : ∀ ch, ¬ HasEvent (s.ctx ch).intStatus.value → Untouched s es t ch

/-! ## What runs compose to -/

theorem eventsOf_append (ch : Chan) (es es' : List KthreadEvent) :
    eventsOf ch (es ++ es') = eventsOf ch es ++ eventsOf ch es' := List.filter_append ..

theorem rounds_append (es es' : List KthreadEvent) :
    rounds (es ++ es') = rounds es + rounds es' := List.count_append ..

theorem not_hasEvent_zero : ¬ HasEvent 0#32 := by
  decide

theorem serves_of_ctx {s t : State} (h : t.ctx = s.ctx) : Serves s [] t :=
  fun ch => Or.inl ⟨rfl, congrFun h ch⟩

theorem Serves.append {s t u : State} {es es' : List KthreadEvent} (h : Serves s es t)
    (h' : Serves t es' u) : Serves s (es ++ es') u := by
  intro ch
  have happend := eventsOf_append ch es es'
  rcases h ch with hleft | hserved
  · rw [hleft.events, List.nil_append] at happend
    rcases h' ch with hleft' | hserved'
    · exact Or.inl ⟨happend.trans hleft'.events, hleft'.ctx.trans hleft.ctx⟩
    · have hpending := hserved'.pending
      have hevents := hserved'.events
      have hregs := hserved'.regs
      rw [hleft.ctx] at hpending hevents hregs
      exact Or.inr ⟨hpending, happend.trans hevents, hserved'.state, hserved'.status, hregs⟩
  · rcases h' ch with hleft' | hserved'
    · rw [hleft'.events, List.append_nil, hserved.events] at happend
      refine Or.inr ⟨hserved.pending, happend, ?_, ?_, ?_⟩ <;> rw [hleft'.ctx]
      · exact hserved.state
      · exact hserved.status
      · exact hserved.regs
    · -- a served channel has no event left
      have hpending := hserved'.pending
      rw [hserved.status] at hpending
      exact absurd hpending not_hasEvent_zero

theorem summary_serves : Summary Serves := ⟨fun _ => serves_of_ctx rfl, Serves.append⟩

theorem mem_pending {s : State} {ch : Chan} :
    ch ∈ pending s ↔ HasEvent (s.ctx ch).intStatus.value := by
  rw [pending, Finset.mem_filter, List.mem_toFinset, and_iff_right (mem_scanOrder ch)]

theorem Serves.pending_subset {s t : State} {es : List KthreadEvent} (h : Serves s es t) :
    pending t ⊆ pending s := by
  intro ch hch
  rw [mem_pending] at hch ⊢
  rcases h ch with hleft | hserved
  · rwa [← hleft.ctx]
  · exact hserved.pending

theorem Serves.pending_lt {s t : State} {es : List KthreadEvent} (h : Serves s es t) {ch : Chan}
    (hch : ServedOnce s es t ch) : (pending t).card < (pending s).card := by
  refine Finset.card_lt_card (Finset.ssubset_iff_subset_ne.mpr ⟨h.pending_subset, fun heq => ?_⟩)
  have hmem : ch ∈ pending t := heq ▸ mem_pending.mpr hch.pending
  rw [mem_pending, hch.status] at hmem
  exact not_hasEvent_zero hmem

/-! ## One scan -/

def scanIndex (ch : Chan) : Nat :=
  2 * ch.id.val +
    match ch.rwType with
    | .rd => 0
    | .wr => 1

theorem scanIndex_injective {ch ch' : Chan} (h : scanIndex ch = scanIndex ch') : ch = ch' := by
  obtain ⟨rwType, id⟩ := ch
  obtain ⟨rwType', id'⟩ := ch'
  cases rwType <;> cases rwType' <;> simp only [scanIndex] at h <;>
    first
      | (exfalso; omega)
      | (obtain rfl : id = id' := Fin.ext (by omega); rfl)

theorem scanIndex_nextChan {ch ch' : Chan} (h : nextChan ch = some ch') :
    scanIndex ch' = scanIndex ch + 1 := by
  obtain ⟨rwType, id⟩ := ch
  cases rwType with
  | rd =>
      obtain rfl := Option.some.inj h
      rfl
  | wr =>
      simp only [nextChan] at h
      split at h
      · obtain rfl := Option.some.inj h
        simp only [scanIndex]
        omega
      · cases h

theorem scanIndex_lt (ch : Chan) : scanIndex ch < 32 := by
  have hid := ch.id.isLt
  simp only [maxHdmaNumber] at hid
  unfold scanIndex
  split <;> omega

theorem scanIndex_last {ch : Chan} (h : nextChan ch = none) : scanIndex ch = 31 := by
  have hid := ch.id.isLt
  obtain ⟨rwType, id⟩ := ch
  cases rwType with
  | rd => cases h
  | wr =>
      simp only [nextChan] at h
      split at h
      · cases h
      · simp only [maxHdmaNumber, scanIndex] at *
        omega

section

variable (reqs : Nat → HdmaRequest)

abbrev Runs : State → List KthreadEvent → State → Prop :=
  Leads (hamaHandleKthread reqs) kthreadShows

def Works (s : State) (es : List KthreadEvent) (t : State) : Prop :=
  Runs reqs s es t ∧ Serves s es t

theorem summary_works : Summary (Works reqs) :=
  (Trajectory.summary_leads _ _).and summary_serves

section

variable {reqs}

theorem works_step {s t : State} (hst : hamaHandleKthread reqs s = some t)
    (hshows : kthreadShows s = []) (hctx : t.ctx = s.ctx) : Works reqs s [] t :=
  ⟨.silent hst hshows (.refl t), serves_of_ctx hctx⟩

theorem Works.append {s t u : State} {es es' : List KthreadEvent} (h : Works reqs s es t)
    (h' : Works reqs t es' u) : Works reqs s (es ++ es') u := (summary_works reqs).append h h'

theorem NotStopped.of_runs {s t : State} {es : List KthreadEvent} (h : NotStopped s)
    (hrun : Runs reqs s es t) : NotStopped t := by
  let Same : State → List KthreadEvent → State → Prop := fun s _ t =>
    t.shouldStopFlag = s.shouldStopFlag ∧ t.kthreadShouldStop = s.kthreadShouldStop
  have hsummary : Summary Same :=
    ⟨fun _ => ⟨rfl, rfl⟩, fun h₁ h₂ => ⟨h₂.1.trans h₁.1, h₂.2.trans h₁.2⟩⟩
  have hsame : Same s es t := hrun.summary hsummary fun s t hst => by
    rw [hamaHandleKthread_frame hst]
    exact ⟨rfl, rfl⟩
  exact ⟨hsame.1.trans h.1, hsame.2.trans h.2⟩

end

/-- The thread found the status of `ch`, and is about to store its state. -/
def State.found (s : State) (sc : Scan) (ch : Chan) : State :=
  let status := (s.ctx ch).intStatus
  { s with thread := ⟨.store sc ch status, scanFlag s sc status, s.thread.loop⟩ }

/-- From a channel on, the scan comes to the first pending one, or ends. -/
theorem runs_scan {sc : Scan} (n : Nat) {s : State} {ch : Chan} (hn : scanIndex ch + n = 32)
    (hpc : s.thread.pc = .read sc ch) :
    (∃ ch', ch' ∈ pending s ∧ Runs reqs s [] (s.found sc ch')) ∨
      ((∀ ch', scanIndex ch ≤ scanIndex ch' → ch' ∉ pending s) ∧
        Runs reqs s [] (s.setPc (afterScan sc))) := by
  induction n generalizing s ch with
  | zero =>
      have hlt := scanIndex_lt ch
      omega
  | succ n ih =>
      have hshows : kthreadShows s = [] := by
        simp only [kthreadShows, hpc]
      have hmove : ∀ {t u : State}, hamaHandleKthread reqs s = some t → Runs reqs t [] u →
          Runs reqs s [] u := fun hst hrun => hrun.silent hst hshows
      by_cases he : HasEvent (s.ctx ch).intStatus.value
      · refine Or.inl ⟨ch, mem_pending.mpr he, hmove ?_ (.refl _)⟩
        simp only [hamaHandleKthread, hpc, he, if_true]
        rfl
      · have hself : ∀ ch', scanIndex ch' = scanIndex ch → ch' ∉ pending s := by
          intro ch' heq hmem
          rw [scanIndex_injective heq, mem_pending] at hmem
          exact he hmem
        cases hnext : nextChan ch with
        | none =>
            have hlast := scanIndex_last hnext
            refine Or.inr ⟨fun ch' hle => hself ch' ?_, hmove ?_ (.refl _)⟩
            · have hlt := scanIndex_lt ch'
              omega
            · simp only [hamaHandleKthread, hpc, he, if_false, hnext]
        | some ch' =>
            have hidx := scanIndex_nextChan hnext
            have hst : hamaHandleKthread reqs s = some (s.setPc (.read sc ch')) := by
              simp only [hamaHandleKthread, hpc, he, if_false, hnext]
            have hpc' : (s.setPc (.read sc ch')).thread.pc = .read sc ch' := rfl
            rcases ih (by omega) hpc' with ⟨ch'', hmem, hrun⟩ | ⟨hnone, hrun⟩
            · exact Or.inl ⟨ch'', hmem, hmove hst hrun⟩
            · refine Or.inr ⟨fun ch'' hle => ?_, hmove hst hrun⟩
              rcases Nat.eq_or_lt_of_le hle with heq | hlt
              · exact hself ch'' heq.symm
              · exact hnone ch'' (by omega)

/-- The wake-up, if there is one, changes no more of a channel than `owed`. -/
theorem step_wake {sc : Scan} {s : State} {ch : Chan} {status : IntStatus}
    (hpc : s.thread.pc = .wake sc ch status) :
    ∃ t owed, hamaHandleKthread reqs s = some t ∧
      t.thread = ⟨afterScan sc, s.thread.flag, scanLoop s sc⟩ ∧ t.fifo = s.fifo ∧
      t.ctx = Function.update s.ctx ch { s.ctx ch with owed := owed } := by
  by_cases hw : wakes sc s.thread.flag = true
  · refine ⟨_, false, by simp only [hamaHandleKthread, hpc, hw, if_true]; rfl, ?_⟩
    cases sc <;> exact ⟨rfl, rfl, rfl⟩
  · refine ⟨_, (s.ctx ch).owed, by simp only [hamaHandleKthread, hpc, hw]; rfl, ?_⟩
    have hsame := (Function.update_eq_self ch s.ctx).symm
    cases sc <;> exact ⟨rfl, rfl, hsame⟩

theorem runs_found (sc : Scan) {s : State} {ch : Chan} (hch : ch ∈ pending s) :
    ∃ es t, Runs reqs (s.found sc ch) es t ∧ Serves s es t ∧ ServedOnce s es t ch ∧
      rounds es = 0 ∧ t.fifo = s.fifo ∧ t.thread.pc = afterScan sc ∧
      t.thread.loop = scanLoop s sc := by
  let status := (s.ctx ch).intStatus
  let c := s.ctx ch
  let c₁ : HdmaContext := { c with state := .completed, credit := status, owed := true }
  let c₂ : HdmaContext :=
    { c₁ with intStatus := c₁.intStatus.clear (hdmaClearIntrStatus status.value) }
  let t₁ := ((s.found sc ch).setCtx ch c₁).setPc (.clear sc ch status)
  let t₂ := (t₁.setCtx ch c₂).setPc (.wake sc ch status)
  have hstore : hamaHandleKthread reqs (s.found sc ch) = some t₁ := rfl
  have hclear : hamaHandleKthread reqs t₁ = some t₂ := by
    show some ((t₁.setCtx ch { t₁.ctx ch with
      intStatus := (t₁.ctx ch).intStatus.clear (hdmaClearIntrStatus status.value) }).setPc
        (.wake sc ch status)) = _
    rw [show t₁.ctx ch = c₁ from Function.update_self ..]
  obtain ⟨t, owed, hwake, hthread, hfifo, hctx⟩ :=
    step_wake reqs (show t₂.thread.pc = .wake sc ch status from rfl)
  rw [show t₂.ctx ch = c₂ from Function.update_self ..] at hctx
  have hself : t.ctx ch = { c₂ with owed := owed } := by
    rw [hctx, Function.update_self]
  have hother : ∀ ch', ch' ≠ ch → t.ctx ch' = s.ctx ch' := by
    intro ch' hne
    rw [hctx, Function.update_of_ne hne]
    show Function.update (Function.update s.ctx ch c₁) ch c₂ ch' = _
    rw [Function.update_of_ne hne, Function.update_of_ne hne]
  have hmask : hdmaClearIntrStatus status.value = status.value := by
    refine if_neg fun hzero => ?_
    have hevent := mem_pending.mp hch
    rw [show (s.ctx ch).intStatus.value = 0#32 from hzero] at hevent
    exact not_hasEvent_zero hevent
  have hcleared : (status.clear (hdmaClearIntrStatus status.value)).value = 0#32 := by
    rw [hmask, Sticky.value_clear]
    exact BitVec.and_not_self _
  let es : List KthreadEvent := [.completed ch, .cleared ch status.value]
  have hrun : Runs reqs (s.found sc ch) es t := by
    have hshows : kthreadShows t₁ = [.cleared ch status.value] := by rw [← hmask]; rfl
    refine .step hstore ?_
    rw [← List.append_nil [KthreadEvent.cleared ch status.value], ← hshows]
    exact .step hclear (.one hwake)
  have hserved : ServedOnce s es t ch := by
    refine ⟨mem_pending.mp hch, ?_, ?_, ?_, ?_⟩
    · simp [es, eventsOf, KthreadEvent.chan, status]
    · rw [hself]
    · rw [hself]
      exact hcleared
    · rw [hself]
  refine ⟨es, t, hrun, fun ch' => ?_, hserved, rfl, hfifo, ?_, ?_⟩
  · by_cases hne : ch' = ch
    · exact Or.inr (hne ▸ hserved)
    · refine Or.inl ⟨?_, hother ch' hne⟩
      simp [es, eventsOf, KthreadEvent.chan, Ne.symm hne]
  · rw [hthread]
  · rw [hthread]
    cases sc <;> rfl

/-- A scan serves one channel, or finds none pending. -/
theorem works_scan {sc : Scan} {s : State} (hpc : s.thread.pc = .read sc firstChan) :
    ∃ es t, Works reqs s es t ∧ rounds es = 0 ∧ t.fifo = s.fifo ∧ t.thread.pc = afterScan sc ∧
      (((pending t).card < (pending s).card ∧ t.thread.loop = scanLoop s sc) ∨
        (pending s = ∅ ∧ t = s.setPc (afterScan sc))) := by
  rcases runs_scan reqs 32 (show scanIndex firstChan + 32 = 32 from rfl) hpc with
    ⟨ch, hch, hrun⟩ | ⟨hnone, hrun⟩
  · obtain ⟨es, t, hfound, hserves, hserved, hrounds, hfifo, hafter, hloop⟩ :=
      runs_found reqs sc hch
    exact ⟨es, t, ⟨hrun.append hfound, hserves⟩, hrounds, hfifo, hafter,
      Or.inl ⟨hserves.pending_lt hserved, hloop⟩⟩
  · refine ⟨[], _, ⟨hrun, serves_of_ctx rfl⟩, rfl, rfl, rfl, Or.inr ⟨?_, rfl⟩⟩
    exact Finset.eq_empty_iff_forall_notMem.mpr fun ch => hnone ch (Nat.zero_le _)

/-! ## The loops -/

theorem step_popTokens {s : State} (hstop : s.shouldStopFlag = false)
    (hpc : s.thread.pc = .popTokens) :
    ∃ t, hamaHandleKthread reqs s = some t ∧ t.ctx = s.ctx ∧
      ((32 ≤ s.thread.loop ∧ t.thread.pc = .extraTop ∧ t.fifo ≤ s.fifo - 1) ∨
        (s.thread.loop < 32 ∧ t.thread.pc = .whileTop ∧ t.thread.loop = s.thread.loop ∧
          t.fifo ≤ s.fifo)) := by
  refine ⟨popTokens s, by simp only [hamaHandleKthread, hpc], ?_⟩
  unfold popTokens
  by_cases hloop : 32 ≤ s.thread.loop
  · simp only [hloop, if_true, true_and]
    exact Or.inl (by omega)
  · simp only [hloop, if_false, hstop, Bool.false_eq_true, true_and]
    exact Or.inr ⟨Nat.not_le.mp hloop, Nat.sub_le ..⟩

/-- A pass of the inner loop serves a channel, counts an idle pass, or gives up a token and
leaves the loop. -/
theorem works_pass {s : State} (hstop : NotStopped s) (hpc : s.thread.pc = .whileTop)
    (hfifo : 1 ≤ s.fifo) :
    ∃ es t, Works reqs s es t ∧ rounds es = 0 ∧
      ((t.thread.pc = .extraTop ∧ t.fifo < s.fifo) ∨
        (t.thread.pc = .whileTop ∧ t.fifo ≤ s.fifo ∧
          ((pending t).card < (pending s).card ∨
            (pending t).card = (pending s).card ∧
              32 - t.thread.loop < 32 - s.thread.loop))) := by
  let s₁ : State :=
    { s with thread := ⟨.read .token firstChan, s.thread.flag, s.thread.loop + 1⟩ }
  have hnext : hamaHandleKthread reqs s = some s₁ := by
    simp only [hamaHandleKthread, hpc, hfifo, if_true]
    rfl
  have hbegin : Works reqs s [] s₁ := works_step hnext (by simp only [kthreadShows, hpc]) rfl
  obtain ⟨es, u, hwork, hrounds, hsame, hafter, hscan⟩ := works_scan reqs
    (show s₁.thread.pc = .read .token firstChan from rfl)
  obtain ⟨t, hpop, hctx, hend⟩ := step_popTokens reqs
    ((hstop.of_runs hbegin.1).of_runs hwork.1).1 hafter
  have hpass : Works reqs s (es ++ []) t := (hbegin.append hwork).append
    (works_step hpop (by simp only [kthreadShows, hafter, afterScan]) hctx)
  rw [List.append_nil] at hpass
  have hpending : pending t = pending u := by simp only [pending, hctx]
  have hfifo' : u.fifo = s.fifo := hsame
  refine ⟨es, t, hpass, hrounds, ?_⟩
  rcases hend with ⟨-, hto, hle⟩ | ⟨hloop, hto, hkeep, hle⟩
  · exact Or.inl ⟨hto, by omega⟩
  · refine Or.inr ⟨hto, by omega, ?_⟩
    rw [hpending]
    rcases hscan with ⟨hlt, -⟩ | ⟨-, rfl⟩
    · exact Or.inl hlt
    · have hidle : s.thread.loop + 1 < 32 := hloop
      have hcount : t.thread.loop = s.thread.loop + 1 := hkeep
      exact Or.inr ⟨rfl, by omega⟩

/-- The inner loop ends, with no token left or with one fewer. -/
theorem works_while {s : State} (hstop : NotStopped s) (hpc : s.thread.pc = .whileTop) :
    ∃ es t, Works reqs s es t ∧ rounds es = 0 ∧ t.thread.pc = .extraTop ∧
      t.fifo ≤ s.fifo ∧ (t.fifo = 0 ∨ t.fifo < s.fifo) := by
  have hsummary : Summary fun s es t => Works reqs s es t ∧ rounds es = 0 :=
    (summary_works reqs).and ⟨fun _ => rfl, fun {s t u es es'} h₁ h₂ => by
      rw [rounds_append, h₁, h₂]⟩
  let Inside : State → Prop := fun t => NotStopped t ∧ t.fifo ≤ s.fifo ∧
    (t.thread.pc = .whileTop ∨ t.thread.pc = .extraTop ∧ (t.fifo = 0 ∨ t.fifo < s.fifo))
  let Measure : State → Nat × Nat := fun t => ((pending t).card, 32 - t.thread.loop)
  have hpass : ∀ t : State, Inside t → ¬ t.thread.pc = .extraTop →
      ∃ es u, (Works reqs t es u ∧ rounds es = 0) ∧ Inside u ∧
        (u.thread.pc = .extraTop ∨ Prod.Lex (· < ·) (· < ·) (Measure u) (Measure t)) := by
    rintro t ⟨hstop, hle, hat⟩ hgoal
    have hpc : t.thread.pc = .whileTop := hat.resolve_right fun h => hgoal h.1
    by_cases hfifo : 1 ≤ t.fifo
    · obtain ⟨es, u, hwork, hrounds, hend⟩ := works_pass reqs hstop hpc hfifo
      have hstop' := hstop.of_runs hwork.1
      rcases hend with ⟨hto, hlt⟩ | ⟨hto, hle', hmeasure⟩
      · exact ⟨es, u, ⟨hwork, hrounds⟩,
          ⟨hstop', by omega, Or.inr ⟨hto, Or.inr (by omega)⟩⟩, Or.inl hto⟩
      · refine ⟨es, u, ⟨hwork, hrounds⟩, ⟨hstop', by omega, Or.inl hto⟩, Or.inr ?_⟩
        exact Prod.lex_def.mpr hmeasure
    · have hnext : hamaHandleKthread reqs t = some (t.setPc .extraTop) := by
        simp only [hamaHandleKthread, hpc, hfifo, if_false]
      have hwork := works_step hnext (by simp only [kthreadShows, hpc]) rfl
      exact ⟨[], _, ⟨hwork, rfl⟩, ⟨hstop.of_runs hwork.1, hle, Or.inr ⟨rfl, Or.inl
        (show t.fifo = 0 by omega)⟩⟩, Or.inl rfl⟩
  obtain ⟨es, t, ⟨hwork, hrounds⟩, ⟨-, hle, hend⟩, hdone⟩ := hsummary.of_decreasing
    (Prod.lex Nat.lt_wfRel Nat.lt_wfRel).wf Measure hpass ⟨hstop, Nat.le_refl _, Or.inl hpc⟩
  refine ⟨es, t, hwork, hrounds, hdone, hle, ?_⟩
  rcases hend with hpc' | ⟨-, hend⟩
  · rw [hdone] at hpc'
    cases hpc'
  · exact hend

/-- With no token left the extra scan serves a channel, if one is pending. -/
theorem works_extra {s : State} (hpc : s.thread.pc = .extraTop) :
    ∃ es t, Works reqs s es t ∧ rounds es = 0 ∧ t.thread.pc = .outerEnd ∧ t.fifo = s.fifo ∧
      (s.fifo = 0 → pending s ≠ ∅ → (pending t).card < (pending s).card) := by
  have hshows : kthreadShows s = [] := by simp only [kthreadShows, hpc]
  by_cases hfifo : s.fifo < 1
  · have hnext : hamaHandleKthread reqs s = some (s.setPc (.read .extra firstChan)) := by
      simp only [hamaHandleKthread, hpc, hfifo, if_true]
    obtain ⟨es, t, hwork, hrounds, hsame, hafter, hscan⟩ := works_scan reqs
      (show (s.setPc (.read .extra firstChan)).thread.pc = .read .extra firstChan from rfl)
    refine ⟨es, t, (works_step hnext hshows rfl).append hwork, hrounds, hafter, hsame,
      fun _ hne => ?_⟩
    rcases hscan with ⟨hlt, -⟩ | ⟨hnone, -⟩
    · exact hlt
    · exact absurd hnone hne
  · have hnext : hamaHandleKthread reqs s = some (s.setPc .outerEnd) := by
      simp only [hamaHandleKthread, hpc, hfifo, if_false]
    exact ⟨[], _, works_step hnext hshows rfl, rfl, rfl, rfl, fun hzero => by omega⟩

def backlog (s : State) : Nat := s.fifo + (pending s).card

/-- A round of the outer loop takes something off the backlog. -/
theorem works_round {s : State} (hstop : NotStopped s) (hpc : s.thread.pc = .wait)
    (hs : backlog s ≠ 0) :
    ∃ es t, Works reqs s es t ∧ rounds es = 1 ∧ t.thread.pc = .wait ∧ backlog t < backlog s := by
  have hnext : hamaHandleKthread reqs s = some (s.setPc .whileTop) := by
    simp only [hamaHandleKthread, hpc, hstop.2]
    rfl
  have hshows : kthreadShows s = [.round] := by simp only [kthreadShows, hpc]
  have hbegin : Works reqs s [.round] (s.setPc .whileTop) :=
    ⟨hshows ▸ Leads.one hnext, fun ch => Or.inl ⟨rfl, rfl⟩⟩
  obtain ⟨es, u, hwhile, hrounds, hextra, hle, hend⟩ := works_while reqs
    (show NotStopped (s.setPc .whileTop) from hstop) rfl
  obtain ⟨es', w, hscan, hrounds', hout, hsame, hserve⟩ := works_extra reqs hextra
  have hstop' := ((hstop.of_runs hbegin.1).of_runs hwhile.1).of_runs hscan.1
  have hlast : hamaHandleKthread reqs w = some (w.setPc .wait) := by
    simp only [hamaHandleKthread, hout, hstop'.1]
    rfl
  have hback := works_step hlast (by simp only [kthreadShows, hout]) rfl
  refine ⟨_, _, ((hbegin.append hwhile).append hscan).append hback, ?_, rfl, ?_⟩
  · rw [rounds_append, rounds_append, rounds_append, hrounds, hrounds']
    rfl
  · have hfewer := Finset.card_le_card hwhile.2.pending_subset
    have hfewer' := Finset.card_le_card hscan.2.pending_subset
    show w.fifo + (pending w).card < s.fifo + (pending s).card
    have hkept : u.fifo ≤ s.fifo := hle
    have hgone : u.fifo = 0 ∨ u.fifo < s.fifo := hend
    have hsub : (pending u).card ≤ (pending s).card := hfewer
    by_cases hmore : u.fifo < s.fifo
    · omega
    · have hzero : u.fifo = 0 := hgone.resolve_right hmore
      by_cases hnone : pending u = ∅
      · -- the channels that were pending were served by the inner loop
        have hnow : (pending u).card = 0 := Finset.card_eq_zero.mpr hnone
        unfold backlog at hs
        omega
      · have hlt := hserve hzero hnone
        omega

/-- The inner loop ends, and rounds of the outer loop, no more than there are tokens and
pending channels, work everything off. -/
structure Drains (s : State) : Prop where
  inner : s.thread.pc = .whileTop → ∃ es t, Runs reqs s es t ∧ t.thread.pc = .extraTop
  outer : s.thread.pc = .wait → ∃ es t, Runs reqs s es t ∧ t.thread.pc = .wait ∧
    rounds es ≤ s.fifo + (pending s).card ∧ Drained s es t

theorem drained_of_backlog {s t : State} {es : List KthreadEvent} (h : Serves s es t)
    (hdone : backlog t = 0) : Drained s es t := by
  have hquiet : ∀ ch, ¬ HasEvent (t.ctx ch).intStatus.value := by
    intro ch hevent
    have hpos := Finset.card_pos.mpr ⟨ch, mem_pending.mpr hevent⟩
    unfold backlog at hdone
    omega
  refine ⟨Nat.eq_zero_of_add_eq_zero_right hdone, hquiet, fun ch hevent => ?_,
    fun ch hevent => ?_⟩
  · rcases h ch with hleft | hserved
    · have hstill := hquiet ch
      rw [hleft.ctx] at hstill
      exact absurd hevent hstill
    · exact hserved
  · rcases h ch with hleft | hserved
    · exact hleft
    · exact absurd hserved.pending hevent

/-- Whatever it finds, the thread works it off. -/
theorem drains_of_notStopped {s : State} (hstop : NotStopped s) : Drains reqs s where
  inner hpc := by
    obtain ⟨es, t, hwork, -, hto, -⟩ := works_while reqs hstop hpc
    exact ⟨es, t, hwork.1, hto⟩
  outer hpc := by
    have hsummary : Summary fun s es t => Works reqs s es t ∧ rounds es + backlog t ≤ backlog s :=
      (summary_works reqs).and (Summary.of_cost rounds backlog rfl rounds_append)
    have hround : ∀ t : State, NotStopped t ∧ t.thread.pc = .wait → ¬ backlog t = 0 →
        ∃ es u, (Works reqs t es u ∧ rounds es + backlog u ≤ backlog t) ∧
          (NotStopped u ∧ u.thread.pc = .wait) ∧ (backlog u = 0 ∨ backlog u < backlog t) := by
      rintro t ⟨hstop, hpc⟩ hleft
      obtain ⟨es, u, hwork, hrounds, hto, hlt⟩ := works_round reqs hstop hpc hleft
      exact ⟨es, u, ⟨hwork, by omega⟩, ⟨hstop.of_runs hwork.1, hto⟩, Or.inr hlt⟩
    obtain ⟨es, t, ⟨hwork, hcost⟩, ⟨-, hto⟩, hdone⟩ :=
      hsummary.of_decreasing Nat.lt_wfRel.wf backlog hround ⟨hstop, hpc⟩
    refine ⟨es, t, hwork.1, hto, ?_, drained_of_backlog hwork.2 hdone⟩
    unfold backlog at hcost
    omega

end

/-- Five tokens, an abort on one channel and a stop with a watermark on another, and a loop
counter that is about to give up. -/
def loaded : State :=
  { probed with
    ctx := fun ch =>
      { probed.ctx ch with
        intStatus :=
          if ch = ⟨.rd, 0⟩ then [⟨none, 4#32⟩] else if ch = ⟨.wr, 3⟩ then [⟨none, 3#32⟩] else [] }
    fifo := 5
    thread := ⟨.wait, 0, 31⟩ }

theorem loaded_drains : ∃ es t, Runs sample loaded es t ∧ rounds es ≤ 7 ∧ t.fifo = 0 ∧
    eventsOf ⟨.rd, 0⟩ es = [.completed ⟨.rd, 0⟩, .cleared ⟨.rd, 0⟩ 4#32] ∧
    eventsOf ⟨.wr, 3⟩ es = [.completed ⟨.wr, 3⟩, .cleared ⟨.wr, 3⟩ 3#32] ∧
    eventsOf ⟨.wr, 0⟩ es = [] := by
  obtain ⟨es, t, hrun, -, hrounds, hdone⟩ :=
    (drains_of_notStopped sample (show NotStopped loaded from ⟨rfl, rfl⟩)).outer rfl
  refine ⟨es, t, hrun, ?_, hdone.fifo, (hdone.served ⟨.rd, 0⟩ (by decide)).events,
    (hdone.served ⟨.wr, 3⟩ (by decide)).events, (hdone.others ⟨.wr, 0⟩ (by decide)).events⟩
  rwa [show (pending loaded).card = 2 by decide +kernel] at hrounds

end Completion
end EonDrv

import EonDrv.Completion.Waits

/-!
# Aborts and wake-ups

Both scans act on any of stop, watermark and abort, and the requester sees only
the state they leave behind.  The token scan wakes only for stop.  A status word
with an event but no stop is therefore taken for a completion, and in the token
scan it completes a channel without waking its queue.
-/

namespace EonDrv
namespace Completion

/-- The device aborted the doorbell and did not stop it. -/
def AbortedOnly (s : State) (c : Call) : Prop := s.aborted c = true ∧ s.stopped c = false

instance (s : State) (c : Call) : Decidable (AbortedOnly s c) :=
  inferInstanceAs (Decidable (_ ∧ _))

section

variable (reqs : Nat → HdmaRequest)

/-! ## Aborts -/

/-- A step completes a running channel only for a stop, leaves an aborted call
running, and returns no 0 for it. -/
structure AbortSafe (s t : State) : Prop where
  onStop : ∀ ch, (s.ctx ch).state = .running → (t.ctx ch).state = .completed →
    ∃ sc status, s.thread.pc = .store sc ch status ∧ HasStop status.value
  running : ∀ ch, ∀ c ∈ current t ch, AbortedOnly t c → (t.ctx ch).state = .running
  nonzero : ∀ r st w, s.req r = .wait st w → AbortedOnly s ⟨r, st⟩ →
    t.req r ≠ .unlock st 0

/-- A scan that finds an event finds stop, over a call that is not aborted; no call
is aborted once `COMPLETED` is stored or due; no signal ends the wait of an aborted
call. -/
def StopsOnly (s : State) : Action → Prop
  | .thread =>
    match s.thread.pc with
    | .read _ ch =>
      HasEvent (s.ctx ch).intStatus.value →
        HasStop (s.ctx ch).intStatus.value ∧ ∀ c ∈ current s ch, ¬ AbortedOnly s c
    | _ => True
  | .raise ch o bits =>
    ∀ c ∈ current s ch, o = some c → HasAbort bits → ¬ HasStop bits → s.stopped c = false →
      (s.ctx ch).state = .running ∧ storing s ≠ some ch
  | .request r =>
    match s.req r with
    | .wait st (.check .signal) =>
      (s.ctx ((reqs r).chan st)).state = .running → ¬ AbortedOnly s ⟨r, st⟩
    | _ => True
  | _ => True

instance (s : State) (a : Action) : Decidable (StopsOnly reqs s a) := by
  unfold StopsOnly
  rcases a with r | _ | _ | _ | _ | _ | _ | _ | _ <;> dsimp only <;> try infer_instance
  · rcases s.req r <;> try infer_instance
    rename_i w
    rcases w with ⟨_ | _ | _⟩ | _ <;> infer_instance
  · rcases s.thread.pc <;> infer_instance

variable {reqs}

theorem Base.abortedOnly_iff {s : State} (hb : Base reqs s) {ch : Chan}
    {a : Doorbell.Active Call} (h : (cell reqs s ch).call = some a) :
    a.AbortedOnly ↔ AbortedOnly s a.call := by
  obtain ⟨r, sp, _, _, rfl⟩ := hb.of_cell_call h
  exact Iff.rfl

theorem StopsOnly.stopOnly {s : State} {a : Action} {ch : Chan}
    {e : Doorbell.Event Call 32} (hb : Base reqs s) (hg : StopsOnly reqs s a)
    (hshow : Shows reqs s a ch e) : Doorbell.StopOnly masks (cell reqs s ch) e := by
  cases e with
  | read b =>
      obtain ⟨rfl, sc, hpc, hevent, _⟩ := hshow
      simp only [StopsOnly, hpc] at hg
      obtain ⟨hstop, hnone⟩ := hg hevent
      refine ⟨hstop, fun a ha hab => ?_⟩
      exact hnone _ (current_of_call ha) ((hb.abortedOnly_iff ha).mp hab)
  | raise o bits =>
      have ha : a = .raise ch o bits := hshow
      subst ha
      intro a ha ho habort hstop hold
      obtain ⟨hrun, hstoring⟩ := hg _ (current_of_call ha) ho habort (not_not.mpr hstop) (by
        obtain ⟨r, sp, _, _, rfl⟩ := hb.of_cell_call ha
        exact hold)
      exact ⟨beq_iff_eq.mpr hrun, fun b st hheld => hstoring (storing_of_held hheld)⟩
  | cut ok =>
      obtain ⟨r, st, why, rfl, hpc, rfl, hrun, _, hok⟩ := hshow
      intro hsignal a ha hab
      rw [hok.mp hsignal] at hpc
      have hphase : (s.req r).phase = some (st, .awake) := by rw [hpc]; rfl
      simp only [StopsOnly, hpc] at hg
      rw [hb.cell_call hphase, Option.some.injEq] at ha
      subst ha
      exact hg hrun ((hb.abortedOnly_iff (hb.cell_call hphase)).mp hab)
  | _ => trivial

theorem sound_of_stopsOnly {s : State} (h : (system reqs).ReachVia (StopsOnly reqs) s)
    (ch : Chan) : Doorbell.Sound masks (cell reqs s ch) :=
  cell_invariant (fun _ hv => .idle hv) (fun _ _ _ hv hg hs => hv.step hg hs)
    (fun _ _ _ _ hb hg hshow => hg.stopOnly hb hshow) h ch

theorem Fires.completed_cases {s t : State} {a : Action} (h : Fires reqs s a t) {ch : Chan}
    (ht : (t.ctx ch).state = .completed) :
    (s.ctx ch).state = .completed ∨ ∃ sc status, s.thread.pc = .store sc ch status := by
  have hsame : ∀ {ch' : Chan} {c : HdmaContext}, ((s.setCtx ch' c).ctx ch).state = .completed →
      c.state = (s.ctx ch').state → (s.ctx ch).state = .completed := by
    intro ch' c ht' hc
    by_cases hch : ch = ch'
    · rw [hch, State.setCtx_ctx_self, hc] at ht'
      rw [hch, ht']
    · rw [s.setCtx_ctx_ne hch] at ht'
      exact ht'
  cases h with
  | lock _ _ => exact Or.inl (hsame ht rfl)
  | program _ _ => exact Or.inl (hsame ht rfl)
  | @setRunning r st hpc =>
      by_cases hch : ch = (reqs r).chan st
      · subst hch
        rw [State.setReq_ctx, State.setCtx_ctx_self] at ht
        cases ht
      · rw [State.setReq_ctx, s.setCtx_ctx_ne hch] at ht
        exact Or.inl ht
  | unlock _ => exact Or.inl (hsame ht rfl)
  | raise _ => exact Or.inl (hsame ht rfl)
  | @store sc ch' status hpc =>
      by_cases hch : ch = ch'
      · subst hch
        exact Or.inr ⟨sc, status, hpc⟩
      · rw [State.setPc_ctx, s.setCtx_ctx_ne hch] at ht
        exact Or.inl ht
  | clear _ => exact Or.inl (hsame ht rfl)
  | wake _ _ => exact Or.inl (hsame ht rfl)
  | _ => exact Or.inl ht

/-- In a run where every event read comes with stop, aborted calls are never
completed and never return 0. -/
theorem abortSafe_of_stopsOnly {s t : State} {a : Action}
    (h : (system reqs).ReachVia (StopsOnly reqs) s) (hg : StopsOnly reqs s a)
    (hstep : (system reqs).step s a = some t) : AbortSafe s t where
  onStop ch hrun hdone := by
    rcases (fires_of_step hstep).completed_cases hdone with hold | ⟨sc, status, hpc⟩
    · rw [hrun] at hold
      cases hold
    · have hheld : (cell reqs s ch).held = some ⟨.store, sc.wakesFor status, status⟩ := by
        show s.thread.pc.held ch = _
        rw [hpc]
        exact if_pos rfl
      exact ⟨sc, status, hpc, (sound_of_stopsOnly h ch).heldStop _ hheld⟩
  running ch c hc hab := by
    have ht := StepSystem.ReachVia.next h hg hstep
    have hb := base_of_reachable ht.reachable
    obtain ⟨a, ha, rfl⟩ := cell_call_of_current reqs hc
    have hrun := ((sound_of_stopsOnly ht ch).aborted a ha ((hb.abortedOnly_iff ha).mpr hab)).1
    exact beq_iff_eq.mp hrun
  nonzero r st w hpc hab hzero := by
    have hb := base_of_reachable h.reachable
    have hphase : (s.req r).phase = some (st, w.phase) := by rw [hpc]; rfl
    have hcell := hb.cell_call hphase
    have hrun := ((sound_of_stopsOnly h _).aborted _ hcell ((hb.abortedOnly_iff hcell).mpr hab)).1
    rcases (fires_of_step hstep).wait_cases hpc with ⟨w', hpc'⟩ | ⟨why, ret, hend, hret⟩
    · rw [hpc'] at hzero
      cases hzero
    · rw [hzero, ReqPc.unlock.injEq] at hret
      rcases hend.cause with ⟨hstate, _⟩ | ⟨hstate, ⟨_, hr⟩ | ⟨hwhy, _⟩⟩
      · exact hstate (beq_iff_eq.mp hrun)
      · rw [hr] at hret
        exact absurd hret.2 (by decide)
      · rw [hend.action] at hg
        simp only [StopsOnly, hend.place, hwhy] at hg
        exact hg hstate hab

end

theorem aborted_upload_fails :
    ∃ s t, (system sample).ReachVia (StopsOnly sample) s ∧
      (system sample).step s (.request 0) = some t ∧ AbortedOnly s ⟨0, .upload⟩ ∧
      t.req 0 = .unlock .upload (-1) ∧ AbortSafe s t := by
  obtain ⟨s, hs, hab, hstep, hg⟩ := StepSystem.exists_reachVia
    (S := system sample) (g := StopsOnly sample)
    (fun s => AbortedOnly s ⟨0, .upload⟩ ∧
      ((system sample).step s (.request 0)).map (fun t => t.req 0) = some (.unlock .upload (-1)) ∧
      StopsOnly sample s (.request 0))
    (untilUpload 0 ++ [Action.request 0, .raise ⟨.rd, 0⟩ (some ⟨0, .upload⟩) abortBit,
      .expire 0])
    (.start probed_initial) (by decide +kernel)
  obtain ⟨t, ht, hpc⟩ := Option.map_eq_some_iff.mp hstep
  exact ⟨s, t, hs, ht, hab, hpc, abortSafe_of_stopsOnly hs hg ht⟩

/-- The device aborts an upload without stop, and the token scan completes it. -/
theorem not_abortSafe : ¬ ∀ s t a, (system sample).Reachable s →
    (system sample).step s a = some t → AbortSafe s t := by
  intro hall
  obtain ⟨s, hs, hpc, hrun, hstep⟩ := StepSystem.exists_reachVia
    (S := system sample) (g := fun _ _ => True)
    (fun s => s.thread.pc = .store .token ⟨.rd, 0⟩ [⟨some ⟨0, .upload⟩, abortBit⟩] ∧
      (s.ctx ⟨.rd, 0⟩).state = .running ∧
      ((system sample).step s .thread).map (fun t => (t.ctx ⟨.rd, 0⟩).state) = some .completed)
    (untilUpload 0 ++ [Action.raise ⟨.rd, 0⟩ (some ⟨0, .upload⟩) abortBit, .irq] ++
      threadSteps 3)
    (.start probed_initial) (by decide +kernel)
  obtain ⟨t, ht, hdone⟩ := Option.map_eq_some_iff.mp hstep
  obtain ⟨sc, status, hpc', hstop⟩ := (hall s t .thread hs ht).onStop ⟨.rd, 0⟩ hrun hdone
  rw [hpc] at hpc'
  cases hpc'
  exact hstop (by decide)

/-! ## Wake-ups -/

section

variable (reqs : Nat → HdmaRequest)

/-- When the thread is back at its wait, no requester sleeps on a channel that runs
no more, and every completed channel was woken. -/
def NoLostWake (s : State) : Prop :=
  s.thread.pc = .wait →
    (∀ r st, s.req r = .wait st .asleep → (s.ctx ((reqs r).chan st)).state = .running) ∧
      ∀ ch, (s.ctx ch).owed = false

/-- The token scan reads no event without stop. -/
def TokenStops (s : State) : Action → Prop
  | .thread =>
    match s.thread.pc with
    | .read .token ch =>
      HasEvent (s.ctx ch).intStatus.value → HasStop (s.ctx ch).intStatus.value
    | _ => True
  | _ => True

instance (s : State) (a : Action) : Decidable (TokenStops s a) := by
  unfold TokenStops
  rcases a with _ | _ | _ | _ | _ | _ | _ | _ | _ <;> dsimp only <;> try infer_instance
  rcases s.thread.pc with _ | _ | ⟨_ | _, _⟩ | _ | _ | _ | _ | _ | _ | _ <;> infer_instance

variable {reqs}

theorem TokenStops.waking {s : State} {a : Action} {ch : Chan} {e : Doorbell.Event Call 32}
    (hg : TokenStops s a) (hshow : Shows reqs s a ch e) :
    Doorbell.Waking (cell reqs s ch) e := by
  cases e with
  | read b =>
      obtain ⟨rfl, sc, hpc, hevent, rfl⟩ := hshow
      show sc.wakesFor _ = true
      cases sc with
      | extra => rfl
      | token =>
          simp only [TokenStops, hpc] at hg
          exact decide_eq_true (hg hevent)
  | _ => trivial

/-- In a run whose token scans read no event without stop, the thread never goes
back to waiting with a wake-up left out. -/
theorem noLostWake_of_tokenStops {s : State} (h : (system reqs).ReachVia TokenStops s) :
    NoLostWake reqs s := by
  intro hpc
  have hb := base_of_reachable h.reachable
  have hroused : ∀ ch, Doorbell.Roused (cell reqs s ch) := fun ch =>
    cell_invariant (fun _ hv => .idle hv) (fun _ _ _ hv hg hs => hv.step hg hs)
      (fun _ _ _ _ _ hg hshow => hg.waking hshow) h ch
  have hno : ∀ ch, ¬ Doorbell.WillWake (cell reqs s ch) := by
    rintro ch ⟨hd, hheld, _⟩
    have hnone : (cell reqs s ch).held = none := by
      show s.thread.pc.held ch = none
      rw [hpc]
      rfl
    rw [hnone] at hheld
    cases hheld
  refine ⟨fun r st hasleep => ?_, fun ch => ?_⟩
  · have hphase : (s.req r).phase = some (st, .asleep) := by rw [hasleep]; rfl
    by_contra hstate
    have hrun : (cell reqs s ((reqs r).chan st)).running = false := beq_false_of_ne hstate
    exact hno _ ((hroused _).asleep _ (hb.cell_call hphase) rfl hrun)
  · cases howed : (s.ctx ch).owed with
    | false => rfl
    | true => exact absurd ((hroused ch).owed howed) (hno ch)

end

theorem upload_woken :
    ∃ s, (system sample).ReachVia TokenStops s ∧ s.thread.pc = .wait ∧ s.fifo = 0 ∧
      (s.ctx ⟨.rd, 0⟩).state = .completed ∧ NoLostWake sample s := by
  obtain ⟨s, hs, hpc, hfifo, hstate⟩ := StepSystem.exists_reachVia
    (S := system sample) (g := TokenStops)
    (fun s => s.thread.pc = .wait ∧ s.fifo = 0 ∧ (s.ctx ⟨.rd, 0⟩).state = .completed)
    (untilUpload 0 ++ [Action.request 0] ++ stopUpload 0 ++ threadSteps 42)
    (.start probed_initial) (by decide +kernel)
  exact ⟨s, hs, hpc, hfifo, hstate, noLostWake_of_tokenStops hs⟩

/-- Channel 0 aborts and channel 1 stops under one interrupt.  The token scan
completes channel 0 without a wake-up and spends the token on channel 1. -/
theorem not_noLostWake : ¬ ∀ s, (system spread).Reachable s → NoLostWake spread s := by
  intro hall
  obtain ⟨s, hs, hpc, hasleep, hstate⟩ := StepSystem.exists_reachVia
    (S := system spread) (g := fun _ _ => True)
    (fun s => s.thread.pc = .wait ∧ s.req 0 = .wait .upload .asleep ∧
      (s.ctx ⟨.rd, 0⟩).state = .completed)
    (untilUpload 0 ++ [Action.request 0] ++ untilUpload 1 ++ [Action.request 1,
      .raise ⟨.rd, 0⟩ (some ⟨0, .upload⟩) abortBit,
      .raise ⟨.rd, 1⟩ (some ⟨1, .upload⟩) stopBit, .irq] ++ threadSteps 50)
    (.start probed_initial) (by decide +kernel)
  have hrun := (hall s hs hpc).1 0 .upload hasleep
  rw [show s.ctx ((spread 0).chan .upload) = s.ctx ⟨.rd, 0⟩ from rfl, hstate] at hrun
  cases hrun

end Completion
end EonDrv

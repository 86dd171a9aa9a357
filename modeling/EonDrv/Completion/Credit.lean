import EonDrv.Completion.Waits

/-!
# Whose completion it is, and that none is lost

Nothing in a channel says which doorbell a pending bit belongs to.  A completion
is credited to the call in progress, and `int_clear` erases whatever is pending
under the bits that were read.  Both go right as long as the bits of one doorbell
do not meet the call of another.
-/

namespace EonDrv
namespace Completion

def StopOf (c : Call) (status : IntStatus) : Prop :=
  ∃ e ∈ status, e.origin = some c ∧ HasStop e.bits

instance (c : Call) (status : IntStatus) : Decidable (StopOf c status) :=
  inferInstanceAs (Decidable (∃ e ∈ status, _))

section

variable (reqs : Nat → HdmaRequest)

/-! ## Credit -/

/-- A wait that sees `COMPLETED` owes it to bits that were raised for its own
doorbell. -/
def OwnCompletion (s : State) : Prop :=
  ∀ r st why, s.req r = .wait st (.check why) →
    (s.ctx ((reqs r).chan st)).state = .completed →
    HasEvent (s.ctx ((reqs r).chan st)).credit.value ∧
      ∀ e ∈ (s.ctx ((reqs r).chan st)).credit, HasEvent e.bits → e.origin = some ⟨r, st⟩

/-- `RUNNING` is stored while no event is pending or being served on the channel,
and no event of another doorbell is raised during a call. -/
def NoStale (s : State) : Action → Prop
  | .request r =>
    match s.req r with
    | .setRunning st =>
      ¬ HasEvent (s.ctx ((reqs r).chan st)).intStatus.value ∧
        storing s ≠ some ((reqs r).chan st)
    | _ => True
  | .raise ch o bits => HasEvent bits → ∀ c ∈ current s ch, o = some c
  | _ => True

instance (s : State) (a : Action) : Decidable (NoStale reqs s a) := by
  unfold NoStale
  rcases a with r | _ | _ | _ | _ | _ | _ | _ | _ <;> dsimp only <;> try infer_instance
  · rcases s.req r <;> infer_instance

variable {reqs}

theorem NoStale.quiet {s : State} {a : Action} {ch : Chan} {e : Doorbell.Event Call 32}
    (hg : NoStale reqs s a) (hshow : Shows reqs s a ch e) :
    Doorbell.Quiet masks (cell reqs s ch) e := by
  cases e with
  | arm c b =>
      obtain ⟨rfl, hpc, rfl⟩ := hshow
      simp only [NoStale, hpc] at hg
      obtain ⟨hevent, hstoring⟩ := hg
      refine ⟨not_not.mp hevent, fun b st hheld => hstoring ?_⟩
      exact storing_of_held hheld
  | raise o bits =>
      have ha : a = .raise ch o bits := hshow
      subst ha
      intro hbits a ha
      exact hg hbits _ (current_of_call ha)
  | _ => trivial

/-- In a run without stale events every completion belongs to the call whose wait
it ends. -/
theorem ownCompletion_of_noStale {s : State} (h : (system reqs).ReachVia (NoStale reqs) s) :
    OwnCompletion reqs s := by
  intro r st why hpc hstate
  have hb := base_of_reachable h.reachable
  have hcredited : Doorbell.Credited masks (cell reqs s ((reqs r).chan st)) :=
    cell_invariant (fun _ hv => .idle hv) (fun _ _ _ hv hg hs => hv.step hg hs)
      (fun _ _ _ _ _ hg hshow => hg.quiet hshow) h _
  have hphase : (s.req r).phase = some (st, .awake) := by rw [hpc]; rfl
  have hrun : (cell reqs s ((reqs r).chan st)).running = false := by
    show ((s.ctx ((reqs r).chan st)).state == .running) = false
    rw [hstate]
    rfl
  exact hcredited.stored _ (hb.cell_call hphase) hrun

end

theorem data_completion_own :
    ∃ s, (system sample).ReachVia (NoStale sample) s ∧
      s.req 0 = .wait .data (.check .woken) ∧ (s.ctx ⟨.rd, 0⟩).state = .completed ∧
      OwnCompletion sample s := by
  obtain ⟨s, hs, hpc, hstate⟩ := StepSystem.exists_reachVia
    (S := system sample) (g := NoStale sample)
    (fun s => s.req 0 = .wait .data (.check .woken) ∧
      (s.ctx ⟨.rd, 0⟩).state = .completed)
    (untilUpload 0 ++ stopUpload 0 ++ threadSteps 42 ++ untilData 0 ++ stopData 0 ++
      threadSteps 42)
    (.start probed_initial) (by decide +kernel)
  exact ⟨s, hs, hpc, hstate, ownCompletion_of_noStale hs⟩

/-- The upload of request 0 times out, its stop comes during the upload of request
1, and completes that one. -/
theorem not_ownCompletion :
    ¬ ∀ s, (system sample).Reachable s → OwnCompletion sample s := by
  intro hall
  obtain ⟨s, hs, hpc, hstate, hcredit⟩ := StepSystem.exists_reachVia
    (S := system sample) (g := fun _ _ => True)
    (fun s => s.req 1 = .wait .upload (.check .woken) ∧
      (s.ctx ⟨.rd, 0⟩).state = .completed ∧
      (s.ctx ⟨.rd, 0⟩).credit = [⟨some ⟨0, .upload⟩, stopBit⟩])
    (untilUpload 0 ++ [Action.request 0, .expire 0, .request 0, .request 0] ++
      untilUpload 1 ++ stopUpload 0 ++ threadSteps 4)
    (.start probed_initial) (by decide +kernel)
  have hown := (hall s hs 1 .upload .woken hpc hstate).2 ⟨some ⟨0, .upload⟩, stopBit⟩
    (by rw [show (s.ctx ((sample 1).chan .upload)) = s.ctx ⟨.rd, 0⟩ from rfl, hcredit]; simp)
    (by decide)
  simp at hown

/-! ## Loss -/

section

variable (reqs : Nat → HdmaRequest)

/-- A stop raised for a waiting call is pending, or its wait is over, or it is read
and about to be stored. -/
def NoLoss (s : State) : Prop :=
  ∀ r st w, s.req r = .wait st w → s.stopped ⟨r, st⟩ = true →
    HasStop (s.ctx ((reqs r).chan st)).intStatus.value ∨
      (s.ctx ((reqs r).chan st)).state ≠ .running ∨
      ∃ sc status, s.thread.pc = .store sc ((reqs r).chan st) status ∧ StopOf ⟨r, st⟩ status

/-- A pending stop of the call in progress is erased only after it was read. -/
def ClearsRead (s : State) : Prop :=
  ∀ sc ch status, s.thread.pc = .clear sc ch status → HasStop status.value →
    ∀ c ∈ current s ch, StopOf c (s.ctx ch).intStatus → StopOf c status

def serving (s : State) (ch : Chan) : Option IntStatus :=
  match s.thread.pc with
  | .store _ ch' status | .clear _ ch' status => if ch' = ch then some status else none
  | _ => none

/-- While the thread is between the read and the clear of a stop that is not of
the call in progress, the device raises no stop for that call. -/
def StopUnserved (s : State) : Action → Prop
  | .raise ch o bits =>
    HasStop bits → ∀ c ∈ current s ch, o = some c →
      ∀ status ∈ serving s ch, HasStop status.value → StopOf c status
  | _ => True

instance (s : State) (a : Action) : Decidable (StopUnserved s a) := by
  unfold StopUnserved
  rcases a with _ | _ | _ | _ | _ | _ | _ | _ | _ <;> infer_instance

variable {reqs}

theorem serving_of_held {s : State} {ch : Chan} {h : Doorbell.Held Call 32}
    (hh : s.thread.pc.held ch = some h) (hplace : h.place ≠ .wake) :
    serving s ch = some h.status := by
  unfold serving
  cases hpc : s.thread.pc <;> rw [hpc] at hh <;>
    simp only [KthreadPc.held, reduceCtorEq] at hh
  all_goals
    split at hh <;> simp only [Option.some.injEq, reduceCtorEq] at hh
    rename_i hch
    subst hh
  · simp [hch]
  · simp [hch]
  · exact absurd rfl hplace

theorem StopUnserved.unserved {s : State} {a : Action} {ch : Chan}
    {e : Doorbell.Event Call 32} (hg : StopUnserved s a) (hshow : Shows reqs s a ch e) :
    Doorbell.Unserved masks (cell reqs s ch) e := by
  cases e with
  | raise o bits =>
      have ha : a = .raise ch o bits := hshow
      subst ha
      intro hbits a ha ho h hh hplace hst
      exact hg hbits _ (current_of_call ha) ho _ (serving_of_held hh hplace) hst
  | _ => trivial

theorem kept_of_stopUnserved {s : State} (h : (system reqs).ReachVia StopUnserved s)
    (ch : Chan) : Doorbell.Kept masks (cell reqs s ch) :=
  cell_invariant (fun _ hv => .idle hv) (fun _ _ _ hv hg hs => hv.step hg hs)
    (fun _ _ _ _ _ hg hshow => hg.unserved hshow) h ch

/-- In a run where no stop of a call is raised into the service of another stop, no
completion is lost and none is erased unread. -/
theorem noLoss_of_stopUnserved {s : State} (h : (system reqs).ReachVia StopUnserved s) :
    NoLoss reqs s ∧ ClearsRead s := by
  have hb := base_of_reachable h.reachable
  refine ⟨fun r st w hpc hstop => ?_, fun sc ch status hpc hst c hc hpending => ?_⟩
  · have hphase : (s.req r).phase = some (st, w.phase) := by rw [hpc]; rfl
    rcases (kept_of_stopUnserved h _).shown _ (hb.cell_call hphase) hstop with hshown | hrun
    · exact Or.inl hshown
    · exact Or.inr (Or.inl (ne_of_beq_false hrun))
  · obtain ⟨a, ha, rfl⟩ := cell_call_of_current reqs hc
    have hheld : (cell reqs s ch).held = some ⟨.clear, sc.wakesFor status, status⟩ := by
      show s.thread.pc.held ch = _
      rw [hpc]
      exact if_pos rfl
    exact (kept_of_stopUnserved h ch).read a .clear _ status ha hheld (by simp) hst hpending

end

theorem data_stop_kept :
    ∃ s, (system sample).ReachVia StopUnserved s ∧ s.req 0 = .wait .data (.check .woken) ∧
      s.stopped ⟨0, .data⟩ = true ∧ NoLoss sample s ∧ ClearsRead s := by
  obtain ⟨s, hs, hpc, hstop⟩ := StepSystem.exists_reachVia
    (S := system sample) (g := StopUnserved)
    (fun s => s.req 0 = .wait .data (.check .woken) ∧ s.stopped ⟨0, .data⟩ = true)
    (untilUpload 0 ++ stopUpload 0 ++ threadSteps 42 ++ untilData 0 ++ stopData 0)
    (.start probed_initial) (by decide +kernel)
  exact ⟨s, hs, hpc, hstop, noLoss_of_stopUnserved hs⟩

/-- The thread clears the stop of the upload when the data stage has already
stopped: the data stage waits on and nothing shows its stop. -/
theorem not_noLoss : ¬ ∀ s, (system sample).Reachable s → NoLoss sample s ∧ ClearsRead s := by
  intro hall
  obtain ⟨s, hs, hpc, hstop, hstatus, hstate, hstoring⟩ := StepSystem.exists_reachVia
    (S := system sample) (g := fun _ _ => True)
    (fun s => s.req 0 = .wait .data (.check .woken) ∧ s.stopped ⟨0, .data⟩ = true ∧
      (s.ctx ⟨.rd, 0⟩).intStatus.value = 0#32 ∧ (s.ctx ⟨.rd, 0⟩).state = .running ∧
      storing s = none)
    (untilUpload 0 ++ stopUpload 0 ++ threadSteps 4 ++ untilData 0 ++ stopData 0 ++
      threadSteps 1)
    (.start probed_initial) (by decide +kernel)
  rcases (hall s hs).1 0 .data _ hpc hstop with hshown | hstate' | ⟨sc, status, hpc', _⟩
  · refine hshown ?_
    rw [show s.ctx ((sample 0).chan .data) = s.ctx ⟨.rd, 0⟩ from rfl, hstatus]
    decide
  · exact hstate' hstate
  · rw [storing, hpc'] at hstoring
    cases hstoring

end Completion
end EonDrv

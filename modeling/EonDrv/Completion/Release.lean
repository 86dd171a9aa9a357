import EonDrv.Completion.Waits

/-!
# Release of memory the device uses

A request gives its descriptor table and its buffer back at its two teardowns.
The device may use both from a doorbell until it raises stop or abort for it or
is terminated.  The teardown waits for that only as long as no wait is cut short
and no `COMPLETED` is stored on behalf of another doorbell.
-/

namespace EonDrv
namespace Completion

/-- The request is about to run `teardown_dma_desc` or `dpu_teardown_sg`. -/
def Releasing (s : State) (r : Nat) : Prop :=
  ∃ ret, s.req r = .teardownDesc ret ∨ s.req r = .teardownSg ret

/-- The device is done with the transfer of a doorbell. -/
def Settled (s : State) (c : Call) : Prop :=
  s.stopped c = true ∨ s.aborted c = true ∨ s.terminated c = true

/-- Every doorbell of a request that releases its memory is settled. -/
def ReleaseSafe (s : State) : Prop :=
  ∀ r, Releasing s r → ∀ st, s.rung ⟨r, st⟩ = true → Settled s ⟨r, st⟩

section

variable (reqs : Nat → HdmaRequest)

/-- No wait whose doorbell was rung ends by timeout or signal, and no `COMPLETED`
is stored over a call that rings, before the device stopped or aborted it. -/
def InTime (s : State) : Action → Prop
  | .request r =>
    match s.req r with
    | .wait st (.check why) =>
      why ≠ .woken → (s.ctx ((reqs r).chan st)).state = .running →
        s.rung ⟨r, st⟩ = true → Finished s ⟨r, st⟩
    | _ => True
  | .thread =>
    match s.thread.pc with
    | .store _ ch _ =>
      ∀ c ∈ current s ch, (reqs c.request).rings c.stage = true → Finished s c
    | _ => True
  | _ => True

instance (s : State) (a : Action) : Decidable (InTime reqs s a) := by
  unfold InTime
  rcases a with r | _ | _ | _ | _ | _ | _ | _ | _ <;> dsimp only <;> try infer_instance
  · rcases s.req r <;> try infer_instance
    rename_i w
    rcases w <;> infer_instance
  · rcases s.thread.pc <;> infer_instance

variable {reqs}

theorem InTime.timely {s : State} {a : Action} {ch : Chan} {e : Doorbell.Event Call 32}
    (hb : Base reqs s) (hg : InTime reqs s a) (hshow : Shows reqs s a ch e) :
    Doorbell.Timely (cell reqs s ch) e := by
  cases e with
  | store =>
      obtain ⟨rfl, sc, status, hpc⟩ := hshow
      simp only [InTime, hpc] at hg
      intro a ha hrings
      have hcur := current_of_call ha
      obtain ⟨r, sp, _, _, rfl⟩ := hb.of_cell_call ha
      exact (hb.finished_iff ha).mpr (hg _ hcur hrings)
  | cut ok =>
      obtain ⟨r, st, why, rfl, hpc, rfl, hrun, hwhy, _⟩ := hshow
      simp only [InTime, hpc] at hg
      intro a ha hrung
      have hphase : (s.req r).phase = some (st, .awake) := by rw [hpc]; rfl
      rw [hb.cell_call hphase, Option.some.injEq] at ha
      subst ha
      exact (hb.finished_iff (hb.cell_call hphase)).mpr (hg hwhy hrun hrung)
  | _ => trivial

theorem rank_wait {pc : ReqPc} {st : Stage} (h : st.doorRank < pc.rank)
    (h' : pc.rank < st.base + 8) : ∃ w, pc = .wait st w := by
  have hrank : pc.rank = st.base + 7 := by
    unfold Stage.doorRank at h
    omega
  cases pc with
  | wait st' w => cases st <;> cases st' <;> first | exact ⟨w, rfl⟩ | cases hrank
  | lock st' => cases st <;> cases st' <;> cases hrank
  | program st' k => cases st <;> cases st' <;> cases hrank
  | setRunning st' => cases st <;> cases st' <;> cases hrank
  | doorbell st' => cases st <;> cases st' <;> cases hrank
  | unlock st' ret => cases st <;> cases st' <;> cases hrank
  | _ => cases st <;> cases hrank

/-- A doorbell rung by a call whose wait is over is finished. -/
def WaitedFor (s : State) : Prop :=
  ∀ c, s.rung c = true → c.stage.base + 8 ≤ (s.req c.request).rank → Finished s c

theorem WaitedFor.step {s t : State} {a : Action} (hb : Base reqs s)
    (hans : ∀ ch, Doorbell.Answered (cell reqs s ch)) (hs : WaitedFor s)
    (hg : InTime reqs s a) (h : Fires reqs s a t) : WaitedFor t := by
  intro c hc hrank
  rcases h.rung_cases hc with hold | ⟨_, hpc⟩
  · refine h.finished_mono ?_
    by_cases hwaited : c.stage.base + 8 ≤ (s.req c.request).rank
    · exact hs c hold hwaited
    · obtain ⟨w, hpc⟩ := rank_wait (hb.rung c hold) (by omega)
      rcases h.wait_cases hpc with ⟨w', hpc'⟩ | ⟨why, ret, hend, _⟩
      · rw [hpc'] at hrank
        simp only [ReqPc.rank] at hrank
        omega
      · have hphase : (s.req c.request).phase = some (c.stage, .awake) := by
          rw [hend.place]
          rfl
        have hcell := hb.cell_call hphase
        rcases hend.cause with ⟨hstate, _⟩ | ⟨hstate, hwhy⟩
        · have hrings := (hans _).rings _ hcell hold
          have hrun : (cell reqs s ((reqs c.request).chan c.stage)).running = false :=
            beq_false_of_ne hstate
          exact (hb.finished_iff hcell).mp ((hans _).finished _ hcell hrings hrun)
        · have hcut : why ≠ .woken := by
            rcases hwhy with ⟨rfl, _⟩ | ⟨rfl, _⟩ <;> simp
          rw [hend.action] at hg
          simp only [InTime, hend.place] at hg
          exact hg hcut hstate hold
  · rw [hpc] at hrank
    simp only [ReqPc.rank] at hrank
    omega

theorem answered_of_inTime {s : State} (h : (system reqs).ReachVia (InTime reqs) s)
    (ch : Chan) : Doorbell.Answered (cell reqs s ch) :=
  cell_invariant (fun _ hv => .idle hv) (fun _ _ _ hv hg hs => hv.step hg hs)
    (fun _ _ _ _ hb hg hshow => hg.timely hb hshow) h ch

/-- In a run whose waits and completions all come in time, no request releases
memory that the device may still use. -/
theorem releaseSafe_of_inTime {s : State} (h : (system reqs).ReachVia (InTime reqs) s) :
    ReleaseSafe s := by
  have hwaited : WaitedFor s := by
    refine StepSystem.ReachVia.invariant_of (J := fun s => Base reqs s ∧
      ∀ ch, Doorbell.Answered (cell reqs s ch)) (fun s hs => ⟨base_of_reachable hs.reachable,
        answered_of_inTime hs⟩) (fun s hs c hc => ?_) (fun s a t hj hi hg hst => ?_) h
    · rw [hs.rung c] at hc
      cases hc
    · exact hi.step hj.1 hj.2 hg (fires_of_step hst)
  intro r hrel st hrung
  have hrank : st.base + 8 ≤ (s.req r).rank := by
    obtain ⟨ret, hpc | hpc⟩ := hrel
    · rw [hpc]
      cases st <;> simp [ReqPc.rank, Stage.base]
    · rw [hpc]
      cases st <;> simp [ReqPc.rank, Stage.base]
  rcases hwaited ⟨r, st⟩ hrung hrank with hstop | habort
  · exact Or.inl hstop
  · exact Or.inr (Or.inl habort)

end

theorem released_after_stop :
    ∃ s, (system sample).ReachVia (InTime sample) s ∧ s.req 0 = .teardownDesc 0 ∧
      s.rung ⟨0, .upload⟩ = true ∧ s.rung ⟨0, .data⟩ = true ∧ ReleaseSafe s := by
  obtain ⟨s, hs, hpc, hupload, hdata⟩ := StepSystem.exists_reachVia
    (S := system sample) (g := InTime sample)
    (fun s => s.req 0 = .teardownDesc 0 ∧ s.rung ⟨0, .upload⟩ = true ∧
      s.rung ⟨0, .data⟩ = true)
    (untilUpload 0 ++ stopUpload 0 ++ threadSteps 42 ++ untilData 0 ++ stopData 0 ++
      threadSteps 42 ++ List.replicate 2 (Action.request 0))
    (.start probed_initial) (by decide +kernel)
  exact ⟨s, hs, hpc, hupload, hdata, releaseSafe_of_inTime hs⟩

/-- The upload times out, and its table is released under a device that has
raised nothing. -/
theorem not_releaseSafe : ¬ ∀ s, (system sample).Reachable s → ReleaseSafe s := by
  intro hall
  obtain ⟨s, hs, hpc, hrung, hstop, habort, hterm⟩ := StepSystem.exists_reachVia
    (S := system sample) (g := fun _ _ => True)
    (fun s => s.req 0 = .teardownDesc (-1) ∧ s.rung ⟨0, .upload⟩ = true ∧
      s.stopped ⟨0, .upload⟩ = false ∧ s.aborted ⟨0, .upload⟩ = false ∧
      s.terminated ⟨0, .upload⟩ = false)
    (untilUpload 0 ++ [Action.request 0, .expire 0, .request 0, .request 0])
    (.start probed_initial) (by decide +kernel)
  have hsettled := hall s hs 0 ⟨-1, Or.inl hpc⟩ .upload hrung
  simp [Settled, hstop, habort, hterm] at hsettled

end Completion
end EonDrv

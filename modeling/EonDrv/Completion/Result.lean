import EonDrv.Completion.Waits

/-!
# What a stage returns for the result of its wait

`wait_event_interruptible_timeout` returns a positive number when the condition
held, 0 when it timed out and a negative number after a signal.  `tranfer_desc` and
`dma_llmode_transmit` fold this into `ret`, and the two operations fold `ret` into
what the ioctl returns.

`Ended` is the record of the waits that are over: for each call, whether the state
of its channel had left `TRANSFER_STATE_RUNNING` when its wait ended.
-/

namespace EonDrv
namespace Completion

abbrev Ended := Call → Option Bool

section

variable (reqs : Nat → HdmaRequest)

def waitEnd (s : State) (a : Action) (t : State) : Option (Call × Bool) :=
  match a with
  | .request r =>
    match s.req r, t.req r with
    | .wait st _, .unlock _ _ =>
      some (⟨r, st⟩, decide ((s.ctx ((reqs r).chan st)).state ≠ .running))
    | _, _ => none
  | _ => none

def recordEnd (s : State) (a : Action) (t : State) (ended : Ended) : Ended :=
  match waitEnd reqs s a t with
  | some (c, left) => Function.update ended c (some left)
  | none => ended

def waits : StepSystem (State × Ended) Action :=
  (system reqs).observe (fun _ => none) (recordEnd reqs)

def inData : ReqPc → Bool
  | .lock .data => true
  | pc => pc.critical == some .data

/-- A stage returns 0 only if its transfer was over when its wait ended.  So no data
stage starts, and no request returns 0, after a wait that a signal or the timeout
ended with the transfer unfinished. -/
structure ZeroMeansFinished (s : State × Ended) : Prop where
  returns : ∀ r st, s.1.req r = .unlock st 0 → s.2 ⟨r, st⟩ = some true
  data : ∀ r, inData (s.1.req r) = true → s.2 ⟨r, .upload⟩ = some true
  success : ∀ r, s.1.req r = .done 0 → ∀ st, s.2 ⟨r, st⟩ ≠ some false

/-- A wait that ends with the state still `RUNNING` ends by the timeout, and in an
inbound request. -/
def NoSignal (s : State) : Action → Prop
  | .request r =>
    match s.req r with
    | .wait st (.check why) =>
      (s.ctx ((reqs r).chan st)).state ≠ .running ∨
        match why with
        | .woken => True
        | .timeout => (reqs r).op = .inbound
        | .signal => False
    | _ => True
  | _ => True

instance (s : State) (a : Action) : Decidable (NoSignal reqs s a) := by
  unfold NoSignal
  rcases a with r | _ | _ | _ | _ | _ | _ | _ | _ <;> dsimp only <;> try infer_instance
  rcases s.req r <;> try infer_instance
  rename_i w
  rcases w with ⟨_ | _ | _⟩ | _ <;> infer_instance

end

/-! ## The record of one statement -/

/-- The request takes its error path, with a return value that is not 0. -/
def failing : ReqPc → Bool
  | .unlock _ ret | .teardownDesc ret | .teardownSg ret | .done ret => ret != 0
  | _ => false

section

variable {reqs : Nat → HdmaRequest}

theorem waitEnd_eq_some {s t : State} {a : Action} {c : Call} {left : Bool}
    (h : waitEnd reqs s a t = some (c, left)) :
    a = .request c.request ∧ ∃ w, s.req c.request = .wait c.stage w := by
  unfold waitEnd at h
  split at h
  · split at h
    · rename_i st w _ _ hs _
      simp only [Option.some.injEq, Prod.mk.injEq] at h
      obtain ⟨rfl, _⟩ := h
      exact ⟨rfl, w, hs⟩
    · cases h
  · cases h

theorem recordEnd_none {s t : State} {a : Action} {ended : Ended}
    (h : waitEnd reqs s a t = none) : recordEnd reqs s a t ended = ended := by
  simp only [recordEnd, h]

theorem recordEnd_other {s t : State} {a : Action} {r : Nat} (ha : a ≠ .request r)
    (ended : Ended) (st : Stage) : recordEnd reqs s a t ended ⟨r, st⟩ = ended ⟨r, st⟩ := by
  cases h : waitEnd reqs s a t with
  | none => rw [recordEnd_none h]
  | some p =>
      simp only [recordEnd, h]
      refine Function.update_of_ne ?_ _ _
      intro hp
      obtain ⟨hreq, -⟩ := waitEnd_eq_some (c := p.1) h
      rw [← hp] at hreq
      exact ha hreq

theorem recordEnd_not_wait {s t : State} {r : Nat} {ended : Ended}
    (h : ∀ st w, s.req r ≠ .wait st w) :
    recordEnd reqs s (.request r) t ended = ended := by
  refine recordEnd_none (Option.eq_none_iff_forall_ne_some.mpr fun p hp => ?_)
  obtain ⟨hreq, w, hw⟩ := waitEnd_eq_some (c := p.1) hp
  exact h _ w (Action.request.inj hreq ▸ hw)

theorem recordEnd_asleep {s t : State} {r : Nat} {ended : Ended} {st : Stage} {w w' : WaitPc}
    (hs : s.req r = .wait st w) (ht : t.req r = .wait st w') :
    recordEnd reqs s (.request r) t ended = ended :=
  recordEnd_none (by simp only [waitEnd, hs, ht])

theorem recordEnd_unlock {s t : State} {r : Nat} {ended : Ended} {st : Stage} {w : WaitPc}
    {ret : Int} (hs : s.req r = .wait st w) (ht : t.req r = .unlock st ret) :
    recordEnd reqs s (.request r) t ended =
      Function.update ended ⟨r, st⟩
        (some (decide ((s.ctx ((reqs r).chan st)).state ≠ .running))) := by
  simp only [recordEnd, waitEnd, hs, ht]

/-! ## The invariant -/

/-- What the record says about a request at a place. -/
structure Recorded (reqs : Nat → HdmaRequest) (ended : Ended) (r : Nat) (pc : ReqPc) : Prop where
  returns : ∀ st, pc = .unlock st 0 → ended ⟨r, st⟩ = some true
  data : inData pc = true → ended ⟨r, .upload⟩ = some true
  unfinished : ∀ st, ended ⟨r, st⟩ = some false → (reqs r).op = .inbound ∧ failing pc = true

theorem Recorded.next {ended : Ended} {r : Nat} {pc pc' : ReqPc} (h : Recorded reqs ended r pc)
    (hret : ∀ st, pc' ≠ .unlock st 0) (hdata : inData pc' = true → inData pc = true)
    (hfail : failing pc = true → (reqs r).op = .inbound → failing pc' = true) :
    Recorded reqs ended r pc' where
  returns st hpc := absurd hpc (hret st)
  data hpc := h.data (hdata hpc)
  unfinished st hst :=
    ⟨(h.unfinished st hst).1, hfail (h.unfinished st hst).2 (h.unfinished st hst).1⟩

/-- The end of a wait: 0 when the transfer was over, -1 after a timeout of an inbound
request. -/
theorem Recorded.endWait {ended : Ended} {r : Nat} {st : Stage} {w : WaitPc} {left : Bool}
    {ret : Int} (h : Recorded reqs ended r (.wait st w)) (hzero : ret = 0 → left = true)
    (hfail : left = false → (reqs r).op = .inbound ∧ ret ≠ 0) :
    Recorded reqs (Function.update ended ⟨r, st⟩ (some left)) r (.unlock st ret) where
  returns st' hpc := by
    simp only [ReqPc.unlock.injEq] at hpc
    obtain ⟨rfl, hret⟩ := hpc
    rw [Function.update_self, hzero hret]
  data hpc := by
    have hst : st = .data := by
      cases st with
      | upload => cases hpc
      | data => rfl
    subst hst
    rw [Function.update_of_ne (by simp)]
    exact h.data rfl
  unfinished st' hst' := by
    by_cases heq : st' = st
    · subst heq
      rw [Function.update_self, Option.some.injEq] at hst'
      exact ⟨(hfail hst').1, by simpa only [failing, bne_iff_ne] using (hfail hst').2⟩
    · rw [Function.update_of_ne (by simp [heq])] at hst'
      cases (h.unfinished st' hst').2

theorem errorReturn_inbound {q : HdmaRequest} (h : q.op = .inbound) (ret : Int) :
    q.errorReturn ret = ret := by
  unfold HdmaRequest.errorReturn
  rw [h]

theorem Recorded.request {s t : State} {r : Nat} {ended : Ended}
    (hr : Recorded reqs ended r (s.req r)) (hg : NoSignal reqs s (.request r))
    (h : stepRequest reqs s r = some t) :
    Recorded reqs (recordEnd reqs s (.request r) t ended) r (t.req r) := by
  have hadv := stepRequest_advances h
  generalize hpc : s.req r = pc at hadv hr
  generalize hpc' : t.req r = pc' at hadv ⊢
  cases hadv with
  | complete hleft =>
      rw [recordEnd_unlock hpc hpc', decide_eq_true hleft]
      exact hr.endWait (fun _ => rfl) fun hno => by cases hno
  | sleep _ =>
      rw [recordEnd_asleep hpc hpc']
      exact hr.next (fun _ => by simp) (fun hd => hd) fun hf => by cases hf
  | timeout hrun =>
      simp only [NoSignal, hpc] at hg
      replace hg := hg.resolve_left (not_not.mpr hrun)
      rw [recordEnd_unlock hpc hpc']
      exact hr.endWait (fun hz => by cases hz) fun _ => ⟨hg, by simp⟩
  | signal hrun =>
      simp only [NoSignal, hpc] at hg
      exact (hg.resolve_left (not_not.mpr hrun)).elim
  | @unlock st ret =>
      rw [recordEnd_not_wait (by simp [hpc])]
      cases st with
      | data => exact hr.next (fun _ => by simp [afterStage]) (fun hd => by cases hd) fun hf _ => hf
      | upload =>
          by_cases hret : ret = 0
          · subst hret
            refine ⟨fun st hst => ?_, fun _ => hr.returns .upload rfl, fun st hst => ?_⟩
            · cases hst
            · cases (hr.unfinished st hst).2
          · rw [afterStage, if_neg hret]
            exact hr.next (fun _ => by simp) (fun hd => by cases hd) fun hf _ => hf
  | @teardownSg ret =>
      rw [recordEnd_not_wait (by simp [hpc])]
      refine hr.next (fun _ => by simp) (fun hd => by cases hd) fun hf hin => ?_
      have hne : ret ≠ 0 := by simpa [failing] using hf
      rw [if_neg hne, errorReturn_inbound hin]
      exact hf
  | @lock st _ =>
      rw [recordEnd_not_wait (by simp [hpc])]
      refine hr.next (fun _ => by simp) (fun hd => ?_) fun hf => by cases hf
      cases st with
      | upload => cases hd
      | data => rfl
  | @setRunning st =>
      rw [recordEnd_not_wait (by simp [hpc])]
      cases st with
      | upload =>
          exact hr.next (fun _ => by simp [afterRunning]) (fun hd => hd) fun hf => by cases hf
      | data =>
          exact hr.next (fun _ => by simp [afterRunning]) (fun hd => hd) fun hf => by cases hf
  | setupSg =>
      rw [recordEnd_not_wait (by simp [hpc])]
      exact hr.next (fun _ => by simp) (fun hd => by cases hd) fun hf => by cases hf
  | setDesc =>
      rw [recordEnd_not_wait (by simp [hpc])]
      exact hr.next (fun _ => by simp) (fun hd => by cases hd) fun hf => by cases hf
  | teardownDesc =>
      rw [recordEnd_not_wait (by simp [hpc])]
      exact hr.next (fun _ => by simp) (fun hd => by cases hd) fun hf _ => hf
  | _ =>
      -- program, batch and doorbell stay in their stage
      rw [recordEnd_not_wait (by simp [hpc])]
      exact hr.next (fun _ => by simp) (fun hd => hd) fun hf => by cases hf

theorem Recorded.step {s t : State} {a : Action} {r : Nat} {ended : Ended}
    (hr : Recorded reqs ended r (s.req r)) (hg : NoSignal reqs s a)
    (h : Completion.step reqs s a = some t) :
    Recorded reqs (recordEnd reqs s a t ended) r (t.req r) := by
  by_cases ha : a = .request r
  · subst ha
    exact hr.request hg h
  · -- the record of another statement leaves this request out
    have hsame : Recorded reqs (recordEnd reqs s a t ended) r (s.req r) := by
      refine ⟨fun st hst => ?_, fun hd => ?_, fun st hst => ?_⟩
      · rw [recordEnd_other ha]
        exact hr.returns st hst
      · rw [recordEnd_other ha]
        exact hr.data hd
      · rw [recordEnd_other ha] at hst
        exact hr.unfinished st hst
    rcases step_req_cases h r with heq | hown | ⟨ret, rfl, hfail⟩ | ⟨st, w, w', hs, ht⟩
    · rwa [heq]
    · exact absurd hown ha
    · obtain ⟨hret, hplace⟩ := stepFail_req hfail
      have hf : ∀ pc : ReqPc, failing pc = (ret != 0) → failing pc = true := by
        intro pc hpc
        rw [hpc]
        exact bne_iff_ne.mpr hret
      rcases hplace with hpc | hpc
      · rw [hpc]
        exact hsame.next (fun _ => by simp) (fun hd => by cases hd) fun _ _ => hf _ rfl
      · rw [hpc]
        exact hsame.next (fun _ => by simp) (fun hd => by cases hd) fun _ _ => hf _ rfl
    · rw [hs] at hsame
      rw [ht]
      exact hsame.next (fun _ => by simp) (fun hd => hd) fun hf => by cases hf

/-- The record only watches: the recorded runs are the runs of the completion path. -/
theorem waits_reachVia (g : State → Action → Prop) (s : State) :
    (∃ ended, (waits reqs).ReachVia (fun s a => g s.1 a) (s, ended)) ↔
      (system reqs).ReachVia g s := by
  constructor
  · rintro ⟨_, h⟩
    exact h.of_observe
  · intro h
    exact h.exists_observe

/-- Without signals, and with timeouts in inbound requests only, 0 means finished in
every run. -/
theorem zeroMeansFinished_of_noSignal {s : State × Ended}
    (h : (waits reqs).ReachVia (fun s a => NoSignal reqs s.1 a) s) :
    ZeroMeansFinished s := by
  have hrec : ∀ r, Recorded reqs s.2 r (s.1.req r) := by
    refine h.invariant (I := fun s => ∀ r, Recorded reqs s.2 r (s.1.req r)) ?_ ?_
    · intro s (hi : Initial s.1 ∧ s.2 = fun _ => none) r
      rw [hi.1.req r, hi.2]
      exact
        { returns := fun _ hst => nomatch hst
          data := fun hd => nomatch hd
          unfinished := fun _ hst => nomatch hst }
    · intro s a t hr hg hst r
      obtain ⟨hstep, hended⟩ := StepSystem.observe_step hst
      rw [hended]
      exact (hr r).step hg hstep
  refine ⟨fun r => (hrec r).returns, fun r => (hrec r).data, fun r hpc st hst => ?_⟩
  have hfail := ((hrec r).unfinished st hst).2
  rw [hpc] at hfail
  cases hfail

end

/-! ## Sample runs -/

theorem waits_initial : (waits sample).init (probed, fun _ => none) :=
  ⟨probed_initial, rfl⟩

theorem done_after_both :
    ∃ s, (waits sample).ReachVia (fun s a => NoSignal sample s.1 a) s ∧ s.1.req 0 = .done 0 ∧
      s.2 ⟨0, .upload⟩ = some true ∧ s.2 ⟨0, .data⟩ = some true ∧ ZeroMeansFinished s := by
  obtain ⟨s, hs, hpc, hupload, hdata⟩ := StepSystem.exists_reachVia
    (S := waits sample) (g := fun s a => NoSignal sample s.1 a)
    (fun s => s.1.req 0 = .done 0 ∧ s.2 ⟨0, .upload⟩ = some true ∧ s.2 ⟨0, .data⟩ = some true)
    (untilUpload 0 ++ stopUpload 0 ++ threadSteps 42 ++ untilData 0 ++ stopData 0 ++
      threadSteps 42 ++ List.replicate 4 (Action.request 0))
    (.start waits_initial) (by decide +kernel)
  exact ⟨s, hs, hpc, hupload, hdata, zeroMeansFinished_of_noSignal hs⟩

/-- A signal in each of its two waits: the request goes through both stages and
returns 0 with neither transfer finished. -/
theorem not_zeroMeansFinished :
    ∃ s, (waits sample).Reachable s ∧ s.1.req 0 = .done 0 ∧ s.2 ⟨0, .upload⟩ = some false ∧
      s.2 ⟨0, .data⟩ = some false ∧ ¬ ZeroMeansFinished s := by
  obtain ⟨s, hs, hpc, hupload, hdata⟩ := StepSystem.exists_reachVia
    (S := waits sample) (g := fun _ _ => True)
    (fun s => s.1.req 0 = .done 0 ∧ s.2 ⟨0, .upload⟩ = some false ∧ s.2 ⟨0, .data⟩ = some false)
    (untilUpload 0 ++ [Action.interrupt 0] ++ untilData 0 ++ [Action.interrupt 0] ++
      List.replicate 4 (Action.request 0))
    (.start waits_initial) (by decide +kernel)
  exact ⟨s, hs, hpc, hupload, hdata, fun hz => hz.success 0 hpc .upload hupload⟩

end Completion
end EonDrv

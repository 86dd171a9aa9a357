import EonDrv.Lifecycle.Alive

/-!
# The two stop signals

`eon_remove` stores `should_stop_flag` and then calls `kthread_stop`.  The thread leaves its
outer loop for either signal, at the wait for the one and at the end of the loop for the
other.  `kthread_stop` needs the task of a thread that has not returned yet.
-/

namespace EonDrv.Lifecycle

open Completion (HdmaRequest)

/-- A thread that has returned was stopped. -/
def StoppedFirst (s : Lifetime) : Prop :=
  s.comp.thread.pc = .exited → s.comp.kthreadShouldStop = true

/-- `should_stop_flag` is stored, and `kthread_stop` not called yet. -/
def BetweenStops (s : Lifetime) : Prop :=
  s.comp.shouldStopFlag = true ∧ s.comp.kthreadShouldStop = false

/-- The thread does not come to the end of its outer loop between the two signals. -/
def TestsApart (s : Lifetime) (a : LifeAction) : Prop :=
  ¬ (a = .thread ∧ s.comp.thread.pc = .outerEnd ∧ BetweenStops s)

instance (s : Lifetime) : Decidable (BetweenStops s) := inferInstanceAs (Decidable (_ ∧ _))

instance (s : Lifetime) (a : LifeAction) : Decidable (TestsApart s a) :=
  match a with
  | .thread =>
    decidable_of_iff (¬ (s.comp.thread.pc = .outerEnd ∧ BetweenStops s))
      (by simp [TestsApart])
  | .kernel | .remove | .irq | .openFile _ | .ioctl _ | .request _ | .fail .. | .expire _
  | .interrupt _ | .raise .. => .isTrue (by simp [TestsApart])

section

variable {reqs : Nat → HdmaRequest} {k : Answers}

/-! ## Steps -/

theorem stepKernel_thread {s t : Lifetime} (h : stepKernel k s = some t) :
    t.comp.thread = s.comp.thread ∧
      (s.comp.kthreadShouldStop = true → t.comp.kthreadShouldStop = true) := by
  rcases stepKernel_cases h with ⟨-, -, rfl⟩ | ⟨-, -, rfl⟩ | rfl | ⟨e, rest, c, -, -, hc, rfl⟩
  · exact ⟨rfl, id⟩
  · exact ⟨rfl, id⟩
  · exact ⟨rfl, fun _ => rfl⟩
  · rcases hc with rfl | rfl
    · exact ⟨rfl, id⟩
    · exact ⟨rfl, id⟩

theorem stepLife_thread {s t : Lifetime} {a : LifeAction} (h : stepLife reqs k s a = some t) :
    (s.comp.kthreadShouldStop = true → t.comp.kthreadShouldStop = true) ∧
      (t.comp.thread = s.comp.thread ∧ a ≠ .thread ∨
        a = .thread ∧ Completion.hamaHandleKthread reqs s.comp = some t.comp) := by
  rcases stepLife_cases h with ⟨rfl, hk⟩ | ⟨rfl, hr⟩ | ⟨u, hu, rfl⟩
  · obtain ⟨hthread, hstop⟩ := stepKernel_thread hk
    exact ⟨hstop, Or.inl ⟨hthread, by simp⟩⟩
  · obtain ⟨-, hr⟩ := Option.ite_none_right_eq_some.mp hr
    obtain rfl := Option.some.inj hr
    exact ⟨id, Or.inl ⟨rfl, by simp⟩⟩
  · have hthread : a = .thread → Completion.hamaHandleKthread reqs s.comp = some u.comp := by
      rintro rfl
      exact stepComp_step (Option.ite_none_right_eq_some.mp hu).2
    show (_ → u.comp.kthreadShouldStop = true) ∧ (u.comp.thread = _ ∧ _ ∨ _ ∧ _ = some u.comp)
    by_cases ha : a = .thread
    · have hst := hthread ha
      exact ⟨Completion.step_kthreadShouldStop (a := .thread) hst, Or.inr ⟨ha, hst⟩⟩
    · rcases stepUser_comp hu with hsame | ⟨b, hb, hiff⟩
      · rw [hsame]
        exact ⟨id, Or.inl ⟨rfl, ha⟩⟩
      · exact ⟨Completion.step_kthreadShouldStop hb,
          Or.inl ⟨Completion.step_thread hb (mt hiff.mp ha), ha⟩⟩

theorem stoppedFirst_step {s t : Lifetime} {a : LifeAction} (hs : StoppedFirst s)
    (h : stepLife reqs k s a = some t) : StoppedFirst t ↔ TestsApart s a := by
  obtain ⟨hstop, hcase⟩ := stepLife_thread h
  constructor
  · rintro ht ⟨rfl, hpc, hflag, hno⟩
    have hst := (hcase.resolve_left fun hsame => hsame.2 rfl).2
    have hexit : t.comp = s.comp.setPc .exited := by
      simp only [Completion.hamaHandleKthread, hpc, hflag, if_true, Option.some.injEq] at hst
      exact hst.symm
    have hyes := ht (by rw [hexit]; rfl)
    rw [hexit] at hyes
    exact absurd (hyes.symm.trans hno) (by decide)
  · intro hg hpc
    rcases hcase with ⟨hsame, -⟩ | ⟨rfl, hst⟩
    · exact hstop (hs (by rw [← hsame]; exact hpc))
    · rcases Completion.exits_cases hst hpc with ⟨-, hyes⟩ | ⟨hend, hflag⟩
      · exact hstop hyes
      · cases hkthread : s.comp.kthreadShouldStop with
        | true => exact hstop hkthread
        | false => exact absurd ⟨rfl, hend, hflag, hkthread⟩ hg

/-- In every run whose steps meet the condition, the thread returns only after
`kthread_stop` was called on it. -/
theorem stoppedFirst_of_testsApart {s : Lifetime}
    (h : (lifetimes reqs k).ReachVia TestsApart s) : StoppedFirst s := by
  refine StepSystem.ReachVia.invariant (I := StoppedFirst) ?_ ?_ h
  · intro s (hi : LifeInitial k s) hpc
    rw [hi.comp.thread] at hpc
    cases hpc
  · intro s a t hs hg hst
    exact (stoppedFirst_step hs hst).mpr hg

end

/-- The whole probe, an interrupt whose token the thread takes up, and then the removal. -/
def stopSchedule : List LifeAction :=
  List.replicate 42 LifeAction.kernel ++ [LifeAction.irq] ++
    List.replicate 3 LifeAction.thread ++ [LifeAction.remove, .kernel]

/-- The thread is in its inner loop when `should_stop_flag` is stored, and comes to the end
of the outer one behind `kthread_stop`. -/
theorem joined_thread :
    ∃ s, (lifetimes Completion.sample granting).ReachVia TestsApart s ∧
      s.comp.thread.pc = .exited ∧ s.phase = .gone ∧ StoppedFirst s := by
  obtain ⟨s, hs, hpc, hphase⟩ := StepSystem.exists_reachVia
    (S := lifetimes Completion.sample granting) (g := TestsApart)
    (fun s => s.comp.thread.pc = .exited ∧ s.phase = .gone)
    (stopSchedule ++ [LifeAction.kernel] ++ List.replicate 34 LifeAction.thread ++
      List.replicate 40 LifeAction.kernel)
    (.start (atProbe_initial Completion.probed_initial granting)) (by decide +kernel)
  exact ⟨s, hs, hpc, hphase, stoppedFirst_of_testsApart hs⟩

/-- It comes there before `kthread_stop`, and `eon_remove` is about to pass on the task of
a thread that has returned. -/
theorem exits_unstopped :
    ∃ s, (lifetimes Completion.sample granting).Reachable s ∧ s.phase = .removing ∧
      s.comp.thread.pc = .exited ∧ s.todo.head? = some (.use (.release .thread)) ∧
      ¬ StoppedFirst s := by
  obtain ⟨s, hs, hphase, hpc, htodo, hstop⟩ := StepSystem.exists_reachVia
    (S := lifetimes Completion.sample granting) (g := fun _ _ => True)
    (fun s => s.phase = .removing ∧ s.comp.thread.pc = .exited ∧
      s.todo.head? = some (.use (.release .thread)) ∧ s.comp.kthreadShouldStop = false)
    (stopSchedule ++ List.replicate 34 LifeAction.thread)
    (.start (atProbe_initial Completion.probed_initial granting)) (by decide +kernel)
  refine ⟨s, hs, hphase, hpc, htodo, fun hfirst => ?_⟩
  rw [hfirst hpc] at hstop
  cases hstop

end EonDrv.Lifecycle

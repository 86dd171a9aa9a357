import EonDrv.Completion.Waits
import EonDrv.Lifecycle.Order

/-!
# Every object is alive at its use

What the order of the statements gives in every phase of a device, and from it the runs in
which nothing dead is touched.
-/

namespace EonDrv.Lifecycle

open Completion (HdmaRequest)

variable {k : Answers} {reqs : Nat → HdmaRequest}

/-! ## Phases -/

structure PhaseInv (k : Answers) (s : Lifetime) : Prop where
  history : s.live = s.ran.foldl Live.apply .nothing
  joined : .use (.acquire .thread) ∈ s.ran → s.live.held .thread = false →
    s.comp.thread.pc = .exited
  probing : s.phase = .probing →
    Along Live.apply FifoFirst s.live s.todo ∧
      ((eonProbe k).val.1 = 0 → Bound k (s.todo.foldl Live.apply s.live)) ∧
      ((eonProbe k).val.1 ≠ 0 → Gone (s.todo.foldl Live.apply s.live))
  bound : s.phase = .bound → s.todo = [] ∧ Bound k s.live
  removing : s.phase = .removing →
    Along Live.apply (Served k) s.live s.todo ∧ Gone (s.todo.foldl Live.apply s.live)
  gone : s.phase = .gone → s.todo = [] ∧ Gone s.live

theorem stepKernel_cases {s t : Lifetime} (h : stepKernel k s = some t) :
    (s.todo = [] ∧ s.phase = .probing ∧
        t = { s with phase := if (eonProbe k).val.1 = 0 then .bound else .gone }) ∨
      (s.todo = [] ∧ s.phase = .removing ∧ t = { s with phase := .gone }) ∨
      t = { s with comp := { s.comp with kthreadShouldStop := true } } ∨
      ∃ e rest c, s.todo = e :: rest ∧
        (e = .use (.release .thread) → s.live.held .thread = true →
          s.comp.thread.pc = .exited) ∧
        (c = s.comp ∨ c = { s.comp with shouldStopFlag := true }) ∧
        t = { s with todo := rest, ran := s.ran ++ [e], live := s.live.apply e, comp := c } := by
  unfold stepKernel at h
  split at h
  · rename_i htodo
    split at h
    · rename_i hphase
      exact Or.inl ⟨htodo, hphase, (Option.some.inj h).symm⟩
    · rename_i hphase
      exact Or.inr (Or.inl ⟨htodo, hphase, (Option.some.inj h).symm⟩)
    · cases h
    · cases h
  · rename_i e rest htodo
    split at h
    · split at h
      · cases h
      · exact Or.inr (Or.inr (Or.inl (Option.some.inj h).symm))
    · rename_i hjoin
      have hexited : e = .use (.release .thread) → s.live.held .thread = true →
          s.comp.thread.pc = .exited := by
        intro he hheld
        by_contra hpc
        exact hjoin ⟨he, hheld, hpc⟩
      refine Or.inr (Or.inr (Or.inr ⟨e, rest, ?_⟩))
      split at h
      · exact ⟨_, htodo, hexited, Or.inr rfl, (Option.some.inj h).symm⟩
      · exact ⟨_, htodo, hexited, Or.inl rfl, (Option.some.inj h).symm⟩

/-- The other parties do not move `eon_probe` or `eon_remove`, and no one the thread that
has returned. -/
structure SameKernel (s t : Lifetime) : Prop where
  phase : t.phase = s.phase
  todo : t.todo = s.todo
  ran : t.ran = s.ran
  live : t.live = s.live
  exited : s.comp.thread.pc = .exited → t.comp.thread.pc = .exited

theorem PhaseInv.of_same {s t : Lifetime} (h : PhaseInv k s) (hst : SameKernel s t) :
    PhaseInv k t := by
  obtain ⟨hphase, htodo, hran, hlive, hexited⟩ := hst
  refine ⟨?_, ?_, ?_, ?_, ?_, ?_⟩
  · rw [hlive, hran]
    exact h.history
  · rw [hlive, hran]
    exact fun hstarted hheld => hexited (h.joined hstarted hheld)
  · rw [hphase, hlive, htodo]
    exact h.probing
  · rw [hphase, hlive, htodo]
    exact h.bound
  · rw [hphase, hlive, htodo]
    exact h.removing
  · rw [hphase, hlive, htodo]
    exact h.gone

theorem stepComp_same {s t : Lifetime} {a : Completion.Action} (h : stepComp reqs s a = some t) :
    SameKernel s t := by
  obtain ⟨c, hc, rfl⟩ := Option.map_eq_some_iff.mp h
  exact ⟨rfl, rfl, rfl, rfl, Completion.step_exited hc⟩

theorem stepUser_same {s t : Lifetime} {a : LifeAction} (h : stepUser reqs s a = some t) :
    SameKernel s t := by
  cases a with
  | kernel => cases h
  | remove => cases h
  | irq => exact stepComp_same (Option.ite_none_right_eq_some.mp h).2
  | thread => exact stepComp_same (Option.ite_none_right_eq_some.mp h).2
  | openFile r =>
      obtain ⟨-, h⟩ := Option.ite_none_right_eq_some.mp h
      obtain rfl := Option.some.inj h
      exact ⟨rfl, rfl, rfl, rfl, id⟩
  | ioctl r =>
      obtain ⟨-, h⟩ := Option.ite_none_right_eq_some.mp h
      obtain rfl := Option.some.inj h
      exact ⟨rfl, rfl, rfl, rfl, id⟩
  | request r => exact stepComp_same (Option.ite_none_right_eq_some.mp h).2
  | fail r ret => exact stepComp_same (Option.ite_none_right_eq_some.mp h).2
  | expire r => exact stepComp_same (Option.ite_none_right_eq_some.mp h).2
  | interrupt r => exact stepComp_same (Option.ite_none_right_eq_some.mp h).2
  | raise ch o bits => exact stepComp_same h

theorem joined_apply {s : Lifetime} {e : Event} (hs : PhaseInv k s)
    (hjoin : e = .use (.release .thread) → s.live.held .thread = true →
      s.comp.thread.pc = .exited)
    (hstarted : .use (.acquire .thread) ∈ s.ran ++ [e])
    (hheld : (s.live.apply e).held .thread = false) : s.comp.thread.pc = .exited := by
  have hbefore : e ≠ .use (.acquire .thread) := by
    rintro rfl
    simp at hheld
  have hran : .use (.acquire .thread) ∈ s.ran := by
    rcases List.mem_append.mp hstarted with h | h
    · exact h
    · exact absurd (List.mem_singleton.mp h).symm hbefore
  cases hnow : s.live.held .thread with
  | false => exact hs.joined hran hnow
  | true =>
      refine hjoin ?_ hnow
      by_contra he
      have hkept := held_foldl (t := [e]) (fun hm => he (List.mem_singleton.mp hm).symm) hnow
      rw [List.foldl_cons, List.foldl_nil, hheld] at hkept
      cases hkept

theorem phaseInv_kernel {s t : Lifetime} (hs : PhaseInv k s) (h : stepKernel k s = some t) :
    PhaseInv k t := by
  rcases stepKernel_cases h with ⟨htodo, hphase, rfl⟩ | ⟨htodo, hphase, rfl⟩ | rfl |
    ⟨e, rest, c, htodo, hjoin, hc, rfl⟩
  · obtain ⟨-, hbound, hgone⟩ := hs.probing hphase
    rw [htodo] at hbound hgone
    by_cases hcode : (eonProbe k).val.1 = 0
    · simp only [hcode, if_true]
      exact ⟨hs.history, hs.joined, by simp, fun _ => ⟨htodo, hbound hcode⟩, by simp, by simp⟩
    · simp only [hcode, if_false]
      exact ⟨hs.history, hs.joined, by simp, by simp, by simp, fun _ => ⟨htodo, hgone hcode⟩⟩
  · obtain ⟨-, hgone⟩ := hs.removing hphase
    rw [htodo] at hgone
    exact ⟨hs.history, hs.joined, by simp, by simp, by simp, fun _ => ⟨htodo, hgone⟩⟩
  · exact hs.of_same ⟨rfl, rfl, rfl, rfl, id⟩
  · have hthread : c.thread = s.comp.thread := by rcases hc with rfl | rfl <;> rfl
    refine ⟨?_, ?_, ?_, ?_, ?_, ?_⟩
    · show s.live.apply e = (s.ran ++ [e]).foldl Live.apply .nothing
      rw [List.foldl_append, ← hs.history]
      rfl
    · intro hstarted hheld
      show c.thread.pc = .exited
      rw [hthread]
      exact joined_apply hs hjoin hstarted hheld
    · intro hphase
      obtain ⟨halong, hbound, hgone⟩ := hs.probing hphase
      rw [htodo] at halong hbound hgone
      exact ⟨halong.2, hbound, hgone⟩
    · intro hphase
      have hnil := (hs.bound hphase).1
      rw [htodo] at hnil
      cases hnil
    · intro hphase
      obtain ⟨halong, hgone⟩ := hs.removing hphase
      rw [htodo] at halong hgone
      exact ⟨halong.2, hgone⟩
    · intro hphase
      have hnil := (hs.gone hphase).1
      rw [htodo] at hnil
      cases hnil

theorem phaseInv_remove {s t : Lifetime} (hs : PhaseInv k s) (h : stepRemove k s = some t) :
    PhaseInv k t := by
  obtain ⟨hphase, h⟩ := Option.ite_none_right_eq_some.mp h
  obtain rfl := Option.some.inj h
  obtain ⟨-, hbound⟩ := hs.bound hphase
  exact ⟨hs.history, hs.joined, by simp, by simp,
    fun _ => ⟨eonRemove_along hbound.toServed, eonRemove_gone _ _⟩, by simp⟩

/-! ## The parties -/

/-- Outside the probe, what serves the parties that are not stopped. -/
theorem PhaseInv.served {s : Lifetime} (hs : PhaseInv k s) (h : s.phase ≠ .probing) :
    Served k s.live := by
  cases hphase : s.phase with
  | probing => exact absurd hphase h
  | bound => exact (hs.bound hphase).2.toServed
  | removing => exact (hs.removing hphase).1.head
  | gone =>
      obtain ⟨-, hgone⟩ := hs.gone hphase
      exact Stopped.served ⟨hgone.thread, hgone.irq, fun hc => by simp [hgone.cdev] at hc⟩

theorem PhaseInv.between {s : Lifetime} (hs : PhaseInv k s) {r : Resource}
    (h : Between r s.ran) : s.live.held r = true := by
  rw [hs.history]
  exact held_of_between h _

theorem irq_alive {s : Lifetime} (hs : PhaseInv k s) (hirq : s.live.held .irq = true)
    (hg : Timely reqs k s .irq) : s.live.held .fifo = true := by
  by_cases hphase : s.phase = .probing
  · exact hs.between (by simpa [Timely, hphase] using hg)
  · exact (hs.served hphase).irq (by simpa [Timely, hphase] using hg) hirq

theorem open_alive {s : Lifetime} (hs : PhaseInv k s) {r : Nat}
    (hcdev : s.live.held .cdev = true) (hg : Timely reqs k s (.openFile r)) :
    s.live.dpuDev = true := by
  by_cases hphase : s.phase = .probing
  · rw [hs.history]
    exact dpuDev_of_stored (hg hphase) _
  · exact (hs.served hphase).stored hcdev

theorem contextsBetween_alive {s : Lifetime} (hs : PhaseInv k s) {os : List Object}
    (h : ContextsBetween s os) {ch : Chan} (hch : .context ch ∈ os) :
    s.live.held (.context ch) = true :=
  hs.between (h _ hch ch rfl)

theorem thread_alive {s : Lifetime} (hs : PhaseInv k s)
    (hstarted : .use (.acquire .thread) ∈ s.ran) (hg : Timely reqs k s .thread) :
    ∀ o ∈ kthreadTouches s.comp.thread.pc, s.live.has o = true := by
  cases hthread : s.live.held .thread with
  | false => simp [hs.joined hstarted hthread, kthreadTouches]
  | true =>
      have hfifo : s.live.held .fifo = true := by
        by_cases hphase : s.phase = .probing
        · exact (hs.probing hphase).1.head hthread
        · exact (hs.served hphase).fifo hthread
      have hcontext : ∀ ch, .context ch ∈ kthreadTouches s.comp.thread.pc →
          s.live.held (.context ch) = true := by
        intro ch hch
        by_cases hphase : s.phase = .probing
        · exact contextsBetween_alive hs (hg hphase) hch
        · exact (hs.served hphase).contexts hthread ch
      intro o ho
      cases o with
      | fifo => exact hfifo
      | context ch => exact hcontext ch ho
      | dpuDev => cases hpc : s.comp.thread.pc <;> simp [kthreadTouches, hpc] at ho

theorem channel_alive {s : Lifetime} (hs : PhaseInv k s) {os : List Object}
    (hos : ∀ o ∈ os, ∃ ch, o = .context ch)
    (hg : if s.phase = .bound then k.kfifoAlloc = none else ContextsBetween s os) :
    ∀ o ∈ os, s.live.has o = true := by
  intro o ho
  obtain ⟨ch, rfl⟩ := hos o ho
  by_cases hphase : s.phase = .bound
  · rw [if_pos hphase] at hg
    exact (hs.bound hphase).2.all hg ch
  · rw [if_neg hphase] at hg
    exact contextsBetween_alive hs hg ho

theorem requestTouches_context (q : HdmaRequest) (pc : Completion.ReqPc) :
    ∀ o ∈ requestTouches q pc, ∃ ch, o = .context ch := by
  cases pc <;> simp [requestTouches]

theorem touches_alive {s t : Lifetime} {a : LifeAction} (hs : PhaseInv k s)
    (hg : Timely reqs k s a) (h : stepUser reqs s a = some t) :
    ∀ o ∈ touches reqs s a, s.live.has o = true := by
  cases a with
  | irq =>
      have hirq := (Option.ite_none_right_eq_some.mp h).1
      simp only [touches, List.mem_singleton, forall_eq]
      exact irq_alive hs hirq hg
  | thread => exact thread_alive hs (Option.ite_none_right_eq_some.mp h).1 hg
  | openFile r =>
      have hcdev := (Option.ite_none_right_eq_some.mp h).1.1
      simp only [touches, List.mem_singleton, forall_eq]
      exact open_alive hs hcdev hg
  | ioctl r => exact channel_alive hs (by simp [touches]) hg
  | request r => exact channel_alive hs (requestTouches_context _ _) hg
  | fail r ret => exact channel_alive hs (requestTouches_context _ _) hg
  | kernel => cases h
  | remove => cases h
  | expire r => simp [touches]
  | interrupt r => simp [touches]
  | raise ch o bits => simp [touches]

/-! ## Main result -/

theorem stepLife_cases {s t : Lifetime} {a : LifeAction} (h : stepLife reqs k s a = some t) :
    (a = .kernel ∧ stepKernel k s = some t) ∨ (a = .remove ∧ stepRemove k s = some t) ∨
      ∃ u, stepUser reqs s a = some u ∧
        t = { u with faulted := s.faulted || (touches reqs s a).any fun o => !s.live.has o } := by
  unfold stepLife at h
  split at h
  · exact Or.inl ⟨rfl, h⟩
  · exact Or.inr (Or.inl ⟨rfl, h⟩)
  · obtain ⟨u, hu, rfl⟩ := Option.map_eq_some_iff.mp h
    exact Or.inr (Or.inr ⟨u, hu, rfl⟩)

theorem alive_of_timely {s : Lifetime} (h : (lifetimes reqs k).ReachVia (Timely reqs k) s) :
    s.faulted = false := by
  have hboth : PhaseInv k s ∧ s.faulted = false := by
    refine StepSystem.ReachVia.invariant
      (I := fun s => PhaseInv k s ∧ s.faulted = false) ?_ ?_ h
    · intro s (hi : LifeInitial k s)
      refine ⟨⟨?_, ?_, ?_, ?_, ?_, ?_⟩, hi.faulted⟩
      · rw [hi.ran, hi.live]
        rfl
      · simp [hi.ran]
      · intro _
        rw [hi.live, hi.todo]
        exact ⟨probeProgram_along k, probeProgram_bound, probeProgram_gone⟩
      · simp [hi.phase]
      · simp [hi.phase]
      · simp [hi.phase]
    · intro s a t ⟨hs, hfault⟩ hg hst
      rcases stepLife_cases hst with ⟨-, hk⟩ | ⟨-, hr⟩ | ⟨u, hu, rfl⟩
      · refine ⟨phaseInv_kernel hs hk, ?_⟩
        rcases stepKernel_cases hk with ⟨-, -, rfl⟩ | ⟨-, -, rfl⟩ | rfl |
          ⟨e, rest, c, -, -, -, rfl⟩
        all_goals exact hfault
      · refine ⟨phaseInv_remove hs hr, ?_⟩
        obtain ⟨-, hr⟩ := Option.ite_none_right_eq_some.mp hr
        obtain rfl := Option.some.inj hr
        exact hfault
      · obtain ⟨hphase, htodo, hran, hlive, hexited⟩ := stepUser_same hu
        refine ⟨hs.of_same ⟨hphase, htodo, hran, hlive, hexited⟩, ?_⟩
        have halive := touches_alive hs hg hu
        show (s.faulted || (touches reqs s a).any fun o => !s.live.has o) = false
        rw [hfault, Bool.false_or, List.any_eq_false]
        intro o ho
        rw [halive o ho]
        decide
  exact hboth.2

/-- A whole life: after the probe a file, the setup of an ioctl and an interrupt, and a
removal that waits for the thread. -/
def wholeLife : List LifeAction :=
  List.replicate 42 LifeAction.kernel ++
    [LifeAction.openFile 0, .ioctl 0, .request 0, .request 0, .irq, .remove, .kernel, .kernel, .irq,
      .thread] ++
    List.replicate 40 LifeAction.kernel

theorem removed_alive :
    ∃ s, (lifetimes Completion.sample granting).ReachVia (Timely Completion.sample granting) s ∧
      s.phase = .gone ∧ s.comp.fifo = 2 ∧ s.faulted = false := by
  obtain ⟨s, hs, hphase, hfifo⟩ := StepSystem.exists_reachVia
    (S := lifetimes Completion.sample granting) (g := Timely Completion.sample granting)
    (fun s => s.phase = .gone ∧ s.comp.fifo = 2) wholeLife
    (.start (atProbe_initial Completion.probed_initial granting)) (by decide +kernel)
  exact ⟨s, hs, hphase, hfifo, alive_of_timely hs⟩

/-- An interrupt right behind `devm_request_irq` finds no fifo. -/
theorem early_interrupt_faults :
    ∃ s, (lifetimes Completion.sample granting).Reachable s ∧ s.phase = .probing ∧
      s.faulted = true := by
  obtain ⟨s, hs, hphase, hfault⟩ := StepSystem.exists_reachVia
    (S := lifetimes Completion.sample granting) (g := fun _ _ => True)
    (fun s => s.phase = .probing ∧ s.faulted = true) [.kernel, .kernel, .kernel, .irq]
    (.start (atProbe_initial Completion.probed_initial granting)) (by decide +kernel)
  exact ⟨s, hs, hphase, hfault⟩

/-! ## The completion path alone -/

theorem stepComp_step {s t : Lifetime} {a : Completion.Action} (h : stepComp reqs s a = some t) :
    Completion.step reqs s.comp a = some t.comp := by
  obtain ⟨c, hc, rfl⟩ := Option.map_eq_some_iff.mp h
  exact hc

theorem stepUser_comp {s t : Lifetime} {a : LifeAction} (h : stepUser reqs s a = some t) :
    t.comp = s.comp ∨ ∃ b, Completion.step reqs s.comp b = some t.comp ∧
      (b = .thread ↔ a = .thread) := by
  cases a with
  | kernel => cases h
  | remove => cases h
  | openFile r =>
      obtain ⟨-, h⟩ := Option.ite_none_right_eq_some.mp h
      exact Or.inl (Option.some.inj h ▸ rfl)
  | ioctl r =>
      obtain ⟨-, h⟩ := Option.ite_none_right_eq_some.mp h
      exact Or.inl (Option.some.inj h ▸ rfl)
  | raise ch o bits => exact Or.inr ⟨_, stepComp_step h, by simp⟩
  | irq => exact Or.inr ⟨_, stepComp_step (Option.ite_none_right_eq_some.mp h).2, by simp⟩
  | thread => exact Or.inr ⟨_, stepComp_step (Option.ite_none_right_eq_some.mp h).2, by simp⟩
  | request r => exact Or.inr ⟨_, stepComp_step (Option.ite_none_right_eq_some.mp h).2, by simp⟩
  | fail r ret => exact Or.inr ⟨_, stepComp_step (Option.ite_none_right_eq_some.mp h).2, by simp⟩
  | expire r => exact Or.inr ⟨_, stepComp_step (Option.ite_none_right_eq_some.mp h).2, by simp⟩
  | interrupt r => exact Or.inr ⟨_, stepComp_step (Option.ite_none_right_eq_some.mp h).2, by simp⟩

/-- The completion path of a device that is probed and removed is a run of the completion
path alone. -/
theorem comp_reachable {s : Lifetime} (h : (lifetimes reqs k).Reachable s) :
    (Completion.system reqs).Reachable s.comp := by
  refine StepSystem.ReachVia.map (T := Completion.system reqs) Lifetime.comp
    (fun s (hi : LifeInitial k s) => hi.comp) ?_ h
  intro s a t _ hst
  rcases stepLife_cases hst with ⟨-, hk⟩ | ⟨-, hr⟩ | ⟨u, hu, rfl⟩
  · rcases stepKernel_cases hk with ⟨-, -, rfl⟩ | ⟨-, -, rfl⟩ | rfl | ⟨e, rest, c, -, -, hc, rfl⟩
    · exact Or.inl rfl
    · exact Or.inl rfl
    · exact Or.inr ⟨.removeStop, trivial, rfl⟩
    · rcases hc with rfl | rfl
      · exact Or.inl rfl
      · exact Or.inr ⟨.removeFlag, trivial, rfl⟩
  · obtain ⟨-, hr⟩ := Option.ite_none_right_eq_some.mp hr
    exact Or.inl (Option.some.inj hr ▸ rfl)
  · rcases stepUser_comp hu with hsame | ⟨b, hb, -⟩
    · exact Or.inl hsame
    · exact Or.inr ⟨b, trivial, hb⟩

end EonDrv.Lifecycle

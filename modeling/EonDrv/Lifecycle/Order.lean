import EonDrv.Lifecycle.Lifetimes
import EonDrv.Lifecycle.Paths
import EonDrv.Support.Along

/-!
# The order of the statements

What holds before each statement of `eon_probe` and `eon_remove`, and what they leave.
-/

namespace EonDrv.Lifecycle

namespace Live

@[simp] theorem apply_acquire (l : Live) (r : Resource) :
    l.apply (.use (.acquire r)) = { l with held := Function.update l.held r true } := rfl

@[simp] theorem apply_release (l : Live) (r : Resource) :
    l.apply (.use (.release r)) = { l with held := Function.update l.held r false } := rfl

@[simp] theorem apply_storeDpuDev (l : Live) :
    l.apply .storeDpuDev = { l with dpuDev := true } := rfl

@[simp] theorem apply_dpuId (l : Live) : l.apply .dpuId = l := rfl

@[simp] theorem apply_number (l : Live) : l.apply .number = l := rfl

@[simp] theorem apply_shouldStop (l : Live) : l.apply .shouldStop = l := rfl

end Live

/-! ## What has run -/

theorem held_foldl {r : Resource} {t : List Event} (h : .use (.release r) ∉ t) {l : Live}
    (hl : l.held r = true) : (t.foldl Live.apply l).held r = true := by
  induction t generalizing l with
  | nil => exact hl
  | cons e rest ih =>
      rw [List.mem_cons, not_or] at h
      refine ih h.2 ?_
      cases e with
      | use u =>
          cases u with
          | acquire q => by_cases hq : r = q <;> simp [hq, hl]
          | release q =>
              have hq : r ≠ q := by
                rintro rfl
                exact h.1 rfl
              simp [hq, hl]
      | dpuId => exact hl
      | number => exact hl
      | storeDpuDev => exact hl
      | shouldStop => exact hl

theorem held_of_between {r : Resource} {t : List Event} (h : Between r t) (l : Live) :
    (t.foldl Live.apply l).held r = true := by
  obtain ⟨hacq, hrel⟩ := h
  obtain ⟨s, u, rfl⟩ := List.append_of_mem hacq
  rw [List.foldl_append, List.foldl_cons]
  refine held_foldl (fun hu => hrel ?_) (by simp)
  exact List.mem_append_right _ (List.mem_cons_of_mem _ hu)

theorem acquire_of_held {r : Resource} {t : List Event} {l : Live}
    (h : (t.foldl Live.apply l).held r = true) : l.held r = true ∨ .use (.acquire r) ∈ t := by
  induction t generalizing l with
  | nil => exact Or.inl h
  | cons e rest ih =>
      rcases ih h with h | h
      · cases e with
        | use u =>
            cases u with
            | acquire q =>
                by_cases hq : r = q
                · exact Or.inr (hq ▸ List.mem_cons_self)
                · exact Or.inl (by simpa [hq] using h)
            | release q =>
                by_cases hq : r = q
                · simp [hq] at h
                · exact Or.inl (by simpa [hq] using h)
        | dpuId => exact Or.inl h
        | number => exact Or.inl h
        | storeDpuDev => exact Or.inl h
        | shouldStop => exact Or.inl h
      · exact Or.inr (List.mem_cons_of_mem _ h)

theorem dpuDev_foldl (t : List Event) {l : Live} (h : l.dpuDev = true) :
    (t.foldl Live.apply l).dpuDev = true := by
  induction t generalizing l with
  | nil => exact h
  | cons e rest ih =>
      refine ih ?_
      cases e with
      | use u => cases u <;> exact h
      | storeDpuDev => rfl
      | dpuId => exact h
      | number => exact h
      | shouldStop => exact h

theorem dpuDev_of_stored {t : List Event} (h : .storeDpuDev ∈ t) (l : Live) :
    (t.foldl Live.apply l).dpuDev = true := by
  obtain ⟨s, u, rfl⟩ := List.append_of_mem h
  rw [List.foldl_append, List.foldl_cons]
  exact dpuDev_foldl u rfl

/-! ## Channels -/

theorem foldl_initEvents (chs : List Chan) (l : Live) :
    (initEvents chs).foldl Live.apply l =
      { l with held := fun r => l.held r || decide (r ∈ chs.map .context) } := by
  induction chs generalizing l with
  | nil => simp [initEvents]
  | cons ch rest ih =>
      rw [initEvents, List.map_cons, List.foldl_cons, ← initEvents, ih, Live.mk.injEq]
      refine ⟨funext fun r => ?_, rfl⟩
      by_cases hr : r = .context ch <;> simp [hr]

theorem foldl_exitEvents (chs : List Chan) (l : Live) :
    (exitEvents chs).foldl Live.apply l =
      { l with held := fun r => l.held r && !decide (r ∈ chs.map .context) } := by
  induction chs generalizing l with
  | nil => simp [exitEvents]
  | cons ch rest ih =>
      rw [exitEvents, List.map_cons, List.foldl_cons, ← exitEvents, ih, Live.mk.injEq]
      refine ⟨funext fun r => ?_, rfl⟩
      by_cases hr : r = .context ch <;> simp [hr]

/-! ## The probe -/

def FifoFirst (l : Live) : Prop := l.held .thread = true → l.held .fifo = true

theorem along_contexts {t : List Event} (ht : ∀ e ∈ t, ∃ ch,
      e = .use (.acquire (.context ch)) ∨ e = .use (.release (.context ch))) {l : Live}
    (h : FifoFirst l) : Along Live.apply FifoFirst l t := by
  refine Along.of_preserved ?_ h
  intro s e he hs
  obtain ⟨ch, rfl | rfl⟩ := ht e he
  · simpa [FifoFirst] using hs
  · simpa [FifoFirst] using hs

theorem along_initEvents (chs : List Chan) {l : Live} (h : FifoFirst l) :
    Along Live.apply FifoFirst l (initEvents chs) :=
  along_contexts (by simp [initEvents]) h

theorem along_exitEvents (chs : List Chan) {l : Live} (h : FifoFirst l) :
    Along Live.apply FifoFirst l (exitEvents chs) :=
  along_contexts (by simp [exitEvents]) h

/-- The ladder stops the thread before it frees the fifo. -/
theorem along_exitLabel {hdma : Contexts} {l : Live} (h : FifoFirst l) :
    Along Live.apply FifoFirst l (exitLabel hdma).trace := by
  rw [trace_exitLabel, Along.append_iff, Along.append_iff]
  have hwr := along_exitEvents (setContexts hdma .wr) h
  have hrd := along_exitEvents (setContexts hdma .rd) hwr.last
  refine ⟨hwr, hrd, hrd.last, ?_⟩
  simp [FifoFirst]

theorem ContextsPath.along {c : Traced Event (Int × Contexts)} (h : ContextsPath c) {l : Live}
    (hl : FifoFirst l) : Along Live.apply FifoFirst l c.trace := by
  cases h with
  | @failed code chs hdma _ _ =>
      rw [Along.append_iff]
      have hinit := along_initEvents chs hl
      exact ⟨hinit, along_exitLabel hinit.last⟩
  | done _ _ => exact along_initEvents _ hl

variable {k : Answers}

theorem CharDevPath.along {c : Traced Event Int} (h : CharDevPath k c) {l : Live}
    (hl : l.held .thread = false) :
    Along Live.apply FifoFirst l c.trace ∧
      (c.trace.foldl Live.apply l).held .thread = false := by
  cases h <;> simp [FifoFirst, hl]

theorem IrqPath.along {c : Traced Event Int} (h : IrqPath k c) {l : Live}
    (hl : l.held .thread = false) :
    Along Live.apply FifoFirst l c.trace ∧
      (c.trace.foldl Live.apply l).held .thread = false := by
  by_cases hvec : k.pciAllocIrqVectors = none
  · cases h <;> simp [FifoFirst, hl, vectorEvents, hvec]
  · cases h <;> simp [FifoFirst, hl, vectorEvents, hvec]

theorem RestPath.along {c : Traced Event (Int × Contexts)} (h : RestPath k c) {l : Live}
    (hl : l.held .thread = false) : Along Live.apply FifoFirst l c.trace := by
  cases h with
  | charDev hchar _ =>
      obtain ⟨halong, hthread⟩ := hchar.along hl
      exact Along.append_iff.mpr ⟨halong, by simp [trace_errCharDev, FifoFirst, hthread]⟩
  | kfifo hchar _ =>
      obtain ⟨halong, hthread⟩ := hchar.along hl
      exact Along.append_iff.mpr ⟨halong, by simp [trace_errKfifo, FifoFirst, hthread]⟩
  | kthread hchar _ =>
      obtain ⟨halong, hthread⟩ := hchar.along hl
      exact Along.append_iff.mpr ⟨halong, by simp [trace_errKthreadRun, FifoFirst, hthread]⟩
  | contexts hchar _ hctx =>
      obtain ⟨halong, hthread⟩ := hchar.along hl
      refine Along.append_iff.mpr ⟨halong, ?_, ?_⟩
      · simp [FifoFirst, hthread]
      · by_cases hrun : k.kthreadRun = none
        · rw [if_pos hrun]
          refine ⟨?_, hctx.along ?_⟩ <;> simp [FifoFirst, hthread]
        · rw [if_neg hrun]
          exact hctx.along (by simp [FifoFirst])

theorem ProbePath.along {c : Traced Event (Int × Contexts)} (h : ProbePath k c) :
    Along Live.apply FifoFirst .nothing c.trace := by
  have hnothing : FifoFirst .nothing := by simp [FifoFirst, Live.nothing]
  cases h with
  | early _ _ => exact hnothing
  | masks _ _ _ _ => exact along_exitLabel hnothing
  | irq _ hirq _ => exact ⟨hnothing, (hirq.along rfl).1⟩
  | rest _ hirq hrest =>
      obtain ⟨halong, hthread⟩ := hirq.along (l := .nothing) rfl
      exact ⟨hnothing, Along.append_iff.mpr ⟨halong, hrest.along hthread⟩⟩

theorem probeProgram_along (k : Answers) :
    Along Live.apply FifoFirst .nothing (probeProgram k) := by
  have halong := (eonProbe_path k).along
  refine Along.append_iff.mpr ⟨halong, ?_⟩
  have hlast := halong.last
  generalize (eonProbe k).trace.foldl Live.apply .nothing = l at *
  by_cases hcode : (eonProbe k).val.1 = 0
  · simpa [hcode] using hlast
  · simp only [hcode, if_false, devres]
    split
    · refine ⟨hlast, ?_⟩
      simpa [FifoFirst] using hlast
    · exact hlast

/-! ## What a probe leaves -/

structure Served (k : Answers) (l : Live) : Prop where
  fifo : FifoFirst l
  contexts : l.held .thread = true → ∀ ch, l.held (.context ch) = true
  irq : k.kfifoAlloc = none → l.held .irq = true → l.held .fifo = true
  stored : l.held .cdev = true → l.dpuDev = true

structure Bound (k : Answers) (l : Live) : Prop extends Served k l where
  all : k.kfifoAlloc = none → ∀ ch, l.held (.context ch) = true

structure Gone (l : Live) : Prop where
  thread : l.held .thread = false
  irq : l.held .irq = false
  cdev : l.held .cdev = false

theorem CharDevPath.stored {t : List Event} (h : CharDevPath k ⟨0, t⟩) (l : Live) :
    (t.foldl Live.apply l).held .cdev = true → (t.foldl Live.apply l).dpuDev = true := by
  cases h with
  | nothing hcode => exact absurd rfl hcode
  | added hcode => exact absurd rfl hcode
  | deleted => simp
  | created => simp
  | unnoticed => simp

theorem RestPath.bound {c : Traced Event (Int × Contexts)} (h : RestPath k c)
    (hc : c.val.1 = 0) {l : Live} (hl : l.held .thread = false) :
    Bound k (c.trace.foldl Live.apply l) := by
  cases h with
  | charDev _ hcode => exact absurd hc hcode
  | kfifo hchar hfifo =>
      have hthread := (hchar.along hl).2
      have hend : ∀ m : Live, m.held .thread = false →
          Bound k (errKfifo.trace.foldl Live.apply m) := by
        intro m hm
        refine ⟨⟨?_, ?_, fun h => absurd h hfifo, ?_⟩, fun h => absurd h hfifo⟩
        · simp [trace_errKfifo, FifoFirst, hm]
        · simp [trace_errKfifo, hm]
        · simp [trace_errKfifo]
      rw [List.foldl_append]
      exact hend _ hthread
  | kthread _ _ => simp [enomem] at hc
  | @contexts t c hchar hfifo hctx =>
      have hthread := (hchar.along hl).2
      have hstored := hchar.stored l
      cases hctx with
      | failed hcode _ => exact absurd hc hcode
      | @done chs hdma hall _ =>
          rw [List.foldl_append, List.foldl_cons, List.foldl_append, foldl_initEvents]
          generalize t.foldl Live.apply l = m at *
          by_cases hrun : k.kthreadRun = none
          · refine ⟨⟨?_, ?_, ?_, ?_⟩, ?_⟩
            · simp [FifoFirst, hrun]
            · simp [hrun, hall]
            · simp [hrun]
            · simpa [hrun] using hstored
            · simp [hrun, hall]
          · refine ⟨⟨?_, ?_, ?_, ?_⟩, ?_⟩
            · simp [FifoFirst, hrun]
            · simp [hrun, hall]
            · simp [hrun]
            · simpa [hrun] using hstored
            · simp [hrun, hall]

/-- The ladder has stopped the thread and deleted the device at its end. -/
theorem exitLabel_gone (hdma : Contexts) (l : Live) :
    ((exitLabel hdma).trace.foldl Live.apply l).held .thread = false ∧
      ((exitLabel hdma).trace.foldl Live.apply l).held .cdev = false := by
  simp [trace_exitLabel, foldl_exitEvents]

theorem RestPath.gone {c : Traced Event (Int × Contexts)} (h : RestPath k c)
    (hc : c.val.1 ≠ 0) {l : Live} (hl : l.held .thread = false) (hcdev : l.held .cdev = false) :
    (c.trace.foldl Live.apply l).held .thread = false ∧
      (c.trace.foldl Live.apply l).held .cdev = false := by
  cases h with
  | charDev hchar hcode =>
      cases hchar with
      | nothing _ => simp [trace_errCharDev, hl, hcdev]
      | added _ => simp [trace_errCharDev, hl, hcdev]
      | deleted => exact absurd rfl hcode
      | created => exact absurd rfl hcode
      | unnoticed => exact absurd rfl hcode
  | kfifo _ _ => exact absurd rfl hc
  | kthread hchar _ =>
      have hthread := (hchar.along hl).2
      simp [trace_errKthreadRun, hthread]
  | contexts _ _ hctx =>
      cases hctx with
      | done _ _ => exact absurd rfl hc
      | @failed code chs hdma hcode _ =>
          rw [List.foldl_append, List.foldl_cons, List.foldl_append, List.foldl_append]
          exact exitLabel_gone hdma _

theorem IrqPath.cdev {c : Traced Event Int} (h : IrqPath k c) {l : Live}
    (hl : l.held .cdev = false) : (c.trace.foldl Live.apply l).held .cdev = false := by
  by_cases hvec : k.pciAllocIrqVectors = none
  · cases h <;> simp [hl, vectorEvents, hvec]
  · cases h <;> simp [hl, vectorEvents, hvec]

theorem ProbePath.bound {c : Traced Event (Int × Contexts)} (h : ProbePath k c)
    (hc : c.val.1 = 0) : Bound k (c.trace.foldl Live.apply .nothing) := by
  cases h with
  | early hcode _ => exact absurd hc hcode
  | masks hcode _ _ _ => exact absurd hc hcode
  | irq _ _ hcode => exact absurd hc hcode
  | rest _ hirq hrest =>
      have hthread := (hirq.along (l := .nothing) rfl).2
      rw [List.foldl_cons, List.foldl_append]
      exact hrest.bound hc hthread

theorem ProbePath.gone {c : Traced Event (Int × Contexts)} (h : ProbePath k c)
    (hc : c.val.1 ≠ 0) :
    (c.trace.foldl Live.apply .nothing).held .thread = false ∧
      (c.trace.foldl Live.apply .nothing).held .cdev = false := by
  cases h with
  | early _ _ => exact ⟨rfl, rfl⟩
  | masks _ _ _ _ => exact exitLabel_gone _ _
  | irq _ hirq _ =>
      have hthread := (hirq.along (l := .nothing) rfl).2
      have hcdev := hirq.cdev (l := .nothing) rfl
      exact ⟨hthread, hcdev⟩
  | rest _ hirq hrest =>
      have hthread := (hirq.along (l := .nothing) rfl).2
      have hcdev := hirq.cdev (l := .nothing) rfl
      rw [List.foldl_cons, List.foldl_append]
      exact hrest.gone hc hthread hcdev

theorem probeProgram_gone (hc : (eonProbe k).val.1 ≠ 0) :
    Gone ((probeProgram k).foldl Live.apply .nothing) := by
  obtain ⟨hthread, hcdev⟩ := (eonProbe_path k).gone hc
  have hkept := (eonProbe_path k).release_irq
  rw [probeProgram, if_neg hc, List.foldl_append]
  by_cases htaken : Ledger.Use.acquire Resource.irq ∈ uses (eonProbe k).trace
  · rw [devres, if_pos ⟨htaken, hkept⟩]
    exact ⟨by simpa using hthread, by simp, by simpa using hcdev⟩
  · rw [devres, if_neg fun h => htaken h.1]
    refine ⟨hthread, ?_, hcdev⟩
    rw [Bool.eq_false_iff]
    intro hirq
    rcases acquire_of_held (t := (eonProbe k).trace) (l := .nothing) hirq with h | h
    · cases h
    · exact htaken (mem_uses.mpr h)

theorem probeProgram_bound (hc : (eonProbe k).val.1 = 0) :
    Bound k ((probeProgram k).foldl Live.apply .nothing) := by
  rw [probeProgram, if_pos hc, List.append_nil]
  exact (eonProbe_path k).bound hc

/-! ## The removal -/

/-- Behind `kthread_stop` and `eon_irq_fini`. -/
structure Stopped (l : Live) : Prop where
  thread : l.held .thread = false
  irq : l.held .irq = false
  stored : l.held .cdev = true → l.dpuDev = true

theorem Stopped.served {l : Live} (h : Stopped l) : Served k l where
  fifo ht := by simp [h.thread] at ht
  contexts ht := by simp [h.thread] at ht
  irq _ hi := by simp [h.irq] at hi
  stored := h.stored

theorem Stopped.release {l : Live} (h : Stopped l) (r : Resource) :
    Stopped (l.apply (.use (.release r))) where
  thread := by by_cases hr : Resource.thread = r <;> simp [hr, h.thread]
  irq := by by_cases hr : Resource.irq = r <;> simp [hr, h.irq]
  stored hc := by
    by_cases hr : Resource.cdev = r
    · simp [hr] at hc
    · exact h.stored (by simpa [hr] using hc)

theorem along_releases {t : List Event} (ht : ∀ e ∈ t, ∃ r, e = .use (.release r)) {l : Live}
    (h : Stopped l) : Along Live.apply (Served k) l t := by
  have halong : Along Live.apply Stopped l t := by
    refine Along.of_preserved ?_ h
    intro s e he hs
    obtain ⟨r, rfl⟩ := ht e he
    exact hs.release r
  exact halong.mono fun _ hs => hs.served

/-- The thread and the IRQ are stopped before anything that they touch is freed. -/
theorem eonRemove_along {hdma : Contexts} {l : Live} (h : Served k l) :
    Along Live.apply (Served k) l (eonRemove hdma).trace := by
  rw [trace_eonRemove]
  have hjoined : Served k (l.apply (.use (.release .thread))) := by
    refine ⟨?_, ?_, ?_, ?_⟩
    · simp [FifoFirst]
    · simp
    · simpa using h.irq
    · simpa using h.stored
  have hstopped : Stopped ((l.apply (.use (.release .thread))).apply (.use (.release .irq))) := by
    refine ⟨by simp, by simp, ?_⟩
    simpa using h.stored
  refine ⟨h, h, hjoined, hstopped.served, along_releases ?_ (hstopped.release .vectors)⟩
  intro e he
  simp only [exitEvents, List.mem_append, List.mem_map, List.mem_cons, List.not_mem_nil,
    or_false] at he
  rcases he with ⟨ch, -, rfl⟩ | ⟨ch, -, rfl⟩ | rfl | rfl | rfl | rfl
  all_goals exact ⟨_, rfl⟩

theorem eonRemove_gone (hdma : Contexts) (l : Live) :
    Gone ((eonRemove hdma).trace.foldl Live.apply l) := by
  constructor <;> simp [trace_eonRemove, foldl_exitEvents]

end EonDrv.Lifecycle

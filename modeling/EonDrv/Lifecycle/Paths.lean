import EonDrv.Lifecycle.Probe

/-!
# The paths of a probe

What `eon_probe` returns and does on each way through its labels, as one case analysis
for each of its parts.
-/

namespace EonDrv.Lifecycle

open Ledger (Use)

theorem ret_eq_zero {o : Option Errno} : ret o = 0 ↔ o = none := by
  cases o with
  | none => simp [ret]
  | some e =>
      have he := e.property
      simp only [ret, reduceCtorEq, iff_false]
      omega

theorem ret_ne_zero {o : Option Errno} : ret o ≠ 0 ↔ o ≠ none := not_congr ret_eq_zero

/-! ## Channels -/

def initEvents (chs : List Chan) : List Event := chs.map fun ch => .use (.acquire (.context ch))

def exitEvents (chs : List Chan) : List Event := chs.map fun ch => .use (.release (.context ch))

theorem initEvents_eq (chs : List Chan) :
    initEvents chs = (chs.map fun ch => Use.acquire (.context ch)).map .use := by
  rw [initEvents, List.map_map]
  rfl

theorem exitEvents_eq (chs : List Chan) :
    exitEvents chs = (chs.map fun ch => Use.release (Resource.context ch)).map .use := by
  rw [exitEvents, List.map_map]
  rfl

theorem trace_exitContexts (hdma : Contexts) (rw : RwType) :
    (exitContexts hdma rw).trace = exitEvents (setContexts hdma rw) := by
  rw [exitContexts, Traced.trace_emitAll, exitEvents]

theorem trace_errCharDev : errCharDev.trace = [.use (.release .vectors)] := rfl

theorem trace_errKfifo :
    errKfifo.trace =
      [.use (.release .node), .use (.release .cdev), .use (.release .vectors)] := rfl

theorem trace_errKthreadRun :
    errKthreadRun.trace =
      [.use (.release .fifo), .use (.release .node), .use (.release .cdev),
        .use (.release .vectors)] := rfl

theorem trace_exitLabel (hdma : Contexts) :
    (exitLabel hdma).trace =
      exitEvents (setContexts hdma .wr) ++ (exitEvents (setContexts hdma .rd) ++
        [Event.use (.release .thread), .use (.release .fifo), .use (.release .node),
          .use (.release .cdev), .use (.release .vectors)]) := by
  rw [← trace_exitContexts, ← trace_exitContexts]
  rfl

theorem trace_eonRemove (hdma : Contexts) :
    (eonRemove hdma).trace =
      .shouldStop :: .use (.release .thread) :: .use (.release .irq) ::
        .use (.release .vectors) ::
          (exitEvents (setContexts hdma .wr) ++ (exitEvents (setContexts hdma .rd) ++
            [Event.use (.release .fifo), .use (.release .node), .use (.release .cdev),
              .use (.release .vectors)])) := by
  rw [← trace_exitContexts, ← trace_exitContexts]
  rfl

variable {k : Answers}

theorem initContexts_cons {rw : RwType} {i : Fin maxHdmaNumber}
    (h : k.kzallocHdma ⟨rw, i⟩ = false) (rest : List (Fin maxHdmaNumber)) (hdma : Contexts) :
    initContexts k rw (i :: rest) hdma =
      ⟨(initContexts k rw rest (Function.update hdma ⟨rw, i⟩ true)).val,
        .use (.acquire (.context ⟨rw, i⟩)) ::
          (initContexts k rw rest (Function.update hdma ⟨rw, i⟩ true)).trace⟩ := by
  simp only [initContexts, hdmaInit, h, Bool.false_eq_true, if_false]
  rfl

/-- The loop over one direction sets the channels it takes, and all of them when it ends. -/
theorem initContexts_path (k : Answers) (rw : RwType) (is : List (Fin maxHdmaNumber))
    (hdma : Contexts) :
    ∃ chs, (initContexts k rw is hdma).trace = initEvents chs ∧
      (∀ ch, (initContexts k rw is hdma).val.2 ch = true ↔ hdma ch = true ∨ ch ∈ chs) ∧
      ((initContexts k rw is hdma).val.1 = 0 → chs = is.map (Chan.mk rw)) := by
  induction is generalizing hdma with
  | nil => exact ⟨[], rfl, by simp [initContexts], fun _ => rfl⟩
  | cons i rest ih =>
      by_cases hnull : k.kzallocHdma ⟨rw, i⟩ = true
      · refine ⟨[], ?_, ?_, ?_⟩
        · simp [initContexts, hdmaInit, hnull, eperm, initEvents]
        · simp [initContexts, hdmaInit, hnull, eperm]
        · simp [initContexts, hdmaInit, hnull, eperm]
      · rw [initContexts_cons (Bool.eq_false_iff.mpr hnull)]
        obtain ⟨chs, htrace, hset, hall⟩ := ih (Function.update hdma ⟨rw, i⟩ true)
        refine ⟨⟨rw, i⟩ :: chs, ?_, ?_, ?_⟩
        · rw [htrace]
          rfl
        · intro ch
          rw [hset, Function.update_apply]
          by_cases hch : ch = ⟨rw, i⟩ <;> simp [hch]
        · intro hret
          rw [hall hret, List.map_cons]

inductive ContextsPath : Traced Event (Int × Contexts) → Prop
  | failed {code : Int} {chs : List Chan} {hdma : Contexts} :
      code ≠ 0 → (∀ ch, hdma ch = true ↔ ch ∈ chs) →
      ContextsPath ⟨(code, hdma), initEvents chs ++ (exitLabel hdma).trace⟩
  | done {chs : List Chan} {hdma : Contexts} :
      (∀ ch, ch ∈ chs) → (∀ ch, hdma ch = true) →
      ContextsPath ⟨(0, hdma), initEvents chs⟩

theorem probeContexts_path (k : Answers) : ContextsPath (probeContexts k) := by
  obtain ⟨rs, hrtrace, hrset, hrall⟩ :=
    initContexts_path k .rd (List.finRange maxHdmaNumber) fun _ => false
  unfold probeContexts
  generalize initContexts k .rd (List.finRange maxHdmaNumber) (fun _ => false) = r at *
  obtain ⟨⟨rcode, rhdma⟩, rtrace⟩ := r
  subst hrtrace
  by_cases hr : rcode = 0
  · subst hr
    obtain ⟨ws, hwtrace, hwset, hwall⟩ :=
      initContexts_path k .wr (List.finRange maxHdmaNumber) rhdma
    simp only [bind, ne_eq, not_true_eq_false, if_false]
    generalize initContexts k .wr (List.finRange maxHdmaNumber) rhdma = w at *
    obtain ⟨⟨wcode, whdma⟩, wtrace⟩ := w
    subst hwtrace
    have hset : ∀ ch, whdma ch = true ↔ ch ∈ rs ++ ws := by
      intro ch
      rw [hwset, hrset, List.mem_append]
      simp
    by_cases hw : wcode = 0
    · subst hw
      have hall : ∀ ch, ch ∈ rs ++ ws := by
        rintro ⟨rw, i⟩
        cases rw <;> simp [hrall rfl, hwall rfl]
      have hpath := ContextsPath.done hall fun ch => (hset ch).mpr (hall ch)
      simpa [initEvents] using hpath
    · have hpath := ContextsPath.failed hw hset
      simpa [hw, initEvents] using hpath
  · have hset : ∀ ch, rhdma ch = true ↔ ch ∈ rs := by
      intro ch
      rw [hrset]
      simp
    have hpath := ContextsPath.failed hr hset
    simpa [bind, hr] using hpath

/-! ## Interrupts and the character device -/

def vectorEvents (k : Answers) : List Event :=
  if k.pciAllocIrqVectors = none then [.use (.acquire .vectors)] else []

inductive IrqPath (k : Answers) : Traced Event Int → Prop
  | count {code : Int} : code ≠ 0 → irqs k = 0#8 → IrqPath k ⟨code, vectorEvents k⟩
  | request {code : Int} : code ≠ 0 → irqs k ≠ 0#8 → k.devmRequestIrq ≠ none →
      IrqPath k ⟨code, vectorEvents k ++ [.use (.release .vectors)]⟩
  | done : irqs k ≠ 0#8 → k.devmRequestIrq = none →
      IrqPath k ⟨0, vectorEvents k ++ [.use (.acquire .irq)]⟩

theorem eonIrqInit_path (k : Answers) : IrqPath k (eonIrqInit k) := by
  have hvec : ∀ (c : Traced Event Int),
      (do if k.pciAllocIrqVectors = none then acquire .vectors
          c) = (⟨c.val, vectorEvents k ++ c.trace⟩ : Traced Event Int) := by
    intro c
    by_cases hvec : k.pciAllocIrqVectors = none
    · rw [if_pos hvec, vectorEvents, if_pos hvec]
      rfl
    · rw [if_neg hvec, vectorEvents, if_neg hvec]
      rfl
  unfold eonIrqInit
  rw [hvec]
  by_cases hirqs : irqs k = 0#8
  · have hpath : IrqPath k ⟨-eperm, vectorEvents k⟩ := .count (by decide) hirqs
    simpa [hirqs] using hpath
  · have hlt : ¬ irqs k < 1#8 := by
      rw [BitVec.lt_def]
      intro hlt
      exact hirqs (BitVec.eq_of_toNat_eq (Nat.lt_one_iff.mp hlt))
    rw [if_neg hlt]
    by_cases hrequest : k.devmRequestIrq = none
    · rw [hrequest]
      exact .done hirqs hrequest
    · rw [if_pos (ret_ne_zero.mpr hrequest)]
      exact .request (ret_ne_zero.mpr hrequest) hirqs hrequest

inductive CharDevPath (k : Answers) : Traced Event Int → Prop
  | nothing {code : Int} : code ≠ 0 → CharDevPath k ⟨code, []⟩
  | added {code : Int} : code ≠ 0 → CharDevPath k ⟨code, [.number]⟩
  | deleted : CharDevPath k ⟨0, [.number, .use (.acquire .cdev), .use (.release .cdev)]⟩
  | created : CharDevPath k
      ⟨0, [.number, .use (.acquire .cdev), .use (.acquire .node), .storeDpuDev]⟩
  | unnoticed : CharDevPath k ⟨0, [.number, .use (.acquire .cdev), .storeDpuDev]⟩

theorem charDevInit_path (k : Answers) : CharDevPath k (charDevInit k) := by
  unfold charDevInit
  by_cases hctx : k.kzallocCtx = true
  · rw [if_pos hctx]
    exact .nothing (by decide)
  · rw [if_neg hctx]
    rcases hadd : k.cdevAdd with _ | e
    · cases hcreate : k.deviceCreate with
      | null => exact .deleted
      | valid => exact .created
      | error e => exact .unnoticed
    · have hlt : ret (some e) < 0 := e.property.2
      simp only [hlt, if_true]
      exact .added (Int.ne_of_lt hlt)

/-! ## The probe -/

inductive RestPath (k : Answers) : Traced Event (Int × Contexts) → Prop
  | charDev {code : Int} {t : List Event} : CharDevPath k ⟨code, t⟩ → code ≠ 0 →
      RestPath k ⟨(code, fun _ => false), t ++ errCharDev.trace⟩
  | kfifo {t : List Event} : CharDevPath k ⟨0, t⟩ → k.kfifoAlloc ≠ none →
      RestPath k ⟨(0, fun _ => false), t ++ errKfifo.trace⟩
  | kthread {t : List Event} : CharDevPath k ⟨0, t⟩ → k.kfifoAlloc = none →
      RestPath k ⟨(-enomem, fun _ => false), t ++ .use (.acquire .fifo) :: errKthreadRun.trace⟩
  | contexts {t : List Event} {c : Traced Event (Int × Contexts)} : CharDevPath k ⟨0, t⟩ →
      k.kfifoAlloc = none → ContextsPath c →
      RestPath k ⟨c.val, t ++ .use (.acquire .fifo) ::
        ((if k.kthreadRun = none then [.use (.acquire .thread)] else []) ++ c.trace)⟩

theorem probeRest_path (k : Answers) : RestPath k (probeRest k) := by
  have hchar := charDevInit_path k
  unfold probeRest
  generalize charDevInit k = c at *
  obtain ⟨code, t⟩ := c
  by_cases hcode : code = 0
  · subst hcode
    by_cases hfifo : k.kfifoAlloc = none
    · simp only [bind, ne_eq, not_true_eq_false, if_false, ret_eq_zero.mpr hfifo]
      by_cases hrun : ret k.kthreadRun = -enomem
      · simp only [hrun, if_true]
        exact .kthread hchar hfifo
      · have hpath := RestPath.contexts hchar hfifo (probeContexts_path k)
        simp only [hrun, if_false]
        by_cases hthread : k.kthreadRun = none
        · simp only [hthread, if_true] at hpath ⊢
          exact hpath
        · simp only [hthread, if_false] at hpath ⊢
          exact hpath
    · simp only [bind, ne_eq, not_true_eq_false, if_false, ret_ne_zero.mpr hfifo, if_true,
        not_false_eq_true]
      exact .kfifo hchar hfifo
  · simp only [bind, ne_eq, hcode, not_false_eq_true, if_true]
    exact .charDev hchar hcode

/-- The probe gets as far as `get_dpu_id`. -/
structure Numbered (k : Answers) : Prop where
  enable : k.pcimEnableDevice = none
  iomap : k.pcimIomapRegions = none
  mask : setDmaMask k = 0
  alloc : k.devmKzalloc = false

inductive ProbePath (k : Answers) : Traced Event (Int × Contexts) → Prop
  | early {code : Int} : code ≠ 0 →
      (k.pcimEnableDevice ≠ none ∨ k.pcimIomapRegions ≠ none ∨
        setDmaMask k = 0 ∧ k.devmKzalloc = true) →
      ProbePath k ⟨(code, fun _ => false), []⟩
  | masks {code : Int} : code ≠ 0 → k.pcimEnableDevice = none → k.pcimIomapRegions = none →
      setDmaMask k ≠ 0 → ProbePath k ⟨(code, fun _ => false), (exitLabel k.uninit).trace⟩
  | irq {code : Int} {t : List Event} : Numbered k → IrqPath k ⟨code, t⟩ → code ≠ 0 →
      ProbePath k ⟨(code, fun _ => false), .dpuId :: t⟩
  | rest {t : List Event} {c : Traced Event (Int × Contexts)} : Numbered k →
      IrqPath k ⟨0, t⟩ → RestPath k c → ProbePath k ⟨c.val, .dpuId :: (t ++ c.trace)⟩

theorem eonProbe_path (k : Answers) : ProbePath k (eonProbe k) := by
  unfold eonProbe
  by_cases henable : k.pcimEnableDevice = none
  · by_cases hmap : k.pcimIomapRegions = none
    · by_cases hmask : setDmaMask k = 0
      · by_cases halloc : k.devmKzalloc = true
        · simp only [ret_eq_zero.mpr henable, ret_eq_zero.mpr hmap, hmask, halloc, ne_eq,
            not_true_eq_false, if_false, if_true]
          exact .early (by decide) (Or.inr (Or.inr ⟨hmask, halloc⟩))
        · have hreached : Numbered k := ⟨henable, hmap, hmask, Bool.eq_false_iff.mpr halloc⟩
          have hirq := eonIrqInit_path k
          simp only [ret_eq_zero.mpr henable, ret_eq_zero.mpr hmap, hmask, halloc, ne_eq,
            not_true_eq_false, if_false, bind]
          generalize eonIrqInit k = c at *
          obtain ⟨code, t⟩ := c
          by_cases hcode : code = 0
          · subst hcode
            exact .rest hreached hirq (probeRest_path k)
          · simp only [hcode, not_false_eq_true, if_true]
            have hpath := ProbePath.irq hreached hirq hcode
            simpa using hpath
      · simp only [ret_eq_zero.mpr henable, ret_eq_zero.mpr hmap, hmask, ne_eq,
          not_true_eq_false, not_false_eq_true, if_false, if_true, bind]
        have hpath := ProbePath.masks hmask henable hmap hmask
        simpa using hpath
    · simp only [ret_eq_zero.mpr henable, ret_ne_zero.mpr hmap, ne_eq, not_true_eq_false,
        not_false_eq_true, if_false, if_true]
      exact .early (ret_ne_zero.mpr hmap) (Or.inr (Or.inl hmap))
  · simp only [ret_ne_zero.mpr henable, ne_eq, not_false_eq_true, if_true]
    exact .early (ret_ne_zero.mpr henable) (Or.inl henable)

/-! ## Uses

Behind `eon_irq_init` no use is of the IRQ, and no probe frees the IRQ itself. -/

@[simp] theorem uses_initEvents (chs : List Chan) :
    uses (initEvents chs) = chs.map fun ch => .acquire (.context ch) := by
  rw [initEvents_eq, uses_map_use]

@[simp] theorem uses_exitEvents (chs : List Chan) :
    uses (exitEvents chs) = chs.map fun ch => .release (.context ch) := by
  rw [exitEvents_eq, uses_map_use]

theorem uses_exitLabel (hdma : Contexts) :
    uses (exitLabel hdma).trace =
      ((setContexts hdma .wr).map fun ch => Use.release (Resource.context ch)) ++
        ((setContexts hdma .rd).map fun ch => Use.release (Resource.context ch)) ++
        [Use.release Resource.thread, .release .fifo, .release .node, .release .cdev,
          .release .vectors] := by
  simp [trace_exitLabel]

def NotIrq (u : Use Resource) : Prop := u ≠ .acquire .irq ∧ u ≠ .release .irq

@[simp] theorem notIrq_acquire {r : Resource} : NotIrq (.acquire r) ↔ r ≠ .irq := by
  simp [NotIrq]

@[simp] theorem notIrq_release {r : Resource} : NotIrq (.release r) ↔ r ≠ .irq := by
  simp [NotIrq]

theorem ContextsPath.notIrq {c : Traced Event (Int × Contexts)} (h : ContextsPath c) :
    ∀ u ∈ uses c.trace, NotIrq u := by
  cases h with
  | failed _ _ => simp [uses_exitLabel, or_imp, forall_and]
  | done _ _ => simp

theorem CharDevPath.notIrq {c : Traced Event Int} (h : CharDevPath k c) :
    ∀ u ∈ uses c.trace, NotIrq u := by
  cases h <;> simp

theorem RestPath.notIrq {c : Traced Event (Int × Contexts)} (h : RestPath k c) :
    ∀ u ∈ uses c.trace, NotIrq u := by
  cases h with
  | charDev hchar _ =>
      simpa [trace_errCharDev, or_imp, forall_and] using hchar.notIrq
  | kfifo hchar _ =>
      simpa [trace_errKfifo, or_imp, forall_and] using hchar.notIrq
  | kthread hchar _ =>
      simpa [trace_errKthreadRun, or_imp, forall_and] using hchar.notIrq
  | contexts hchar _ hctx =>
      have hrest := hctx.notIrq
      by_cases hthread : k.kthreadRun = none
      · simpa [hthread, or_imp, forall_and] using ⟨hchar.notIrq, hrest⟩
      · simpa [hthread, or_imp, forall_and] using ⟨hchar.notIrq, hrest⟩

theorem IrqPath.release_irq {c : Traced Event Int} (h : IrqPath k c) :
    .release .irq ∉ uses c.trace := by
  by_cases hvec : k.pciAllocIrqVectors = none
  · cases h <;> simp [vectorEvents, hvec]
  · cases h <;> simp [vectorEvents, hvec]

theorem ProbePath.release_irq {c : Traced Event (Int × Contexts)} (h : ProbePath k c) :
    .release .irq ∉ uses c.trace := by
  cases h with
  | early _ _ => simp
  | masks _ _ _ _ => simp [uses_exitLabel]
  | irq _ hirq _ => simpa using hirq.release_irq
  | rest _ hirq hrest =>
      have hnot : Use.release Resource.irq ∉ uses _ := fun hm => (hrest.notIrq _ hm).2 rfl
      simpa [hnot] using hirq.release_irq

end EonDrv.Lifecycle

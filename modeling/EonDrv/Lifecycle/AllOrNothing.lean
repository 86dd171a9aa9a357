import EonDrv.Lifecycle.Paths

/-!
# All or nothing

When a probe either holds everything, and `eon_remove` gives each of it back once, or
fails and leaves nothing, with the IRQ freed before its vectors.
-/

namespace EonDrv.Lifecycle

open Ledger

/-- Everything that a successful probe holds. -/
def allResources : List Resource :=
  [Resource.vectors, .irq, .cdev, .node, .fifo, .thread] ++
    (List.finRange maxHdmaNumber).map (fun i => Resource.context ⟨.rd, i⟩) ++
    (List.finRange maxHdmaNumber).map fun i => Resource.context ⟨.wr, i⟩

/-- No IRQ is freed behind its vectors. -/
def IrqFirst (t : List (Use Resource)) : Prop :=
  ∀ s u, t = s ++ .release .vectors :: u → .release .irq ∉ u

section

variable (k : Answers)

def probeUses : List (Use Resource) := uses (eonProbe k).trace

/-- The ledger of a failed probe, with what the kernel undoes. -/
def failedUses : List (Use Resource) := probeUses k ++ devres (probeUses k)

structure AllOrNothing : Prop where
  success : (eonProbe k).val.1 = 0 →
    Turns 0 (probeUses k) allResources ∧
      Turns (allResources : Multiset Resource) (uses (eonRemove (eonProbe k).val.2).trace) 0
  failure : (eonProbe k).val.1 ≠ 0 → Neutral (failedUses k) ∧ IrqFirst (failedUses k)

/-- The probe ends before it has both vectors and IRQ, and not at a DMA mask. -/
def EndsEarly : Prop :=
  k.pcimEnableDevice ≠ none ∨ k.pcimIomapRegions ≠ none ∨
    setDmaMask k = 0 ∧
      (k.devmKzalloc = true ∨ irqs k = 0#8 ∨
        k.pciAllocIrqVectors = none ∧ k.devmRequestIrq ≠ none)

end

variable {k : Answers}

theorem irqs_eq_zero (h : irqs k = 0#8) : k.pciAllocIrqVectors ≠ none := by
  intro hnone
  rw [irqs, hnone] at h
  cases h

/-! ## Removal and failures -/

theorem uses_eonRemove (hdma : Contexts) :
    uses (eonRemove hdma).trace =
      [Use.release Resource.thread, .release .irq, .release .vectors] ++
        ((setContexts hdma .wr).map fun ch => Use.release (Resource.context ch)) ++
        ((setContexts hdma .rd).map fun ch => Use.release (Resource.context ch)) ++
        [Use.release Resource.fifo, .release .node, .release .cdev, .release .vectors] := by
  simp [trace_eonRemove]

theorem ContextsPath.vectors {c : Traced Event (Int × Contexts)} (h : ContextsPath c)
    (hc : c.val.1 ≠ 0) : .release .vectors ∈ uses c.trace := by
  cases h with
  | failed _ _ => simp [uses_exitLabel]
  | done _ _ => exact absurd rfl hc

theorem RestPath.vectors {c : Traced Event (Int × Contexts)} (h : RestPath k c)
    (hc : c.val.1 ≠ 0) : .release .vectors ∈ uses c.trace := by
  cases h with
  | charDev _ _ => simp [trace_errCharDev]
  | kfifo _ _ => exact absurd rfl hc
  | kthread _ _ => simp [trace_errKthreadRun]
  | contexts _ _ hctx =>
      have hvec := hctx.vectors hc
      simp [hvec]

/-! ## Main result -/

/-- `eon_remove` frees the vectors twice. -/
theorem not_allOrNothing_of_bound (h : (eonProbe k).val.1 = 0) : ¬ AllOrNothing k := by
  intro hall
  have hbal := ((hall.success h).2).balance .vectors
  have hheld : (allResources : Multiset Resource).count .vectors = 1 := by decide
  have hnone : (uses (eonRemove (eonProbe k).val.2).trace).count (.acquire .vectors) = 0 := by
    rw [List.count_eq_zero, uses_eonRemove]
    simp
  have htwice : 2 ≤ (uses (eonRemove (eonProbe k).val.2).trace).count (.release .vectors) := by
    simp only [uses_eonRemove, List.count_append, List.count_cons, List.count_nil,
      beq_self_eq_true, if_true]
    omega
  rw [Multiset.count_zero, hheld, hnone] at hbal
  omega

theorem allOrNothing_of_failed {t : List (Use Resource)} (h : (eonProbe k).val.1 ≠ 0)
    (ht : failedUses k = t) (hneutral : Neutral t) (hirq : .release .irq ∉ t) :
    AllOrNothing k := by
  subst ht
  refine ⟨fun h0 => absurd h0 h, fun _ => ⟨hneutral, ?_⟩⟩
  intro s u hsplit hmem
  refine hirq ?_
  rw [hsplit]
  exact List.mem_append_right _ (List.mem_cons_of_mem _ hmem)

theorem acquire_mem_failedUses {r : Resource} :
    .acquire r ∈ failedUses k ↔ .acquire r ∈ probeUses k := by
  rw [failedUses, devres]
  split <;> simp

theorem not_allOrNothing_of_foreign {r : Resource} (h : (eonProbe k).val.1 ≠ 0)
    (hr : .release r ∈ probeUses k) (ha : .acquire r ∉ probeUses k) : ¬ AllOrNothing k := by
  intro hall
  have hmem : .release r ∈ failedUses k := List.mem_append_left _ hr
  exact not_neutral_of_foreign hmem (fun hacq => ha (acquire_mem_failedUses.mp hacq))
    (hall.failure h).1

/-- The IRQ that the kernel frees behind a failed probe comes after the vectors. -/
theorem not_allOrNothing_of_requested {t u : List (Use Resource)} (h : (eonProbe k).val.1 ≠ 0)
    (ht : probeUses k = t ++ u) (hirq : .acquire .irq ∈ t) (hkept : .release .irq ∉ t)
    (haway : ∀ w ∈ u, NotIrq w) (hvec : .release .vectors ∈ u) : ¬ AllOrNothing k := by
  intro hall
  obtain ⟨s, v, hsplit⟩ := List.append_of_mem hvec
  have hundo : devres (probeUses k) = [.release .irq] := by
    rw [devres, if_pos]
    rw [ht, List.mem_append, List.mem_append]
    exact ⟨Or.inl hirq, fun hm => hm.elim hkept fun hm => (haway _ hm).2 rfl⟩
  have hfail : failedUses k = (t ++ s) ++ .release .vectors :: (v ++ [.release .irq]) := by
    rw [failedUses, hundo, ht, hsplit, List.append_assoc, List.append_assoc, List.append_assoc,
      List.cons_append]
  exact (hall.failure h).2 _ _ hfail (by simp)

theorem allOrNothing_iff_of_irq {code : Int} {t : List Event} (hreached : Numbered k)
    (hirq : IrqPath k ⟨code, t⟩) (hcode : code ≠ 0)
    (hprobe : eonProbe k = ⟨(code, fun _ => false), .dpuId :: t⟩) :
    AllOrNothing k ↔ EndsEarly k := by
  obtain ⟨henable, hmap, hmask, halloc⟩ := hreached
  have hfailed : (eonProbe k).val.1 ≠ 0 := by rwa [hprobe]
  cases hirq with
  | count _ hirqs =>
      have huses : failedUses k = [] := by
        simp [failedUses, probeUses, hprobe, vectorEvents, irqs_eq_zero hirqs, devres]
      exact iff_of_true (allOrNothing_of_failed hfailed huses Neutral.nil List.not_mem_nil)
        (by simp [EndsEarly, hmask, hirqs])
  | request _ hirqs hrequest =>
      by_cases hvec : k.pciAllocIrqVectors = none
      · have huses : failedUses k = [.acquire .vectors, .release .vectors] := by
          simp [failedUses, probeUses, hprobe, vectorEvents, hvec, devres]
        have hneutral := Neutral.nil.bracket Resource.vectors
        exact iff_of_true (allOrNothing_of_failed hfailed huses hneutral (by simp))
          (by simp [EndsEarly, hmask, hvec, hrequest])
      · have huses : probeUses k = [.release .vectors] := by
          simp [probeUses, hprobe, vectorEvents, hvec]
        refine iff_of_false ?_ (by simp [EndsEarly, henable, hmap, halloc, hirqs, hvec])
        exact not_allOrNothing_of_foreign (r := Resource.vectors) hfailed (by simp [huses])
          (by simp [huses])
  | done _ _ => exact absurd rfl hcode

/-- A probe that gets the IRQ never meets both halves. -/
theorem allOrNothing_iff_of_rest {t : List Event} {c : Traced Event (Int × Contexts)}
    (hreached : Numbered k) (hirq : IrqPath k ⟨0, t⟩) (hrest : RestPath k c)
    (hprobe : eonProbe k = ⟨c.val, .dpuId :: (t ++ c.trace)⟩) :
    AllOrNothing k ↔ EndsEarly k := by
  obtain ⟨henable, hmap, hmask, halloc⟩ := hreached
  obtain ⟨hirqs, hrequest, htrace⟩ : irqs k ≠ 0#8 ∧ k.devmRequestIrq = none ∧
      uses t = uses (vectorEvents k) ++ [.acquire .irq] := by
    cases hirq with
    | count hcode _ => exact absurd rfl hcode
    | request hcode _ _ => exact absurd rfl hcode
    | done hirqs hrequest => exact ⟨hirqs, hrequest, uses_append _ _⟩
  refine iff_of_false ?_ (by simp [EndsEarly, henable, hmap, halloc, hirqs, hrequest])
  by_cases hcode : c.val.1 = 0
  · exact not_allOrNothing_of_bound (by rwa [hprobe])
  · have huses : probeUses k = uses t ++ uses c.trace := by simp [probeUses, hprobe]
    have htaken : .acquire .irq ∈ uses t := by simp [htrace]
    exact not_allOrNothing_of_requested (by rwa [hprobe]) huses htaken hirq.release_irq
      hrest.notIrq (hrest.vectors hcode)

theorem allOrNothing_iff : AllOrNothing k ↔ EndsEarly k := by
  have hpath := eonProbe_path k
  generalize hprobe : eonProbe k = c at hpath
  cases hpath with
  | early hcode hearly =>
      have hend : EndsEarly k := by
        rcases hearly with h | h | ⟨hmask, h⟩
        · exact Or.inl h
        · exact Or.inr (Or.inl h)
        · exact Or.inr (Or.inr ⟨hmask, Or.inl h⟩)
      have huses : failedUses k = [] := by simp [failedUses, probeUses, hprobe, devres]
      exact iff_of_true
        (allOrNothing_of_failed (by rwa [hprobe]) huses Neutral.nil List.not_mem_nil) hend
  | masks hcode henable hmap hmask =>
      have huses : probeUses k = uses (exitLabel k.uninit).trace := by simp [probeUses, hprobe]
      refine iff_of_false ?_ (by simp [EndsEarly, henable, hmap, hmask])
      exact not_allOrNothing_of_foreign (r := Resource.thread) (by rwa [hprobe])
        (by simp [huses, uses_exitLabel]) (by simp [huses, uses_exitLabel])
  | irq hreached hirq hcode => exact allOrNothing_iff_of_irq hreached hirq hcode hprobe
  | rest hreached hirq hrest => exact allOrNothing_iff_of_rest hreached hirq hrest hprobe

/-! ## A failing input -/

example : Turns 0 (probeUses granting) allResources := by decide

/-- Without a fifo the probe reports success and holds the IRQ only. -/
def noFifo : Answers := { granting with kfifoAlloc := some ⟨-12, by decide⟩ }

theorem noFifo_keeps_irq :
    (eonProbe noFifo).val.1 = 0 ∧ Turns 0 (probeUses noFifo) [Resource.irq] ∧
      ¬ AllOrNothing noFifo := by
  have hval : (eonProbe noFifo).val.1 = 0 := by decide
  refine ⟨hval, by decide, fun hall => ?_⟩
  exact absurd (hall.success hval).1 (by decide)

end EonDrv.Lifecycle

import EonDrv.Lifecycle.Paths
import EonDrv.Support.StepSystem
import Mathlib.Data.List.Nodup

/-!
# Minor numbers

The static counter of `get_dpu_id` over probes and removes, against the eight numbers
that `eon_init` reserves.
-/

namespace EonDrv.Lifecycle

/-- `EON_TEST_MINORS`. -/
def eonTestMinors : Nat := 8

/-- The low 20 bits of a device number are its minor. -/
def mkdev (ma mi : BitVec 32) : BitVec 32 := ma <<< 20 ||| mi

/-- The value returned, and the static counter behind it. -/
def getDpuId (dpuId : BitVec 32) : BitVec 32 × BitVec 32 := (dpuId, dpuId + 1#32)

/-- A bound device.  `call` counts the calls of `get_dpu_id` before its own. -/
structure Device where
  dpuId : BitVec 32
  call : Nat

/-- The module between two calls of the kernel.  `numbers` are those passed to
`cdev_add`. -/
structure Minors where
  dpuId : BitVec 32
  calls : Nat
  bound : List Device
  numbers : List (BitVec 32)

inductive BusAction
  | probe (k : Answers)
  | remove (i : Nat)

section

variable (major : BitVec 32)

/-- What a statement of `eon_probe` does to the counter and to its device. -/
def note (p : Minors × Device) : Event → Minors × Device
  | .dpuId =>
      let (ret, dpuId) := getDpuId p.1.dpuId
      ({ p.1 with dpuId := dpuId, calls := p.1.calls + 1 }, ⟨ret, p.1.calls⟩)
  | .number => ({ p.1 with numbers := mkdev major p.2.dpuId :: p.1.numbers }, p.2)
  | _ => p

def probeMinors (k : Answers) (s : Minors) : Minors :=
  let (t, dev) := (eonProbe k).trace.foldl (note major) (s, ⟨0#32, 0⟩)
  if (eonProbe k).val.1 = 0 then { t with bound := dev :: t.bound } else t

/-- Probes and removes in any order, with at most eight devices bound. -/
def minors : StepSystem Minors BusAction where
  init s := s = ⟨0#32, 0, [], []⟩
  step s
    | .probe k =>
        let t := probeMinors major k s
        if t.bound.length ≤ eonTestMinors then some t else none
    | .remove i =>
        if i < s.bound.length then some { s with bound := s.bound.eraseIdx i } else none

/-- `eon_init` reserves the numbers from `MKDEV(major, 0)` on. -/
def InRegion (number : BitVec 32) : Prop :=
  (mkdev major 0#32).toNat ≤ number.toNat ∧
    number.toNat < (mkdev major 0#32).toNat + eonTestMinors

structure MinorsInside (s : Minors) : Prop where
  distinct : (s.bound.map Device.dpuId).Nodup
  small : ∀ d ∈ s.bound, d.dpuId.toNat < eonTestMinors
  inside : ∀ n ∈ s.numbers, InRegion major n

end

/-- A probe that reaches `cdev_add` is one of the first eight, as the counter counts,
and a device that stays bound has not its id from a multiple of 2^32 calls behind another. -/
def FirstEight (s : Minors) : BusAction → Prop
  | .probe k =>
      (.number ∈ (eonProbe k).trace → s.calls % 2 ^ 32 < eonTestMinors) ∧
        ((eonProbe k).val.1 = 0 → ∀ d ∈ s.bound, (s.calls - d.call) % 2 ^ 32 ≠ 0)
  | .remove _ => True

instance (s : Minors) (a : BusAction) : Decidable (FirstEight s a) :=
  match a with
  | .probe _ => inferInstanceAs (Decidable (_ ∧ _))
  | .remove _ => inferInstanceAs (Decidable True)

/-! ## What a probe does to the counter -/

def numbering (t : List Event) : List Event :=
  t.filter fun e => e = .dpuId ∨ e = .number

@[simp] theorem numbering_nil : numbering [] = [] := rfl

@[simp] theorem numbering_append (s t : List Event) :
    numbering (s ++ t) = numbering s ++ numbering t :=
  List.filter_append ..

@[simp] theorem numbering_dpuId (t : List Event) :
    numbering (.dpuId :: t) = .dpuId :: numbering t := rfl

@[simp] theorem numbering_number (t : List Event) :
    numbering (.number :: t) = .number :: numbering t := rfl

@[simp] theorem numbering_use (u : Ledger.Use Resource) (t : List Event) :
    numbering (.use u :: t) = numbering t := rfl

@[simp] theorem numbering_acquire (r : Resource) : numbering (acquire r).trace = [] := rfl

@[simp] theorem numbering_release (r : Resource) : numbering (release r).trace = [] := rfl

theorem foldl_numbering (major : BitVec 32) (t : List Event) (p : Minors × Device) :
    t.foldl (note major) p = (numbering t).foldl (note major) p := by
  induction t generalizing p with
  | nil => rfl
  | cons e rest ih =>
      rw [List.foldl_cons, ih]
      cases e <;> rfl

theorem number_mem_iff {t : List Event} : .number ∈ t ↔ .number ∈ numbering t := by
  simp [numbering]

theorem numbering_map_use (us : List (Ledger.Use Resource)) : numbering (us.map .use) = [] := by
  induction us with
  | nil => rfl
  | cons u rest ih => rw [List.map_cons, numbering_use, ih]

@[simp] theorem numbering_initEvents (chs : List Chan) : numbering (initEvents chs) = [] := by
  rw [initEvents_eq, numbering_map_use]

@[simp] theorem numbering_exitEvents (chs : List Chan) : numbering (exitEvents chs) = [] := by
  rw [exitEvents_eq, numbering_map_use]

@[simp] theorem numbering_errKthreadRun : numbering errKthreadRun.trace = [] := rfl

@[simp] theorem numbering_exitLabel (hdma : Contexts) : numbering (exitLabel hdma).trace = [] := by
  simp [trace_exitLabel]

variable {k : Answers}

theorem ContextsPath.numbering {c : Traced Event (Int × Contexts)} (h : ContextsPath c) :
    numbering c.trace = [] := by
  cases h <;> simp

theorem IrqPath.numbering {c : Traced Event Int} (h : IrqPath k c) : numbering c.trace = [] := by
  have hvec : Lifecycle.numbering (vectorEvents k) = [] := by
    rw [vectorEvents]
    split <;> rfl
  cases h <;> simp [hvec]

theorem CharDevPath.numbering {c : Traced Event Int} (h : CharDevPath k c) :
    numbering c.trace = [.number] ∨ numbering c.trace = [] ∧ c.val ≠ 0 := by
  cases h with
  | nothing hcode => exact Or.inr ⟨rfl, hcode⟩
  | added _ => exact Or.inl rfl
  | deleted => exact Or.inl rfl
  | created => exact Or.inl rfl
  | unnoticed => exact Or.inl rfl

theorem RestPath.numbering {c : Traced Event (Int × Contexts)} (h : RestPath k c) :
    numbering c.trace = [.number] ∨ numbering c.trace = [] ∧ c.val.1 ≠ 0 := by
  cases h with
  | charDev hchar hcode =>
      have hundo : Lifecycle.numbering errCharDev.trace = [] := rfl
      rcases hchar.numbering with h | ⟨h, -⟩
      · exact Or.inl (by simpa [hundo] using h)
      · exact Or.inr ⟨by simpa [hundo] using h, hcode⟩
  | kfifo hchar _ =>
      have hundo : Lifecycle.numbering errKfifo.trace = [] := rfl
      rcases hchar.numbering with h | ⟨-, h⟩
      · exact Or.inl (by simpa [hundo] using h)
      · exact absurd rfl h
  | kthread hchar _ =>
      rcases hchar.numbering with h | ⟨-, h⟩
      · exact Or.inl (by simpa using h)
      · exact absurd rfl h
  | contexts hchar _ hctx =>
      rcases hchar.numbering with h | ⟨-, h⟩
      · refine Or.inl ?_
        by_cases hthread : k.kthreadRun = none
        · simpa [hthread, hctx.numbering] using h
        · simpa [hthread, hctx.numbering] using h
      · exact absurd rfl h

/-- A probe asks for no id, for an id only, or for an id that it passes to `cdev_add`. -/
theorem eonProbe_numbering (k : Answers) :
    numbering (eonProbe k).trace = [.dpuId, .number] ∨
      (eonProbe k).val.1 ≠ 0 ∧
        (numbering (eonProbe k).trace = [] ∨ numbering (eonProbe k).trace = [.dpuId]) := by
  have hpath := eonProbe_path k
  generalize eonProbe k = c at *
  cases hpath with
  | early hcode _ => exact Or.inr ⟨hcode, Or.inl rfl⟩
  | masks hcode _ _ _ => exact Or.inr ⟨hcode, Or.inl (by simp)⟩
  | irq _ hirq hcode =>
      have hnone := hirq.numbering
      exact Or.inr ⟨hcode, Or.inr (by simpa using hnone)⟩
  | rest _ hirq hrest =>
      have hnone := hirq.numbering
      rcases hrest.numbering with h | ⟨h, hcode⟩
      · exact Or.inl (by simpa [h] using hnone)
      · exact Or.inr ⟨hcode, Or.inr (by simpa [h] using hnone)⟩

/-! ## One step -/

/-- `dpu_id` counts the calls, modulo 2^32, and every device has the count of its own. -/
structure Counted (s : Minors) : Prop where
  counter : s.dpuId = BitVec.ofNat 32 s.calls
  device : ∀ d ∈ s.bound, d.call < s.calls ∧ d.dpuId = BitVec.ofNat 32 d.call

theorem probeMinors_cases (major : BitVec 32) (k : Answers) (s : Minors) :
    .number ∈ (eonProbe k).trace ∧
        probeMinors major k s =
          { dpuId := s.dpuId + 1#32
            calls := s.calls + 1
            bound := if (eonProbe k).val.1 = 0 then ⟨s.dpuId, s.calls⟩ :: s.bound else s.bound
            numbers := mkdev major s.dpuId :: s.numbers } ∨
      .number ∉ (eonProbe k).trace ∧ (eonProbe k).val.1 ≠ 0 ∧
        (probeMinors major k s = s ∨
          probeMinors major k s = { s with dpuId := s.dpuId + 1#32, calls := s.calls + 1 }) := by
  rw [number_mem_iff, probeMinors, foldl_numbering]
  rcases eonProbe_numbering k with h | ⟨hcode, h | h⟩
  · refine Or.inl ⟨by simp [h], ?_⟩
    rw [h]
    by_cases hcode : (eonProbe k).val.1 = 0
    · simp [hcode, note, getDpuId]
    · simp [hcode, note, getDpuId]
  · refine Or.inr ⟨by simp [h], hcode, Or.inl ?_⟩
    simp [h, hcode]
  · refine Or.inr ⟨by simp [h], hcode, Or.inr ?_⟩
    simp [h, hcode, note, getDpuId]

variable {major : BitVec 32}

theorem step_remove {s t : Minors} {i : Nat} (h : (minors major).step s (.remove i) = some t) :
    t = { s with bound := s.bound.eraseIdx i } := by
  simp only [minors, Option.ite_none_right_eq_some, Option.some.injEq] at h
  exact h.2.symm

theorem step_probe {s t : Minors} (h : (minors major).step s (.probe k) = some t) :
    t = probeMinors major k s := by
  simp only [minors, Option.ite_none_right_eq_some, Option.some.injEq] at h
  exact h.2.symm

theorem counted_step {s t : Minors} {a : BusAction} (hs : Counted s)
    (h : (minors major).step s a = some t) : Counted t := by
  have hnext : s.dpuId + 1#32 = BitVec.ofNat 32 (s.calls + 1) := by
    rw [hs.counter, BitVec.ofNat_add]
  have hold : ∀ d ∈ s.bound, d.call < s.calls + 1 ∧ d.dpuId = BitVec.ofNat 32 d.call := by
    intro d hd
    obtain ⟨hlt, hid⟩ := hs.device d hd
    exact ⟨by omega, hid⟩
  cases a with
  | remove i =>
      rw [step_remove h]
      exact ⟨hs.counter, fun d hd => hs.device d (List.mem_of_mem_eraseIdx hd)⟩
  | probe k =>
      rw [step_probe h]
      rcases probeMinors_cases major k s with ⟨-, hprobe⟩ | ⟨-, -, hprobe | hprobe⟩
      · rw [hprobe]
        refine ⟨hnext, fun d hd => ?_⟩
        by_cases hcode : (eonProbe k).val.1 = 0
        · rw [if_pos hcode] at hd
          rcases List.mem_cons.mp hd with rfl | hd
          · exact ⟨Nat.lt_succ_self _, hs.counter⟩
          · exact hold d hd
        · rw [if_neg hcode] at hd
          exact hold d hd
      · rwa [hprobe]
      · rw [hprobe]
        exact ⟨hnext, hold⟩

theorem inRegion_mkdev {mi : BitVec 32} (h : mi.toNat < eonTestMinors) :
    InRegion major (mkdev major mi) := by
  have hbase : (major <<< 20).toNat = (major.toNat % 2 ^ 12) <<< 20 := by
    rw [BitVec.toNat_shiftLeft, Nat.shiftLeft_eq, Nat.shiftLeft_eq]
    omega
  have hsmall : mi.toNat < 2 ^ 20 := by
    have : eonTestMinors = 8 := rfl
    omega
  have hnumber : (mkdev major mi).toNat = (major.toNat % 2 ^ 12) <<< 20 + mi.toNat := by
    rw [mkdev, BitVec.toNat_or, hbase, Nat.shiftLeft_add_eq_or_of_lt hsmall]
  have hfirst : (mkdev major 0#32).toNat = (major.toNat % 2 ^ 12) <<< 20 := by
    rw [mkdev, BitVec.or_zero, hbase]
  rw [InRegion, hnumber, hfirst]
  omega

theorem minorsInside_step {s t : Minors} {a : BusAction} (hc : Counted s)
    (hs : MinorsInside major s) (hg : FirstEight s a) (h : (minors major).step s a = some t) :
    MinorsInside major t := by
  cases a with
  | remove i =>
      rw [step_remove h]
      exact ⟨hs.distinct.sublist ((List.eraseIdx_sublist ..).map _),
        fun d hd => hs.small d (List.mem_of_mem_eraseIdx hd), hs.inside⟩
  | probe k =>
      rw [step_probe h]
      rcases probeMinors_cases major k s with ⟨hmem, hprobe⟩ | ⟨-, -, hprobe | hprobe⟩
      · have hid : s.dpuId.toNat < eonTestMinors := by
          rw [hc.counter, BitVec.toNat_ofNat]
          exact hg.1 hmem
        have hinside : ∀ n ∈ mkdev major s.dpuId :: s.numbers, InRegion major n := by
          intro n hn
          rcases List.mem_cons.mp hn with rfl | hn
          · exact inRegion_mkdev hid
          · exact hs.inside n hn
        rw [hprobe]
        by_cases hcode : (eonProbe k).val.1 = 0
        · simp only [hcode, if_true]
          refine ⟨?_, ?_, hinside⟩
          · rw [List.map_cons, List.nodup_cons]
            refine ⟨?_, hs.distinct⟩
            intro hdup
            obtain ⟨d, hd, heq⟩ := List.mem_map.mp hdup
            obtain ⟨hlt, hcall⟩ := hc.device d hd
            refine hg.2 hcode d hd (Nat.sub_mod_eq_zero_of_mod_eq ?_)
            have hids := congrArg BitVec.toNat heq
            rw [hcall, hc.counter, BitVec.toNat_ofNat, BitVec.toNat_ofNat] at hids
            exact hids.symm
          · intro d hd
            rcases List.mem_cons.mp hd with rfl | hd
            · exact hid
            · exact hs.small d hd
        · simp only [hcode, if_false]
          exact ⟨hs.distinct, hs.small, hinside⟩
      · rwa [hprobe]
      · rw [hprobe]
        exact ⟨hs.distinct, hs.small, hs.inside⟩

/-! ## Main result -/

theorem minorsInside_of_firstEight {s : Minors} (h : (minors major).ReachVia FirstEight s) :
    MinorsInside major s := by
  have hboth : Counted s ∧ MinorsInside major s := by
    refine StepSystem.ReachVia.invariant (I := fun s => Counted s ∧ MinorsInside major s) ?_ ?_ h
    · rintro s (rfl : s = _)
      exact ⟨⟨rfl, by simp⟩, ⟨List.nodup_nil, by simp, by simp⟩⟩
    · rintro s a t ⟨hc, hs⟩ hg hst
      exact ⟨counted_step hc hst, minorsInside_step hc hs hg hst⟩
  exact hboth.2

theorem eight_devices_bound :
    ∃ s, (minors 240#32).ReachVia FirstEight s ∧ s.bound.length = 8 ∧
      MinorsInside 240#32 s := by
  obtain ⟨s, hs, hlen⟩ := StepSystem.exists_reachVia
    (S := minors 240#32) (g := FirstEight) (fun s => s.bound.length = 8)
    (List.replicate 8 (.probe granting)) (.start rfl) (by decide)
  exact ⟨s, hs, hlen, minorsInside_of_firstEight hs⟩

/-! ## Remove and rescan -/

theorem success_numbering (h : (eonProbe k).val.1 = 0) : .number ∈ (eonProbe k).trace := by
  rcases eonProbe_numbering k with hn | ⟨hcode, -⟩
  · rw [number_mem_iff, hn]
    simp
  · exact absurd h hcode

theorem step_probe_success (h : (eonProbe k).val.1 = 0) {s : Minors} (hs : s.bound = []) :
    (minors major).step s (.probe k) =
      some ⟨s.dpuId + 1#32, s.calls + 1, [⟨s.dpuId, s.calls⟩],
        mkdev major s.dpuId :: s.numbers⟩ := by
  rcases probeMinors_cases major k s with ⟨-, hprobe⟩ | ⟨hnot, -⟩
  · simp [minors, hprobe, h, hs, eonTestMinors]
  · exact absurd (success_numbering h) hnot

/-- One device, removed and probed again `n` times, has the number `n` modulo 2^32. -/
theorem rescanned_number (major : BitVec 32) (h : (eonProbe k).val.1 = 0) (n : Nat) :
    ∃ s, (minors major).Reachable s ∧ s.dpuId = BitVec.ofNat 32 (n + 1) ∧ s.calls = n + 1 ∧
      s.bound = [⟨BitVec.ofNat 32 n, n⟩] := by
  induction n with
  | zero =>
      exact ⟨_, .next (.start rfl) trivial (step_probe_success h rfl), rfl, rfl, rfl⟩
  | succ n ih =>
      obtain ⟨s, hs, hid, hcalls, hbound⟩ := ih
      have hremove : (minors major).step s (.remove 0) = some { s with bound := [] } := by
        simp [minors, hbound]
      have hgone := StepSystem.ReachVia.next hs trivial hremove
      refine ⟨_, .next hgone trivial (step_probe_success h rfl), ?_, ?_, ?_⟩
      · show s.dpuId + 1#32 = _
        rw [hid, BitVec.ofNat_add (n + 1)]
      · show s.calls + 1 = _
        rw [hcalls]
      · show [Device.mk s.dpuId s.calls] = _
        rw [hid, hcalls]

theorem ninth_probe_outside :
    ∃ s, (minors 240#32).Reachable s ∧ s.bound.length = 1 ∧ ¬ MinorsInside 240#32 s := by
  obtain ⟨s, hs, -, -, hbound⟩ := rescanned_number 240#32 (k := granting) (by decide) 8
  refine ⟨s, hs, by rw [hbound]; rfl, fun hinside => ?_⟩
  have hsmall := hinside.small ⟨8#32, 8⟩ (by rw [hbound]; exact List.mem_singleton_self _)
  exact absurd hsmall (by decide)

end EonDrv.Lifecycle

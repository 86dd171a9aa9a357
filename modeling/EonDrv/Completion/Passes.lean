import EonDrv.Completion.Drain

/-!
# The passes of the completion thread

A pass reads the channels in order and serves the first that it finds pending, while the
device goes on raising and the requests go on running.  A pass that serves none has found
every channel without an event, each at its own time.
-/

namespace EonDrv
namespace Completion

/-- The channels that the pass has read without an event, and the one that it serves. -/
structure Pass where
  seen : Chan → Bool
  served : Option Chan

def Pass.fresh : Pass := ⟨fun _ => false, none⟩

def Pass.record (s : State) (a : Action) (_ : State) (o : Pass) : Pass :=
  match a with
  | .thread =>
    match s.thread.pc with
    | .whileTop | .extraTop => .fresh
    | .read _ ch =>
      if HasEvent (s.ctx ch).intStatus.value then o
      else { o with seen := Function.update o.seen ch true }
    | .store _ ch _ => { o with served := some ch }
    | _ => o
  | _ => o

def passes (reqs : Nat → HdmaRequest) : StepSystem (State × Pass) Action :=
  (system reqs).observe .fresh Pass.record

/-- It has read the channels before `ch`, and no others. -/
def Pass.UpTo (o : Pass) (ch : Chan) : Prop :=
  ∀ ch', o.seen ch' = true ↔ scanIndex ch' < scanIndex ch

def Pass.Over (o : Pass) : Prop :=
  (∃ ch, o.served = some ch ∧ o.UpTo ch) ∨ (o.served = none ∧ ∀ ch, o.seen ch = true)

/-- What the place of the thread says about its pass. -/
def PassAt (o : Pass) : KthreadPc → Prop
  | .read _ ch | .store _ ch _ => o.served = none ∧ o.UpTo ch
  | .clear _ ch _ | .wake _ ch _ => o.served = some ch ∧ o.UpTo ch
  | .popTokens => o.Over
  | .outerEnd => o = .fresh ∨ o.Over
  | _ => True

section

variable {reqs : Nat → HdmaRequest} {s t : State} {o : Pass} {ch ch' : Chan}

theorem fresh_upTo : Pass.fresh.UpTo firstChan := by
  intro ch
  refine iff_of_false Bool.false_ne_true ?_
  show ¬ scanIndex ch < 0
  omega

theorem Pass.UpTo.next (h : o.UpTo ch) (hnext : nextChan ch = some ch') :
    Pass.UpTo { o with seen := Function.update o.seen ch true } ch' := by
  intro c
  rw [scanIndex_nextChan hnext]
  show Function.update o.seen ch true c = true ↔ _
  by_cases hc : c = ch
  · subst hc
    rw [Function.update_self]
    exact iff_of_true rfl (Nat.lt_succ_self _)
  · have hne : scanIndex c ≠ scanIndex ch := fun heq => hc (scanIndex_injective heq)
    rw [Function.update_of_ne hc, h c]
    omega

theorem Pass.UpTo.last (h : o.UpTo ch) (hnext : nextChan ch = none) (c : Chan) :
    Function.update o.seen ch true c = true := by
  by_cases hc : c = ch
  · rw [hc, Function.update_self]
  · have hne : scanIndex c ≠ scanIndex ch := fun heq => hc (scanIndex_injective heq)
    have hlt := scanIndex_lt c
    have hlast := scanIndex_last hnext
    rw [Function.update_of_ne hc, h c]
    omega

theorem passAt_afterScan (h : o.Over) (sc : Scan) : PassAt o (afterScan sc) := by
  cases sc with
  | token => exact h
  | extra => exact Or.inr h

theorem PassAt.step (h : PassAt o s.thread.pc) (hst : hamaHandleKthread reqs s = some t) :
    PassAt (Pass.record s .thread t o) t.thread.pc := by
  unfold Pass.record
  unfold hamaHandleKthread at hst
  cases hpc : s.thread.pc with
  | wait =>
      simp only [hpc, Option.some.injEq] at hst
      subst hst
      show PassAt o (if s.kthreadShouldStop then .exited else .whileTop)
      split <;> trivial
  | whileTop =>
      simp only [hpc] at hst
      split at hst <;> obtain rfl := Option.some.inj hst
      · exact ⟨rfl, fresh_upTo⟩
      · trivial
  | read sc ch =>
      rw [hpc] at h
      obtain ⟨hserved, hupTo⟩ := h
      simp only [hpc] at hst
      split at hst
      · rename_i hevent
        obtain rfl := Option.some.inj hst
        dsimp only
        rw [if_pos hevent]
        exact ⟨hserved, hupTo⟩
      · rename_i hevent
        dsimp only
        rw [if_neg hevent]
        split at hst <;> obtain rfl := Option.some.inj hst
        · rename_i hnext
          exact ⟨hserved, hupTo.next hnext⟩
        · rename_i hnext
          have hover : Pass.Over { o with seen := Function.update o.seen ch true } :=
            Or.inr ⟨hserved, hupTo.last hnext⟩
          exact passAt_afterScan hover sc
  | store sc ch status =>
      rw [hpc] at h
      simp only [hpc, Option.some.injEq] at hst
      subst hst
      exact ⟨rfl, h.2⟩
  | clear sc ch status =>
      rw [hpc] at h
      simp only [hpc, Option.some.injEq] at hst
      subst hst
      exact h
  | wake sc ch status =>
      rw [hpc] at h
      have hover := passAt_afterScan (Or.inl ⟨ch, h.1, h.2⟩) sc
      simp only [hpc] at hst
      split at hst <;> obtain rfl := Option.some.inj hst <;> exact hover
  | popTokens =>
      simp only [hpc, Option.some.injEq] at hst
      subst hst
      unfold popTokens
      dsimp only
      split
      · trivial
      · split <;> trivial
  | extraTop =>
      simp only [hpc] at hst
      split at hst <;> obtain rfl := Option.some.inj hst
      · exact ⟨rfl, fresh_upTo⟩
      · exact Or.inl rfl
  | outerEnd =>
      simp only [hpc, Option.some.injEq] at hst
      subst hst
      show PassAt o (if s.shouldStopFlag then .exited else .wait)
      split <;> trivial
  | exited =>
      simp only [hpc] at hst
      cases hst

end

/-- The state of a channel is stored for the first channel in order that the pass found
pending, and a pass over all channels that stores none has found all of them without an
event. -/
structure ServesFirst (s : State) (o : Pass) : Prop where
  stored : ∀ sc ch status, s.thread.pc = .store sc ch status → o.served = none ∧ o.UpTo ch
  tokens : s.thread.pc = .popTokens → o.Over
  extra : s.thread.pc = .outerEnd → o = .fresh ∨ o.Over

theorem servesFirst_of_reachable {reqs : Nat → HdmaRequest} {s : State} {o : Pass}
    (h : (passes reqs).Reachable (s, o)) : ServesFirst s o := by
  have hat : PassAt o s.thread.pc := by
    refine StepSystem.Reachable.invariant
      (I := fun x : State × Pass => PassAt x.2 x.1.thread.pc) (fun x hx => ?_)
      (fun x a y hx hst => ?_) h
    · rw [show x.1.thread.pc = .wait from hx.1.thread]
      trivial
    · obtain ⟨hone, hrecord⟩ := StepSystem.observe_step hst
      rw [hrecord]
      by_cases ha : a = .thread
      · subst ha
        exact hx.step hone
      · have hsame : Pass.record x.1 a y.1 x.2 = x.2 := by
          cases a <;> first | rfl | exact absurd rfl ha
        rw [hsame, step_thread hone ha]
        exact hx
  refine ⟨fun sc ch status hpc => ?_, fun hpc => ?_, fun hpc => ?_⟩ <;> rw [hpc] at hat
  · exact hat
  · exact hat
  · exact hat

/-- A stop on the last channel is found behind 31 others. -/
theorem last_channel_served : ∃ s o, (passes sample).Reachable (s, o) ∧
    s.thread.pc = .popTokens ∧ o.served = some ⟨.wr, 15⟩ ∧ o.seen ⟨.rd, 15⟩ = true ∧ o.Over := by
  obtain ⟨⟨s, o⟩, hs, hpc, hserved, hseen⟩ := StepSystem.exists_reachVia
    (S := passes sample) (g := fun _ _ => True)
    (fun x => x.1.thread.pc = .popTokens ∧ x.2.served = some ⟨.wr, 15⟩ ∧
      x.2.seen ⟨.rd, 15⟩ = true)
    (s := (probed, Pass.fresh)) ([Action.raise ⟨.wr, 15⟩ none stopBit, .irq] ++ threadSteps 37)
    (.start ⟨probed_initial, rfl⟩) (by decide +kernel)
  exact ⟨s, o, hs, hpc, hserved, hseen, (servesFirst_of_reachable hs).tokens hpc⟩

end Completion
end EonDrv

import EonDrv.Support.Sticky

/-!
# The doorbell handshake

One cell of a doorbell protocol.  A client arms the cell, rings, and waits until
the cell no longer runs.  A device raises bits in a sticky status register, each
for a doorbell or for none.  A server reads the register, stores the completion,
writes the bits it read to the clear register, and wakes the client or not.

The cell attributes every status bit to the call it was raised for.  The four
invariants below say under which condition on the steps a completion belongs to
the call that sees it, no completion is lost, an aborted call is not completed,
and no client sleeps on a completed cell.
-/

namespace Doorbell

variable {κ : Type*} {w : Nat}

/-- Where the client is: armed and not yet past its doorbell, awake in its wait,
or asleep in it. -/
inductive Phase
  | armed
  | awake
  | asleep
  deriving DecidableEq

/-- The call in progress, from arming to the end of its wait. -/
structure Active (κ : Type*) where
  call : κ
  rings : Bool
  phase : Phase
  rung : Bool
  stopped : Bool
  aborted : Bool

/-- Where the server is with a status it has read. -/
inductive Serving
  | store
  | clear
  | wake
  deriving DecidableEq

structure Held (κ : Type*) (w : Nat) where
  place : Serving
  wakes : Bool
  status : Sticky (Option κ) w

structure Cell (κ : Type*) (w : Nat) where
  call : Option (Active κ)
  running : Bool
  status : Sticky (Option κ) w
  credit : Sticky (Option κ) w
  owed : Bool
  held : Option (Held κ w)

structure Cell.Idle (v : Cell κ w) : Prop where
  call : v.call = none
  owed : v.owed = false
  held : v.held = none

structure Masks (w : Nat) where
  event : BitVec w
  stop : BitVec w
  abort : BitVec w
  stop_event : ∀ b : BitVec w, b &&& stop ≠ 0#w → b &&& event ≠ 0#w

inductive Event (κ : Type*) (w : Nat)
  | other
  | arm (c : κ) (rings : Bool)
  | refuse
  | ring
  | sleep
  | rouse
  | complete
  | cut (ok : Bool)
  | raise (o : Option κ) (bits : BitVec w)
  | read (wakes : Bool)
  | store
  | clear
  | wake

def Active.rouse (a : Active κ) : Active κ :=
  { a with phase := if a.phase = .asleep then .awake else a.phase }

@[simp] theorem Active.rouse_call (a : Active κ) : a.rouse.call = a.call := rfl
@[simp] theorem Active.rouse_rung (a : Active κ) : a.rouse.rung = a.rung := rfl
@[simp] theorem Active.rouse_stopped (a : Active κ) : a.rouse.stopped = a.stopped := rfl
@[simp] theorem Active.rouse_aborted (a : Active κ) : a.rouse.aborted = a.aborted := rfl

theorem Active.rouse_ne_asleep (a : Active κ) : a.rouse.phase ≠ .asleep := by
  unfold Active.rouse
  split
  · simp
  · assumption

section Steps

variable [DecidableEq κ] (M : Masks w)

def Active.mark (a : Active κ) (o : Option κ) (bits : BitVec w) : Active κ :=
  { a with
    stopped := a.stopped || (decide (o = some a.call) && decide (bits &&& M.stop ≠ 0#w))
    aborted := a.aborted || (decide (o = some a.call) && decide (bits &&& M.abort ≠ 0#w)) }

def Fresh (v : Cell κ w) (c : κ) : Prop :=
  (∀ e ∈ v.status, e.origin ≠ some c) ∧
    ∀ h, v.held = some h → ∀ e ∈ h.status, e.origin ≠ some c

inductive Step : Cell κ w → Event κ w → Cell κ w → Prop
  | other {v : Cell κ w} : Step v .other v
  | arm {v : Cell κ w} {c : κ} {b : Bool} :
      v.call = none → Fresh v c →
      Step v (.arm c b)
        { v with running := true, call := some ⟨c, b, .armed, false, false, false⟩ }
  | refuse {v : Cell κ w} {a : Active κ} :
      v.call = some a → a.phase = .armed → Step v .refuse { v with call := none }
  | ring {v : Cell κ w} {a : Active κ} :
      v.call = some a → a.phase = .armed →
      Step v .ring { v with call := some { a with phase := .awake, rung := a.rings } }
  | sleep {v : Cell κ w} {a : Active κ} :
      v.call = some a → a.phase = .awake → v.running = true →
      Step v .sleep { v with call := some { a with phase := .asleep } }
  | rouse {v : Cell κ w} {a : Active κ} :
      v.call = some a → a.phase = .asleep →
      Step v .rouse { v with call := some { a with phase := .awake } }
  | complete {v : Cell κ w} {a : Active κ} :
      v.call = some a → a.phase = .awake → v.running = false →
      Step v .complete { v with call := none }
  | cut {v : Cell κ w} {a : Active κ} {ok : Bool} :
      v.call = some a → a.phase = .awake → v.running = true →
      Step v (.cut ok) { v with call := none }
  | raise {v : Cell κ w} {o : Option κ} {bits : BitVec w} :
      (∀ a, v.call = some a → o = some a.call → a.rung = true) →
      Step v (.raise o bits)
        { v with
          status := v.status.raise o bits
          call := v.call.map fun a => a.mark M o bits }
  | read {v : Cell κ w} {b : Bool} :
      v.held = none → v.status.value &&& M.event ≠ 0#w →
      Step v (.read b) { v with held := some ⟨.store, b, v.status⟩ }
  | store {v : Cell κ w} {b : Bool} {st : Sticky (Option κ) w} :
      v.held = some ⟨.store, b, st⟩ →
      Step v .store
        { v with running := false, credit := st, owed := true, held := some ⟨.clear, b, st⟩ }
  | clear {v : Cell κ w} {b : Bool} {st : Sticky (Option κ) w} :
      v.held = some ⟨.clear, b, st⟩ →
      Step v .clear
        { v with status := v.status.clear st.value, held := some ⟨.wake, b, st⟩ }
  | wake {v : Cell κ w} {b : Bool} {st : Sticky (Option κ) w} :
      v.held = some ⟨.wake, b, st⟩ →
      Step v .wake
        { v with
          held := none
          owed := if b then false else v.owed
          call := if b then v.call.map Active.rouse else v.call }

variable {M}

@[simp] theorem Active.mark_call (a : Active κ) (o : Option κ) (bits : BitVec w) :
    (a.mark M o bits).call = a.call := rfl
@[simp] theorem Active.mark_phase (a : Active κ) (o : Option κ) (bits : BitVec w) :
    (a.mark M o bits).phase = a.phase := rfl
@[simp] theorem Active.mark_rung (a : Active κ) (o : Option κ) (bits : BitVec w) :
    (a.mark M o bits).rung = a.rung := rfl

theorem Active.mark_ne {a : Active κ} {o : Option κ} {bits : BitVec w}
    (h : o ≠ some a.call) : a.mark M o bits = a := by
  simp [Active.mark, h]

theorem Active.mark_stopped {a : Active κ} {o : Option κ} {bits : BitVec w} :
    (a.mark M o bits).stopped = true ↔
      a.stopped = true ∨ o = some a.call ∧ bits &&& M.stop ≠ 0#w := by
  simp [Active.mark]

theorem Active.mark_aborted {a : Active κ} {o : Option κ} {bits : BitVec w} :
    (a.mark M o bits).aborted = true ↔
      a.aborted = true ∨ o = some a.call ∧ bits &&& M.abort ≠ 0#w := by
  simp [Active.mark]

end Steps

variable {M : Masks w}

/-! ## Whose completion it is -/

/-- No stale status when a call arms, and no late raise during a call. -/
def Quiet (M : Masks w) (v : Cell κ w) : Event κ w → Prop
  | .arm _ _ => v.status.value &&& M.event = 0#w ∧ ∀ b st, v.held ≠ some ⟨.store, b, st⟩
  | .raise o bits => bits &&& M.event ≠ 0#w → ∀ a, v.call = some a → o = some a.call
  | _ => True

/-- Every event bit of the status was raised for `c`. -/
def OnlyFor (M : Masks w) (c : κ) (st : Sticky (Option κ) w) : Prop :=
  ∀ e ∈ st, e.bits &&& M.event ≠ 0#w → e.origin = some c

structure Credited (M : Masks w) (v : Cell κ w) : Prop where
  heldEvent : ∀ h, v.held = some h → h.status.value &&& M.event ≠ 0#w
  pending : ∀ a, v.call = some a → OnlyFor M a.call v.status
  toStore : ∀ a, v.call = some a → ∀ b st, v.held = some ⟨.store, b, st⟩ → OnlyFor M a.call st
  stored : ∀ a, v.call = some a → v.running = false →
    v.credit.value &&& M.event ≠ 0#w ∧ OnlyFor M a.call v.credit

theorem OnlyFor.raise {c : κ} {st : Sticky (Option κ) w} {o : Option κ} {bits : BitVec w}
    (h : OnlyFor M c st) (ho : bits &&& M.event ≠ 0#w → o = some c) :
    OnlyFor M c (st.raise o bits) := by
  intro e he hbits
  rcases List.mem_cons.mp he with rfl | he
  · exact ho hbits
  · exact h e he hbits

theorem OnlyFor.clear {c : κ} {st : Sticky (Option κ) w} (h : OnlyFor M c st)
    (mask : BitVec w) : OnlyFor M c (st.clear mask) := by
  intro e he hbits
  obtain ⟨e₀, he₀, ho, hne⟩ := Sticky.bits_of_mem_clear he hbits
  rw [← ho]
  exact h e₀ he₀ hne

theorem OnlyFor.of_quiet {c : κ} {st : Sticky (Option κ) w}
    (h : st.value &&& M.event = 0#w) : OnlyFor M c st := by
  intro e he hbits
  exact absurd ((Sticky.value_and_eq_zero_iff st M.event).mp h e he) hbits

theorem Credited.idle {v : Cell κ w} (h : v.Idle) : Credited M v :=
  ⟨by simp [h.held], by simp [h.call], by simp [h.call], by simp [h.call]⟩

theorem Credited.of_call {v : Cell κ w} (hv : Credited M v) {call : Option (Active κ)}
    (hcall : ∀ a', call = some a' → ∃ a, v.call = some a ∧ a'.call = a.call) :
    Credited M { v with call := call } where
  heldEvent := hv.heldEvent
  pending a' ha' := by
    obtain ⟨a, ha, heq⟩ := hcall a' ha'
    rw [heq]
    exact hv.pending a ha
  toStore a' ha' := by
    obtain ⟨a, ha, heq⟩ := hcall a' ha'
    rw [heq]
    exact hv.toStore a ha
  stored a' ha' := by
    obtain ⟨a, ha, heq⟩ := hcall a' ha'
    rw [heq]
    exact hv.stored a ha

theorem Credited.step [DecidableEq κ] {v v' : Cell κ w} {e : Event κ w} (hv : Credited M v)
    (hg : Quiet M v e) (h : Step M v e v') : Credited M v' := by
  cases h with
  | other => exact hv
  | arm _ _ =>
      obtain ⟨hquiet, hstore⟩ := hg
      refine ⟨hv.heldEvent, fun a ha => ?_, fun a ha b st hst => ?_, fun a ha hrun => ?_⟩
      · exact OnlyFor.of_quiet hquiet
      · exact absurd hst (hstore b st)
      · cases hrun
  | refuse hc _ => exact hv.of_call fun a' ha' => by cases ha'
  | ring hc _ =>
      refine hv.of_call fun a' ha' => ?_
      simp only [Option.some.injEq] at ha'
      exact ⟨_, hc, by rw [← ha']⟩
  | sleep hc _ _ =>
      refine hv.of_call fun a' ha' => ?_
      simp only [Option.some.injEq] at ha'
      exact ⟨_, hc, by rw [← ha']⟩
  | rouse hc _ =>
      refine hv.of_call fun a' ha' => ?_
      simp only [Option.some.injEq] at ha'
      exact ⟨_, hc, by rw [← ha']⟩
  | complete _ _ _ => exact hv.of_call fun a' ha' => by cases ha'
  | cut _ _ _ => exact hv.of_call fun a' ha' => by cases ha'
  | @raise o bits _ =>
      have hsame : ∀ a', v.call.map (fun a => a.mark M o bits) = some a' →
          ∃ a, v.call = some a ∧ a'.call = a.call := by
        intro a' ha'
        obtain ⟨a, ha, rfl⟩ := Option.map_eq_some_iff.mp ha'
        exact ⟨a, ha, rfl⟩
      have hmarked := hv.of_call hsame
      refine ⟨hmarked.heldEvent, fun a' ha' => ?_, hmarked.toStore, hmarked.stored⟩
      obtain ⟨a, ha, heq⟩ := hsame a' ha'
      rw [heq]
      exact (hv.pending a ha).raise fun hbits => hg hbits a ha
  | @read b hnone hevent =>
      refine ⟨fun h hh => ?_, hv.pending, fun a ha b' st hst => ?_, hv.stored⟩
      · simp only [Option.some.injEq] at hh
        subst hh
        exact hevent
      · simp only [Option.some.injEq, Held.mk.injEq] at hst
        rw [← hst.2.2]
        exact hv.pending a ha
  | @store b st hheld =>
      have hevent := hv.heldEvent _ hheld
      refine ⟨fun h hh => ?_, hv.pending, fun a ha b' st' hst => ?_, fun a ha _ => ?_⟩
      · simp only [Option.some.injEq] at hh
        subst hh
        exact hevent
      · simp at hst
      · exact ⟨hevent, hv.toStore a ha b st hheld⟩
  | @clear b st hheld =>
      have hevent := hv.heldEvent _ hheld
      refine ⟨fun h hh => ?_, fun a ha => ?_, fun a ha b' st' hst => ?_, hv.stored⟩
      · simp only [Option.some.injEq] at hh
        subst hh
        exact hevent
      · exact (hv.pending a ha).clear _
      · simp at hst
  | @wake b st hheld =>
      have hsame : ∀ a', (if b then v.call.map Active.rouse else v.call) = some a' →
          ∃ a, v.call = some a ∧ a'.call = a.call := by
        intro a' ha'
        cases b
        · exact ⟨a', ha', rfl⟩
        · obtain ⟨a, ha, rfl⟩ := Option.map_eq_some_iff.mp ha'
          exact ⟨a, ha, rfl⟩
      have hmarked := hv.of_call hsame
      refine ⟨fun h hh => ?_, hmarked.pending, fun a ha b' st' hst => ?_, hmarked.stored⟩
      · cases hh
      · cases hst

/-! ## No completion lost -/

def HasStopOf (M : Masks w) (c : κ) (st : Sticky (Option κ) w) : Prop :=
  ∃ e ∈ st, e.origin = some c ∧ e.bits &&& M.stop ≠ 0#w

/-- The device raises a stop for the call in progress between the server's read of
a stop and its clear only if that read has a stop of the same call. -/
def Unserved (M : Masks w) (v : Cell κ w) : Event κ w → Prop
  | .raise o bits => bits &&& M.stop ≠ 0#w → ∀ a, v.call = some a → o = some a.call →
      ∀ h, v.held = some h → h.place ≠ .wake → h.status.value &&& M.stop ≠ 0#w →
        HasStopOf M a.call h.status
  | _ => True

structure Kept (M : Masks w) (v : Cell κ w) : Prop where
  shown : ∀ a, v.call = some a → a.stopped = true →
    v.status.value &&& M.stop ≠ 0#w ∨ v.running = false
  stored : ∀ a b st, v.call = some a → v.held = some ⟨.clear, b, st⟩ →
    HasStopOf M a.call st → v.running = false
  served : ∀ a b st, v.call = some a → a.stopped = true →
    v.held = some ⟨.clear, b, st⟩ → st.value &&& M.stop ≠ 0#w → v.running = false
  read : ∀ a p b st, v.call = some a → v.held = some ⟨p, b, st⟩ → p ≠ .wake →
    st.value &&& M.stop ≠ 0#w → HasStopOf M a.call v.status → HasStopOf M a.call st

theorem Kept.idle {v : Cell κ w} (h : v.Idle) : Kept M v :=
  ⟨by simp [h.call], by simp [h.call], by simp [h.call], by simp [h.call]⟩

theorem Kept.of_call {v : Cell κ w} (hv : Kept M v) {call : Option (Active κ)}
    (hcall : ∀ a', call = some a' →
      ∃ a, v.call = some a ∧ a'.call = a.call ∧ a'.stopped = a.stopped) :
    Kept M { v with call := call } where
  shown a' ha' hs := by
    obtain ⟨a, ha, _, hstop⟩ := hcall a' ha'
    exact hv.shown a ha (hstop ▸ hs)
  stored a' b st ha' := by
    obtain ⟨a, ha, heq, _⟩ := hcall a' ha'
    rw [heq]
    exact hv.stored a b st ha
  served a' b st ha' hs := by
    obtain ⟨a, ha, _, hstop⟩ := hcall a' ha'
    exact hv.served a b st ha (hstop ▸ hs)
  read a' p b st ha' := by
    obtain ⟨a, ha, heq, _⟩ := hcall a' ha'
    rw [heq]
    exact hv.read a p b st ha

theorem Fresh.no_stop {v : Cell κ w} {c : κ} (h : Fresh v c) :
    ¬ HasStopOf M c v.status ∧ ∀ hd, v.held = some hd → ¬ HasStopOf M c hd.status := by
  refine ⟨?_, fun hd hh => ?_⟩
  · rintro ⟨e, he, ho, _⟩
    exact h.1 e he ho
  · rintro ⟨e, he, ho, _⟩
    exact h.2 hd hh e he ho

theorem Kept.arm {v : Cell κ w} {c : κ} (hfresh : Fresh v c) (b : Bool) :
    Kept M { v with running := true, call := some ⟨c, b, .armed, false, false, false⟩ } where
  shown a ha hs := by
    simp only [Option.some.injEq] at ha
    subst ha
    cases hs
  stored a b st ha hheld hstop := by
    simp only [Option.some.injEq] at ha
    subst ha
    exact absurd hstop (hfresh.no_stop.2 _ hheld)
  served a b st ha hs := by
    simp only [Option.some.injEq] at ha
    subst ha
    cases hs
  read a p b st ha hheld hp hst hstop := by
    simp only [Option.some.injEq] at ha
    subst ha
    exact absurd hstop hfresh.no_stop.1

theorem Kept.raise [DecidableEq κ] {v : Cell κ w} (hv : Kept M v) {o : Option κ}
    {bits : BitVec w} (hg : Unserved M v (.raise o bits)) :
    Kept M { v with
      status := v.status.raise o bits
      call := v.call.map fun a => a.mark M o bits } where
  shown a' ha' hs := by
    obtain ⟨a, ha, rfl⟩ := Option.map_eq_some_iff.mp ha'
    rcases Active.mark_stopped.mp hs with hold | ⟨_, hbits⟩
    · rcases hv.shown a ha hold with hshown | hrun
      · obtain ⟨e, he, hbits⟩ := Sticky.value_and_ne_zero_iff.mp hshown
        exact Or.inl
          (Sticky.value_and_ne_zero_iff.mpr ⟨e, List.mem_cons_of_mem _ he, hbits⟩)
      · exact Or.inr hrun
    · exact Or.inl
        (Sticky.value_and_ne_zero_iff.mpr ⟨⟨o, bits⟩, List.mem_cons_self, hbits⟩)
  stored a' b st ha' := by
    obtain ⟨a, ha, rfl⟩ := Option.map_eq_some_iff.mp ha'
    exact hv.stored a b st ha
  served a' b st ha' hs hheld hst := by
    obtain ⟨a, ha, rfl⟩ := Option.map_eq_some_iff.mp ha'
    rcases Active.mark_stopped.mp hs with hold | ⟨ho, hbits⟩
    · exact hv.served a b st ha hold hheld hst
    · exact hv.stored a b st ha hheld (hg hbits a ha ho _ hheld (by simp) hst)
  read a' p b st ha' hheld hp hst hstop := by
    obtain ⟨a, ha, rfl⟩ := Option.map_eq_some_iff.mp ha'
    obtain ⟨e, he, ho, hbits⟩ := hstop
    rcases List.mem_cons.mp he with rfl | he
    · exact hg hbits a ha ho _ hheld hp hst
    · exact hv.read a p b st ha hheld hp hst ⟨e, he, ho, hbits⟩

theorem Kept.step [DecidableEq κ] {v v' : Cell κ w} {e : Event κ w} (hv : Kept M v)
    (hg : Unserved M v e) (h : Step M v e v') : Kept M v' := by
  cases h with
  | other => exact hv
  | arm _ hfresh => exact .arm hfresh _
  | refuse _ _ => exact hv.of_call fun a' ha' => by cases ha'
  | ring hc _ =>
      refine hv.of_call fun a' ha' => ?_
      simp only [Option.some.injEq] at ha'
      subst ha'
      exact ⟨_, hc, rfl, rfl⟩
  | sleep hc _ _ =>
      refine hv.of_call fun a' ha' => ?_
      simp only [Option.some.injEq] at ha'
      subst ha'
      exact ⟨_, hc, rfl, rfl⟩
  | rouse hc _ =>
      refine hv.of_call fun a' ha' => ?_
      simp only [Option.some.injEq] at ha'
      subst ha'
      exact ⟨_, hc, rfl, rfl⟩
  | complete _ _ _ => exact hv.of_call fun a' ha' => by cases ha'
  | cut _ _ _ => exact hv.of_call fun a' ha' => by cases ha'
  | raise _ => exact hv.raise hg
  | @read b _ _ =>
      refine ⟨hv.shown, fun a b' st _ hheld => ?_, fun a b' st _ _ hheld => ?_,
        fun a p b' st _ hheld _ _ hstop => ?_⟩
      · simp at hheld
      · simp at hheld
      · simp only [Option.some.injEq, Held.mk.injEq] at hheld
        rw [← hheld.2.2]
        exact hstop
  | @store b st hheld =>
      refine ⟨fun _ _ _ => Or.inr rfl, fun _ _ _ _ _ _ => rfl, fun _ _ _ _ _ _ _ => rfl,
        fun a p b' st' ha hh hp hst => ?_⟩
      simp only [Option.some.injEq, Held.mk.injEq] at hh
      rw [← hh.2.2] at hst ⊢
      exact hv.read a .store b st ha hheld (by simp) hst
  | @clear b st hheld =>
      refine ⟨fun a ha hs => ?_, fun a b' st' _ hh => ?_, fun a b' st' _ _ hh => ?_,
        fun a p b' st' _ hh hp => ?_⟩
      · by_cases hst : st.value &&& M.stop = 0#w
        · rcases hv.shown a ha hs with hshown | hrun
          · exact Or.inl (by rw [Sticky.value_clear_and hst]; exact hshown)
          · exact Or.inr hrun
        · exact Or.inr (hv.served a b st ha hs hheld hst)
      · simp at hh
      · simp at hh
      · simp only [Option.some.injEq, Held.mk.injEq] at hh
        exact absurd hh.1.symm hp
  | @wake b st _ =>
      have hroused : Kept M { v with call := if b then v.call.map Active.rouse else v.call } := by
        refine hv.of_call fun a' ha' => ?_
        cases b
        · exact ⟨a', ha', rfl, rfl⟩
        · obtain ⟨a, ha, rfl⟩ := Option.map_eq_some_iff.mp ha'
          exact ⟨a, ha, rfl, rfl⟩
      refine ⟨hroused.shown, fun a b' st' _ hh => ?_, fun a b' st' _ _ hh => ?_,
        fun a p b' st' _ hh => ?_⟩
      · cases hh
      · cases hh
      · cases hh

/-! ## No aborted call completed -/

def Active.AbortedOnly (a : Active κ) : Prop := a.aborted = true ∧ a.stopped = false

/-- Every status read has the stop bit, and a call aborted without stop meets
neither a completion of another status nor a signal. -/
def StopOnly (M : Masks w) (v : Cell κ w) : Event κ w → Prop
  | .read _ => v.status.value &&& M.stop ≠ 0#w ∧ ∀ a, v.call = some a → ¬ a.AbortedOnly
  | .raise o bits => ∀ a, v.call = some a → o = some a.call → bits &&& M.abort ≠ 0#w →
      bits &&& M.stop = 0#w → a.stopped = false →
      v.running = true ∧ ∀ b st, v.held ≠ some ⟨.store, b, st⟩
  | .cut ok => ok = true → ∀ a, v.call = some a → ¬ a.AbortedOnly
  | _ => True

structure Sound (M : Masks w) (v : Cell κ w) : Prop where
  heldStop : ∀ h, v.held = some h → h.status.value &&& M.stop ≠ 0#w
  aborted : ∀ a, v.call = some a → a.AbortedOnly →
    v.running = true ∧ ∀ b st, v.held ≠ some ⟨.store, b, st⟩

theorem Sound.idle {v : Cell κ w} (h : v.Idle) : Sound M v :=
  ⟨by simp [h.held], by simp [h.call]⟩

theorem Sound.of_call {v : Cell κ w} (hv : Sound M v) {call : Option (Active κ)}
    (hcall : ∀ a', call = some a' → a'.AbortedOnly → ∃ a, v.call = some a ∧ a.AbortedOnly) :
    Sound M { v with call := call } where
  heldStop := hv.heldStop
  aborted a' ha' hab := by
    obtain ⟨a, ha, hab⟩ := hcall a' ha' hab
    exact hv.aborted a ha hab

theorem Sound.step [DecidableEq κ] {v v' : Cell κ w} {e : Event κ w} (hv : Sound M v)
    (hg : StopOnly M v e) (h : Step M v e v') : Sound M v' := by
  cases h with
  | other => exact hv
  | @arm c b hnone _ =>
      refine ⟨hv.heldStop, fun a ha hab => ?_⟩
      simp only [Option.some.injEq] at ha
      subst ha
      cases hab.1
  | refuse _ _ => exact hv.of_call fun a' ha' => by cases ha'
  | ring hc _ =>
      refine hv.of_call fun a' ha' hab => ?_
      simp only [Option.some.injEq] at ha'
      subst ha'
      exact ⟨_, hc, hab⟩
  | sleep hc _ _ =>
      refine hv.of_call fun a' ha' hab => ?_
      simp only [Option.some.injEq] at ha'
      subst ha'
      exact ⟨_, hc, hab⟩
  | rouse hc _ =>
      refine hv.of_call fun a' ha' hab => ?_
      simp only [Option.some.injEq] at ha'
      subst ha'
      exact ⟨_, hc, hab⟩
  | complete _ _ _ => exact hv.of_call fun a' ha' => by cases ha'
  | cut _ _ _ => exact hv.of_call fun a' ha' => by cases ha'
  | @raise o bits _ =>
      refine ⟨hv.heldStop, fun a' ha' hab => ?_⟩
      obtain ⟨a, ha, rfl⟩ := Option.map_eq_some_iff.mp ha'
      obtain ⟨haborted, hstopped⟩ := hab
      have hnot : ¬ (a.stopped = true ∨ o = some a.call ∧ bits &&& M.stop ≠ 0#w) := by
        rw [← Active.mark_stopped, hstopped]
        exact Bool.false_ne_true
      push Not at hnot
      have hold : a.stopped = false := by simpa using hnot.1
      rcases Active.mark_aborted.mp haborted with habort | ⟨ho, habort⟩
      · exact hv.aborted a ha ⟨habort, hold⟩
      · exact hg a ha ho habort (hnot.2 ho) hold
  | @read b _ _ =>
      refine ⟨fun h hh => ?_, fun a ha hab => absurd hab (hg.2 a ha)⟩
      simp only [Option.some.injEq] at hh
      subst hh
      exact hg.1
  | @store b st hheld =>
      have hstop := hv.heldStop _ hheld
      refine ⟨fun h hh => ?_, fun a ha hab => ?_⟩
      · simp only [Option.some.injEq] at hh
        subst hh
        exact hstop
      · exact absurd hheld ((hv.aborted a ha hab).2 b st)
  | @clear b st hheld =>
      have hstop := hv.heldStop _ hheld
      refine ⟨fun h hh => ?_, fun a ha hab => ⟨(hv.aborted a ha hab).1, fun b' st' hh => ?_⟩⟩
      · simp only [Option.some.injEq] at hh
        subst hh
        exact hstop
      · simp at hh
  | @wake b st _ =>
      refine ⟨fun h hh => ?_, fun a' ha' hab => ⟨?_, fun b' st' hh => ?_⟩⟩
      · cases hh
      · cases b
        · exact (hv.aborted a' ha' hab).1
        · obtain ⟨a, ha, rfl⟩ := Option.map_eq_some_iff.mp ha'
          exact (hv.aborted a ha hab).1
      · cases hh

/-! ## No lost wake-up -/

/-- A status is read only where the server will wake for it. -/
def Waking (_ : Cell κ w) : Event κ w → Prop
  | .read b => b = true
  | _ => True

def WillWake (v : Cell κ w) : Prop :=
  ∃ h, v.held = some h ∧ h.wakes = true ∧ h.place ≠ .store

structure Roused (v : Cell κ w) : Prop where
  heldWakes : ∀ h, v.held = some h → h.wakes = true
  asleep : ∀ a, v.call = some a → a.phase = .asleep → v.running = false → WillWake v
  owed : v.owed = true → WillWake v

theorem Roused.idle {v : Cell κ w} (h : v.Idle) : Roused v :=
  ⟨by simp [h.held], by simp [h.call], by simp [h.owed]⟩

theorem Roused.of_call {v : Cell κ w} (hv : Roused v) {call : Option (Active κ)}
    (hcall : ∀ a', call = some a' → a'.phase = .asleep → v.running = false →
      ∃ a, v.call = some a ∧ a.phase = .asleep) : Roused { v with call := call } where
  heldWakes := hv.heldWakes
  asleep a' ha' hsleep hrun := by
    obtain ⟨a, ha, hs⟩ := hcall a' ha' hsleep hrun
    exact hv.asleep a ha hs hrun
  owed := hv.owed

theorem Roused.step [DecidableEq κ] {v v' : Cell κ w} {e : Event κ w} (hv : Roused v)
    (hg : Waking v e) (h : Step M v e v') : Roused v' := by
  cases h with
  | other => exact hv
  | arm _ _ => exact ⟨hv.heldWakes, fun a _ _ hrun => (by cases hrun), hv.owed⟩
  | refuse _ _ => exact hv.of_call fun a' ha' => by cases ha'
  | ring _ _ =>
      refine hv.of_call fun a' ha' hsleep => ?_
      simp only [Option.some.injEq] at ha'
      subst ha'
      cases hsleep
  | sleep _ _ hrunning =>
      refine hv.of_call fun a' _ _ hrun => ?_
      rw [hrunning] at hrun
      cases hrun
  | rouse _ _ =>
      refine hv.of_call fun a' ha' hsleep => ?_
      simp only [Option.some.injEq] at ha'
      subst ha'
      cases hsleep
  | complete _ _ _ => exact hv.of_call fun a' ha' => by cases ha'
  | cut _ _ _ => exact hv.of_call fun a' ha' => by cases ha'
  | @raise o bits _ =>
      have hmarked : Roused { v with call := v.call.map fun a => a.mark M o bits } := by
        refine hv.of_call fun a' ha' hsleep _ => ?_
        obtain ⟨a, ha, rfl⟩ := Option.map_eq_some_iff.mp ha'
        exact ⟨a, ha, hsleep⟩
      exact ⟨hmarked.heldWakes, hmarked.asleep, hmarked.owed⟩
  | @read b hnone _ =>
      have hno : ¬ WillWake v := by
        rintro ⟨h, hh, _⟩
        rw [hnone] at hh
        cases hh
      refine ⟨fun h hh => ?_, fun a ha hs hrun => ?_, fun ho => ?_⟩
      · simp only [Option.some.injEq] at hh
        subst hh
        exact hg
      · exact absurd (hv.asleep a ha hs hrun) hno
      · exact absurd (hv.owed ho) hno
  | @store b st hheld =>
      have hwakes := hv.heldWakes _ hheld
      have hwill : WillWake
          { v with running := false, credit := st, owed := true, held := some ⟨.clear, b, st⟩ } :=
        ⟨_, rfl, hwakes, by simp⟩
      refine ⟨fun h hh => ?_, fun _ _ _ _ => hwill, fun _ => hwill⟩
      simp only [Option.some.injEq] at hh
      subst hh
      exact hwakes
  | @clear b st hheld =>
      have hwakes := hv.heldWakes _ hheld
      have hwill : WillWake
          { v with status := v.status.clear st.value, held := some ⟨.wake, b, st⟩ } :=
        ⟨_, rfl, hwakes, by simp⟩
      refine ⟨fun h hh => ?_, fun _ _ _ _ => hwill, fun _ => hwill⟩
      simp only [Option.some.injEq] at hh
      subst hh
      exact hwakes
  | @wake b st hheld =>
      have hwakes : b = true := hv.heldWakes _ hheld
      subst hwakes
      refine ⟨fun h hh => ?_, fun a' ha' hs _ => ?_, fun ho => ?_⟩
      · cases hh
      · obtain ⟨a, _, rfl⟩ := Option.map_eq_some_iff.mp ha'
        exact absurd hs a.rouse_ne_asleep
      · cases ho

/-! ## Every doorbell answered -/

def Active.Finished (a : Active κ) : Prop := a.stopped = true ∨ a.aborted = true

/-- No wait is cut short, and no completion stored, before the doorbell of the
call is answered. -/
def Timely (v : Cell κ w) : Event κ w → Prop
  | .store => ∀ a, v.call = some a → a.rings = true → a.Finished
  | .cut _ => ∀ a, v.call = some a → a.rung = true → a.Finished
  | _ => True

structure Answered (v : Cell κ w) : Prop where
  rings : ∀ a, v.call = some a → a.rung = true → a.rings = true
  finished : ∀ a, v.call = some a → a.rings = true → v.running = false → a.Finished

theorem Answered.idle {v : Cell κ w} (h : v.Idle) : Answered v :=
  ⟨by simp [h.call], by simp [h.call]⟩

theorem Active.Finished.mark [DecidableEq κ] {a : Active κ} (h : a.Finished) (o : Option κ)
    (bits : BitVec w) : (a.mark M o bits).Finished := by
  rcases h with h | h
  · exact Or.inl (Active.mark_stopped.mpr (Or.inl h))
  · exact Or.inr (Active.mark_aborted.mpr (Or.inl h))

theorem Answered.of_call {v : Cell κ w} (hv : Answered v) {call : Option (Active κ)}
    (hcall : ∀ a', call = some a' → ∃ a, v.call = some a ∧ a'.rings = a.rings ∧
      (a'.rung = true → a.rung = true ∨ a.rings = true) ∧ (a.Finished → a'.Finished)) :
    Answered { v with call := call } where
  rings a' ha' hr := by
    obtain ⟨a, ha, heq, hrung, _⟩ := hcall a' ha'
    rw [heq]
    rcases hrung hr with h | h
    · exact hv.rings a ha h
    · exact h
  finished a' ha' hr hrun := by
    obtain ⟨a, ha, heq, _, hfin⟩ := hcall a' ha'
    exact hfin (hv.finished a ha (heq ▸ hr) hrun)

theorem Answered.step [DecidableEq κ] {v v' : Cell κ w} {e : Event κ w} (hv : Answered v)
    (hg : Timely v e) (h : Step M v e v') : Answered v' := by
  cases h with
  | other => exact hv
  | arm _ _ =>
      refine ⟨fun a ha hr => ?_, fun a _ _ hrun => ?_⟩
      · simp only [Option.some.injEq] at ha
        subst ha
        cases hr
      · cases hrun
  | refuse _ _ => exact hv.of_call fun a' ha' => by cases ha'
  | ring hc _ =>
      refine hv.of_call fun a' ha' => ?_
      simp only [Option.some.injEq] at ha'
      subst ha'
      exact ⟨_, hc, rfl, Or.inr, id⟩
  | sleep hc _ _ =>
      refine hv.of_call fun a' ha' => ?_
      simp only [Option.some.injEq] at ha'
      subst ha'
      exact ⟨_, hc, rfl, Or.inl, id⟩
  | rouse hc _ =>
      refine hv.of_call fun a' ha' => ?_
      simp only [Option.some.injEq] at ha'
      subst ha'
      exact ⟨_, hc, rfl, Or.inl, id⟩
  | complete _ _ _ => exact hv.of_call fun a' ha' => by cases ha'
  | cut _ _ _ => exact hv.of_call fun a' ha' => by cases ha'
  | @raise o bits _ =>
      have hmarked : Answered { v with call := v.call.map fun a => a.mark M o bits } := by
        refine hv.of_call fun a' ha' => ?_
        obtain ⟨a, ha, rfl⟩ := Option.map_eq_some_iff.mp ha'
        exact ⟨a, ha, rfl, Or.inl, fun h => h.mark o bits⟩
      exact ⟨hmarked.rings, hmarked.finished⟩
  | read _ _ => exact ⟨hv.rings, hv.finished⟩
  | store _ => exact ⟨hv.rings, fun a ha hr _ => hg a ha hr⟩
  | clear _ => exact ⟨hv.rings, hv.finished⟩
  | @wake b st _ =>
      have hroused : Answered { v with call := if b then v.call.map Active.rouse else v.call } := by
        refine hv.of_call fun a' ha' => ?_
        cases b
        · exact ⟨a', ha', rfl, Or.inl, id⟩
        · obtain ⟨a, ha, rfl⟩ := Option.map_eq_some_iff.mp ha'
          exact ⟨a, ha, rfl, Or.inl, id⟩
      exact ⟨hroused.rings, hroused.finished⟩

end Doorbell

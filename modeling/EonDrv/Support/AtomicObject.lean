import EonDrv.Support.StepSystem

/-!
# Atomic objects

An object that clients call at most once each, every call in one step, next to events of
the object itself.  A system whose steps each commit one call, or let the object move, or
do neither as far as a view of its state shows, refines the object.
-/

structure AtomicObject (δ ω ρ β : Type*) where
  apply : ω → δ → ρ × δ
  event : β → δ → δ

namespace AtomicObject

variable {κ δ ω ρ β : Type*} [DecidableEq κ]

/-- The object, and what the calls made so far returned. -/
structure State (κ δ ρ : Type*) where
  obj : δ
  result : κ → Option ρ

inductive Action (κ β : Type*)
  | call (k : κ)
  | event (b : β)

variable (X : AtomicObject δ ω ρ β) (op : κ → Option ω)

def commit (k : κ) (o : ω) (s : State κ δ ρ) : State κ δ ρ :=
  ⟨(X.apply o s.obj).2, Function.update s.result k (some (X.apply o s.obj).1)⟩

def step (s : State κ δ ρ) : Action κ β → Option (State κ δ ρ)
  | .call k =>
    match s.result k, op k with
    | none, some o => some (X.commit k o s)
    | _, _ => none
  | .event b => some { s with obj := X.event b s.obj }

def system (start : δ → Prop) : StepSystem (State κ δ ρ) (Action κ β) where
  init s := start s.obj ∧ ∀ k, s.result k = none
  step := X.step op

/-- What one step of an implementation does to the object it shows. -/
inductive Shows (v v' : State κ δ ρ) : Prop
  | nothing : v' = v → Shows v v'
  | event (b : β) : v' = { v with obj := X.event b v.obj } → Shows v v'
  | commit (k : κ) (o : ω) : op k = some o → v.result k = none → v' = X.commit k o v → Shows v v'

/-- An implementation whose steps all show one of these refines the object. -/
theorem refines {σ α : Type*} {S : StepSystem σ α} {start : δ → Prop} {J : σ → Prop}
    (view : σ → State κ δ ρ) (hJ : ∀ s, S.Reachable s → J s)
    (h0 : ∀ s, S.init s → (X.system op start).init (view s))
    (hstep : ∀ s a t, J s → S.step s a = some t → X.Shows op (view s) (view t)) {s : σ}
    (h : S.Reachable s) : (X.system op start).Reachable (view s) := by
  refine StepSystem.ReachVia.invariant_of (I := fun s => (X.system op start).Reachable (view s))
    hJ (fun s hi => .start (h0 s hi)) (fun s a t hj hs _ hst => ?_) h
  rcases hstep s a t hj hst with hsame | ⟨b, hev⟩ | ⟨k, o, hop, hnone, hcommit⟩
  · rwa [hsame]
  · rw [hev]
    exact hs.next (a := .event b) trivial rfl
  · rw [hcommit]
    refine hs.next (a := .call k) trivial ?_
    show X.step op (view s) (.call k) = _
    simp only [step, hnone, hop]

end AtomicObject

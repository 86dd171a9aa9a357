import Mathlib.Logic.Function.Basic

/-!
# Lock ownership

Clients hold locks while they are inside sections of their code.  `owner` is what
the locks record and `inside` what the places of the clients say.  A step takes a
free lock on entering a section, releases it on leaving, or moves neither, and so
the two always agree.
-/

namespace Locks

variable {κ ℓ : Type*}

/-- A lock is held by a client exactly when the client is inside its section. -/
def Owned (owner : ℓ → Option κ) (inside : κ → Option ℓ) : Prop :=
  ∀ k l, inside k = some l ↔ owner l = some k

inductive Move (owner : ℓ → Option κ) (inside : κ → Option ℓ) (owner' : ℓ → Option κ)
    (inside' : κ → Option ℓ) : Prop
  | same : (∀ k, inside' k = inside k) → (∀ l, owner' l = owner l) →
      Move owner inside owner' inside'
  | take (k : κ) (l : ℓ) :
      inside k = none → owner l = none → inside' k = some l → owner' l = some k →
      (∀ k', k' ≠ k → inside' k' = inside k') → (∀ l', l' ≠ l → owner' l' = owner l') →
      Move owner inside owner' inside'
  | release (k : κ) (l : ℓ) :
      inside k = some l → inside' k = none → owner' l = none →
      (∀ k', k' ≠ k → inside' k' = inside k') → (∀ l', l' ≠ l → owner' l' = owner l') →
      Move owner inside owner' inside'

variable {owner owner' : ℓ → Option κ} {inside inside' : κ → Option ℓ}

theorem Owned.none (hi : ∀ k, inside k = none) (ho : ∀ l, owner l = none) :
    Owned owner inside := by
  intro k l
  rw [hi k, ho l]
  simp

theorem Owned.unique (h : Owned owner inside) {k k' : κ} {l : ℓ} (hk : inside k = some l)
    (hk' : inside k' = some l) : k = k' := by
  have heq : some k = some k' := by
    rw [← (h k l).mp hk, ← (h k' l).mp hk']
  exact Option.some.inj heq

theorem Owned.move (h : Owned owner inside) (hm : Move owner inside owner' inside') :
    Owned owner' inside' := by
  intro k l
  cases hm with
  | same hi ho =>
      rw [hi k, ho l]
      exact h k l
  | take k₀ l₀ hout hfree hin howner hk hl =>
      by_cases hkk : k = k₀
      · subst hkk
        by_cases hll : l = l₀
        · rw [hll, hin, howner]
          simp
        · rw [hin, hl l hll]
          have hne : owner l ≠ some k := by
            intro howns
            rw [(h k l).mpr howns] at hout
            cases hout
          simp [hne, Ne.symm hll]
      · rw [hk k hkk]
        by_cases hll : l = l₀
        · have hne : inside k ≠ some l₀ := by
            intro hins
            rw [(h k l₀).mp hins] at hfree
            cases hfree
          rw [hll, howner]
          simp [hne, Ne.symm hkk]
        · rw [hl l hll]
          exact h k l
  | release k₀ l₀ hins hout howner hk hl =>
      by_cases hkk : k = k₀
      · subst hkk
        by_cases hll : l = l₀
        · rw [hll, hout, howner]
          simp
        · have hne : owner l ≠ some k := by
            intro howns
            rw [(h k l).mpr howns, Option.some.injEq] at hins
            exact hll hins
          rw [hout, hl l hll]
          simp [hne]
      · rw [hk k hkk]
        by_cases hll : l = l₀
        · have hne : inside k ≠ some l₀ := fun hins' => hkk (h.unique hins' hins)
          rw [hll, howner]
          simp [hne]
        · rw [hl l hll]
          exact h k l

end Locks

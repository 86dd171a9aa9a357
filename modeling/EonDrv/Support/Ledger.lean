import Mathlib.Data.Multiset.AddSub

/-!
# Ledgers of acquired and released resources

A trace of uses is settled against the multiset of resources held.  Releasing
what is not held fails, so a trace that settles from nothing to nothing releases
every resource it acquires exactly once and releases nothing else.
-/

namespace Ledger

inductive Use (ρ : Type*)
  | acquire (r : ρ)
  | release (r : ρ)
  deriving DecidableEq

variable {ρ : Type*} [DecidableEq ρ]

def post (held : Multiset ρ) : Use ρ → Option (Multiset ρ)
  | .acquire r => some (r ::ₘ held)
  | .release r => if r ∈ held then some (held.erase r) else none

def settle : Multiset ρ → List (Use ρ) → Option (Multiset ρ)
  | held, [] => some held
  | held, u :: rest => (post held u).bind fun held' => settle held' rest

def Turns (m : Multiset ρ) (t : List (Use ρ)) (m' : Multiset ρ) : Prop :=
  settle m t = some m'

/-- Every acquired resource is released exactly once, and nothing else is. -/
def Neutral (t : List (Use ρ)) : Prop := Turns 0 t 0

instance (m : Multiset ρ) (t : List (Use ρ)) (m' : Multiset ρ) : Decidable (Turns m t m') :=
  inferInstanceAs (Decidable (_ = _))

instance (t : List (Use ρ)) : Decidable (Neutral t) :=
  inferInstanceAs (Decidable (Turns _ _ _))

/-! ## Rules -/

theorem Turns.nil (m : Multiset ρ) : Turns m [] m := rfl

theorem Turns.acquire (m : Multiset ρ) (r : ρ) : Turns m [.acquire r] (r ::ₘ m) := rfl

theorem Turns.release (m : Multiset ρ) (r : ρ) : Turns (r ::ₘ m) [.release r] m := by
  simp [Turns, settle, post]

theorem settle_append (m : Multiset ρ) (s t : List (Use ρ)) :
    settle m (s ++ t) = (settle m s).bind fun m' => settle m' t := by
  induction s generalizing m with
  | nil => rfl
  | cons u rest ih =>
      show (post m u).bind (fun m' => settle m' (rest ++ t)) = _
      cases hu : post m u with
      | none => simp [settle, hu]
      | some m' => simp [settle, hu, ih]

theorem Turns.append {m m' m'' : Multiset ρ} {s t : List (Use ρ)} (hs : Turns m s m')
    (ht : Turns m' t m'') : Turns m (s ++ t) m'' := by
  unfold Turns at *
  rw [settle_append, hs]
  exact ht

theorem post_frame {m m' : Multiset ρ} {u : Use ρ} (f : Multiset ρ) (h : post m u = some m') :
    post (m + f) u = some (m' + f) := by
  cases u with
  | acquire r =>
      obtain rfl : r ::ₘ m = m' := Option.some.inj h
      simp [post]
  | release r =>
      by_cases hr : r ∈ m
      · obtain rfl : m.erase r = m' := by simpa [post, hr] using h
        simp [post, hr, Multiset.erase_add_left_pos]
      · simp [post, hr] at h

/-- What a trace does not touch is still held after it. -/
theorem Turns.frame {m m' : Multiset ρ} {t : List (Use ρ)} (h : Turns m t m')
    (f : Multiset ρ) : Turns (m + f) t (m' + f) := by
  induction t generalizing m with
  | nil =>
      obtain rfl : m = m' := Option.some.inj h
      rfl
  | cons u rest ih =>
      obtain ⟨n, hn, hrest⟩ := Option.bind_eq_some_iff.mp h
      show (post (m + f) u).bind _ = _
      rw [post_frame f hn]
      exact ih hrest

theorem Neutral.nil : Neutral ([] : List (Use ρ)) := rfl

theorem Neutral.turns {t : List (Use ρ)} (h : Neutral t) (m : Multiset ρ) : Turns m t m := by
  have hframe := Turns.frame h m
  rwa [Multiset.zero_add] at hframe

theorem Neutral.append {s t : List (Use ρ)} (hs : Neutral s) (ht : Neutral t) :
    Neutral (s ++ t) :=
  Turns.append hs ht

/-- A trace that ends with `r` held, followed by the release of `r`. -/
theorem Turns.close {m m' : Multiset ρ} {t : List (Use ρ)} {r : ρ}
    (h : Turns m t (r ::ₘ m')) : Turns m (t ++ [.release r]) m' :=
  h.append (Turns.release m' r)

theorem Neutral.bracket {t : List (Use ρ)} (h : Neutral t) (r : ρ) :
    Neutral (.acquire r :: (t ++ [.release r])) := by
  have hopen : Turns 0 (Use.acquire r :: t) (r ::ₘ 0) :=
    (Turns.acquire 0 r).append (h.turns _)
  exact hopen.close

theorem Neutral.flatten {ts : List (List (Use ρ))} (h : ∀ t ∈ ts, Neutral t) :
    Neutral ts.flatten := by
  induction ts with
  | nil => exact Neutral.nil
  | cons t rest ih =>
      rw [List.flatten_cons]
      exact (h t List.mem_cons_self).append (ih fun u hu => h u (List.mem_cons_of_mem _ hu))

theorem turns_acquires (m : Multiset ρ) (rs : List ρ) :
    Turns m (rs.map .acquire) ((rs : Multiset ρ) + m) := by
  induction rs generalizing m with
  | nil => exact (Multiset.zero_add m).symm ▸ Turns.nil m
  | cons r rest ih =>
      have htail := ih (r ::ₘ m)
      rw [Multiset.add_cons, ← Multiset.cons_add, Multiset.cons_coe] at htail
      exact (Turns.acquire m r).append htail

theorem turns_releases (m : Multiset ρ) (rs : List ρ) :
    Turns ((rs : Multiset ρ) + m) (rs.map .release) m := by
  induction rs with
  | nil => exact (Multiset.zero_add m).symm ▸ Turns.nil m
  | cons r rest ih =>
      have hhead := Turns.release ((rest : Multiset ρ) + m) r
      rw [← Multiset.cons_add, Multiset.cons_coe] at hhead
      exact hhead.append ih

/-! ## Balance -/

/-- What is held at the end and what was released make up what was held at the
start and what was acquired. -/
theorem Turns.balance {m m' : Multiset ρ} {t : List (Use ρ)} (h : Turns m t m') (r : ρ) :
    m'.count r + t.count (.release r) = m.count r + t.count (.acquire r) := by
  induction t generalizing m with
  | nil =>
      obtain rfl : m = m' := Option.some.inj h
      rfl
  | cons u rest ih =>
      obtain ⟨n, hn, hrest⟩ := Option.bind_eq_some_iff.mp h
      have htail := ih hrest
      cases u with
      | acquire q =>
          obtain rfl : q ::ₘ m = n := Option.some.inj hn
          rw [Multiset.count_cons] at htail
          simp only [List.count_cons, beq_iff_eq, reduceCtorEq, Use.acquire.injEq, if_false]
          by_cases hq : r = q
          · subst hq
            simp only [if_true] at htail ⊢
            omega
          · rw [if_neg hq] at htail
            rw [if_neg (Ne.symm hq)]
            omega
      | release q =>
          by_cases hmem : q ∈ m
          · obtain rfl : m.erase q = n := by simpa [post, hmem] using hn
            simp only [List.count_cons, beq_iff_eq, reduceCtorEq, Use.release.injEq, if_false]
            by_cases hq : q = r
            · subst hq
              rw [Multiset.count_erase_self] at htail
              have hpos : 0 < m.count q := Multiset.count_pos.mpr hmem
              simp only [if_true]
              omega
            · rw [Multiset.count_erase_of_ne (Ne.symm hq)] at htail
              rw [if_neg hq]
              omega
          · simp [post, hmem] at hn

theorem not_neutral_of_kept {t : List (Use ρ)} {r : ρ} (ha : .acquire r ∈ t)
    (hr : .release r ∉ t) : ¬ Neutral t := by
  intro h
  have hbal := Turns.balance h r
  have hpos : 0 < t.count (.acquire r) := List.count_pos_iff.mpr ha
  rw [List.count_eq_zero.mpr hr] at hbal
  simp only [Multiset.count_zero] at hbal
  omega

theorem not_neutral_of_foreign {t : List (Use ρ)} {r : ρ} (hr : .release r ∈ t)
    (ha : .acquire r ∉ t) : ¬ Neutral t := by
  intro h
  have hbal := Turns.balance h r
  have hpos : 0 < t.count (.release r) := List.count_pos_iff.mpr hr
  rw [List.count_eq_zero.mpr ha] at hbal
  simp only [Multiset.count_zero] at hbal
  omega

end Ledger

/-!
# Predicates along a program

A program is a list of statements with an effect on a state.  A predicate holds
along a program when it holds before each of its statements and at its end.
-/

universe u v w

variable {σ : Type u} {ε : Type v}

def Along (apply : σ → ε → σ) (P : σ → Prop) : σ → List ε → Prop
  | s, [] => P s
  | s, e :: rest => P s ∧ Along apply P (apply s e) rest

namespace Along

variable {apply : σ → ε → σ} {P Q : σ → Prop} {s : σ}

@[simp] theorem nil_iff : Along apply P s [] ↔ P s := Iff.rfl

@[simp] theorem cons_iff {e : ε} {rest : List ε} :
    Along apply P s (e :: rest) ↔ P s ∧ Along apply P (apply s e) rest := Iff.rfl

theorem head {l : List ε} (h : Along apply P s l) : P s := by
  cases l with
  | nil => exact h
  | cons e rest => exact h.1

theorem last {l : List ε} (h : Along apply P s l) : P (l.foldl apply s) := by
  induction l generalizing s with
  | nil => exact h
  | cons e rest ih => exact ih h.2

@[simp] theorem append_iff {l m : List ε} :
    Along apply P s (l ++ m) ↔ Along apply P s l ∧ Along apply P (l.foldl apply s) m := by
  induction l generalizing s with
  | nil => exact ⟨fun h => ⟨h.head, h⟩, fun h => h.2⟩
  | cons e rest ih =>
      rw [List.cons_append, cons_iff, cons_iff, ih, List.foldl_cons, and_assoc]

theorem mono (hPQ : ∀ s, P s → Q s) {l : List ε} (h : Along apply P s l) :
    Along apply Q s l := by
  induction l generalizing s with
  | nil => exact hPQ s h
  | cons e rest ih => exact ⟨hPQ s h.1, ih h.2⟩

/-- What every statement of the program preserves holds along it. -/
theorem of_preserved {l : List ε} (hstep : ∀ s, ∀ e ∈ l, P s → P (apply s e)) (h : P s) :
    Along apply P s l := by
  induction l generalizing s with
  | nil => exact h
  | cons e rest ih =>
      exact ⟨h, ih (fun s e he => hstep s e (List.mem_cons_of_mem _ he))
        (hstep s e List.mem_cons_self h)⟩

/-- Statements that may fail, run next to a program that `R` relates to each of
them. -/
theorem simulates {τ : Type w} {f : σ → ε → Option σ} {g : τ → ε → τ} {R : τ → σ → Prop}
    {l : List ε} (hstep : ∀ e ∈ l, ∀ t s, R t s → ∃ s', f s e = some s' ∧ R (g t e) s') {t : τ}
    (h : R t s) : ∃ s', l.foldlM f s = some s' ∧ R (l.foldl g t) s' := by
  induction l generalizing s t with
  | nil => exact ⟨s, rfl, h⟩
  | cons e rest ih =>
      obtain ⟨u, hu, hR⟩ := hstep e List.mem_cons_self t s h
      obtain ⟨s', hs', hR'⟩ := ih (fun e he => hstep e (List.mem_cons_of_mem _ he)) hR
      refine ⟨s', ?_, hR'⟩
      rw [List.foldlM_cons, hu]
      exact hs'

end Along

import Mathlib.Data.List.Nodup

/-!
# Lists of register writes

A driver programs a block by a list of register writes.  `storeAll` performs the
list, and `Holds` says that a register file shows every write of it.
-/

namespace RegisterFile

variable {ρ ν : Type*} [DecidableEq ρ]

def store (regs : ρ → ν) (w : ρ × ν) : ρ → ν := Function.update regs w.1 w.2

def storeAll (regs : ρ → ν) (ws : List (ρ × ν)) : ρ → ν := ws.foldl store regs

/-- The register file shows the writes. -/
def Holds (regs : ρ → ν) (ws : List (ρ × ν)) : Prop := ∀ w ∈ ws, regs w.1 = w.2

theorem store_self (regs : ρ → ν) (w : ρ × ν) : store regs w w.1 = w.2 :=
  Function.update_self ..

theorem store_ne {regs : ρ → ν} {w : ρ × ν} {r : ρ} (h : r ≠ w.1) :
    store regs w r = regs r :=
  Function.update_of_ne h ..

omit [DecidableEq ρ] in
theorem holds_nil (regs : ρ → ν) : Holds regs [] := by
  intro w hw
  cases hw

theorem Holds.store {regs : ρ → ν} {ws : List (ρ × ν)} (h : Holds regs ws) {w : ρ × ν}
    (hw : w.1 ∉ ws.map Prod.fst) : Holds (store regs w) ws := by
  intro v hv
  rw [store_ne, h v hv]
  intro heq
  exact hw (heq ▸ List.mem_map_of_mem hv)

theorem Holds.snoc {regs : ρ → ν} {ws : List (ρ × ν)} (h : Holds regs ws) {w : ρ × ν}
    (hw : w.1 ∉ ws.map Prod.fst) : Holds (RegisterFile.store regs w) (ws ++ [w]) := by
  intro v hv
  rcases List.mem_append.mp hv with hv | hv
  · exact h.store hw v hv
  · rw [List.mem_singleton.mp hv, store_self]

theorem storeAll_of_not_mem {regs : ρ → ν} {ws : List (ρ × ν)} {r : ρ}
    (h : r ∉ ws.map Prod.fst) : storeAll regs ws r = regs r := by
  induction ws generalizing regs with
  | nil => rfl
  | cons w rest ih =>
      rw [List.map_cons, List.mem_cons, not_or] at h
      show storeAll (store regs w) rest r = regs r
      rw [ih h.2, store_ne h.1]

theorem holds_storeAll {regs : ρ → ν} {ws : List (ρ × ν)} (h : (ws.map Prod.fst).Nodup) :
    Holds (storeAll regs ws) ws := by
  induction ws generalizing regs with
  | nil => exact holds_nil _
  | cons w rest ih =>
      rw [List.map_cons, List.nodup_cons] at h
      intro v hv
      show storeAll (store regs w) rest v.1 = v.2
      rcases List.mem_cons.mp hv with rfl | hv
      · rw [storeAll_of_not_mem h.1, store_self]
      · exact ih h.2 v hv

omit [DecidableEq ρ] in
theorem fresh_of_nodup {ws : List (ρ × ν)} (h : (ws.map Prod.fst).Nodup) {k : Nat} {w : ρ × ν}
    (hk : ws[k]? = some w) : w.1 ∉ (ws.take k).map Prod.fst := by
  intro hmem
  obtain ⟨v, hv, hkey⟩ := List.mem_map.mp hmem
  obtain ⟨i, hi, rfl⟩ := List.mem_iff_getElem.mp hv
  obtain ⟨hlt, rfl⟩ := List.getElem?_eq_some_iff.mp hk
  rw [List.getElem_take] at hkey
  have hi' : i < k := by
    rw [List.length_take] at hi
    omega
  have hne := List.pairwise_iff_getElem.mp h i k (by rw [List.length_map]; omega)
    (by rw [List.length_map]; exact hlt) hi'
  rw [List.getElem_map, List.getElem_map] at hne
  exact hne hkey

/-- Performing the next write of a list to distinct registers. -/
theorem Holds.next {regs : ρ → ν} {ws : List (ρ × ν)} (h : (ws.map Prod.fst).Nodup) {k : Nat}
    {w : ρ × ν} (hk : ws[k]? = some w) (hs : Holds regs (ws.take k)) :
    Holds (RegisterFile.store regs w) (ws.take (k + 1)) := by
  rw [List.take_add_one, hk]
  exact hs.snoc (fresh_of_nodup h hk)

/-- Writes that are shown already change nothing. -/
theorem storeAll_of_holds {regs : ρ → ν} {ws : List (ρ × ν)} (h : Holds regs ws) :
    storeAll regs ws = regs := by
  induction ws with
  | nil => rfl
  | cons w rest ih =>
      have hsame : RegisterFile.store regs w = regs := by
        rw [RegisterFile.store, ← h w List.mem_cons_self, Function.update_eq_self]
      show storeAll (RegisterFile.store regs w) rest = regs
      rw [hsame]
      exact ih fun v hv => h v (List.mem_cons_of_mem _ hv)

end RegisterFile

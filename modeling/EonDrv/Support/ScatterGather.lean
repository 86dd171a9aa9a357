import EonDrv.Support.RegisterFile
import Mathlib.Data.List.Range

/-!
# Scattered copies

An engine that moves bytes from one memory to another.  A move is a source and a
destination location.  Whatever pieces the moves are cut into, moves between two
enumerated ranges are one block copy, provided that no destination occurs twice.
-/

namespace ScatterGather

open RegisterFile (storeAll)

variable {α β ν : Type*} [DecidableEq β]

def perform (src : α → ν) (moves : List (α × β)) (dst : β → ν) : β → ν :=
  storeAll dst (moves.map fun m => (m.2, src m.1))

theorem perform_append (src : α → ν) (ms ms' : List (α × β)) (dst : β → ν) :
    perform src (ms ++ ms') dst = perform src ms' (perform src ms dst) := by
  rw [perform, List.map_append]
  exact List.foldl_append

/-- The moves from location `f k` to location `g k`, for `k < n`. -/
def block (f : Nat → α) (g : Nat → β) (n : Nat) : List (α × β) :=
  (List.range n).map fun k => (f k, g k)

theorem perform_of_not_mem {src : α → ν} {moves : List (α × β)} {dst : β → ν} {b : β}
    (h : b ∉ moves.map Prod.snd) : perform src moves dst b = dst b := by
  refine RegisterFile.storeAll_of_not_mem ?_
  rwa [List.map_map]

theorem perform_mem {src : α → ν} {moves : List (α × β)} (dst : β → ν)
    (hnodup : (moves.map Prod.snd).Nodup) {m : α × β} (hm : m ∈ moves) :
    perform src moves dst m.2 = src m.1 := by
  have hkeys : ((moves.map fun m => (m.2, src m.1)).map Prod.fst).Nodup := by
    rwa [List.map_map]
  exact RegisterFile.holds_storeAll hkeys (m.2, src m.1) (List.mem_map.mpr ⟨m, hm, rfl⟩)

section Block

variable {f : Nat → α} {g : Nat → β} {n : Nat}

omit [DecidableEq β] in
theorem snd_block (f : Nat → α) (g : Nat → β) (n : Nat) :
    (block f g n).map Prod.snd = (List.range n).map g := by
  rw [block, List.map_map]
  rfl

/-- A block copy delivers every location. -/
theorem perform_block {src : α → ν} {dst : β → ν}
    (hinj : ∀ i j, i < n → j < n → g i = g j → i = j) {k : Nat} (hk : k < n) :
    perform src (block f g n) dst (g k) = src (f k) := by
  have hnodup : ((block f g n).map Prod.snd).Nodup := by
    rw [snd_block]
    refine List.Nodup.map_on (fun i hi j hj => ?_) List.nodup_range
    exact hinj i j (List.mem_range.mp hi) (List.mem_range.mp hj)
  exact perform_mem dst hnodup (m := (f k, g k))
    (List.mem_map.mpr ⟨k, List.mem_range.mpr hk, rfl⟩)

theorem perform_block_of_ne {src : α → ν} {dst : β → ν} {b : β} (hb : ∀ k, k < n → g k ≠ b) :
    perform src (block f g n) dst b = dst b := by
  refine perform_of_not_mem ?_
  rw [snd_block]
  intro hmem
  obtain ⟨k, hk, rfl⟩ := List.mem_map.mp hmem
  exact hb k (List.mem_range.mp hk) rfl

end Block

/-! ## Memories known in part -/

section Known

variable {knownSrc : α → Option ν} {src : α → ν} {known : β → Option ν} {dst : β → ν}

/-- What is known of a memory is what it holds. -/
def Knows (known : β → Option ν) (mem : β → ν) : Prop := ∀ b x, known b = some x → mem b = x

omit [DecidableEq β] in
theorem knows_all (mem : β → ν) : Knows (fun b => some (mem b)) mem :=
  fun _ _ h => Option.some.inj h

/-- Known bytes are copied to known bytes, and unknown ones to unknown ones. -/
theorem Knows.perform (hsrc : Knows knownSrc src) (hdst : Knows known dst)
    (moves : List (α × β)) :
    Knows (ScatterGather.perform knownSrc moves known) (ScatterGather.perform src moves dst) := by
  induction moves generalizing known dst with
  | nil => exact hdst
  | cons m rest ih =>
      refine ih fun b x hb => ?_
      rw [RegisterFile.store] at hb ⊢
      by_cases hm : b = m.2
      · subst hm
        rw [Function.update_self] at hb ⊢
        exact hsrc _ _ hb
      · rw [Function.update_of_ne hm] at hb ⊢
        exact hdst _ _ hb

end Known

end ScatterGather

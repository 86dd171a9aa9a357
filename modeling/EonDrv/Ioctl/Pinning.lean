import EonDrv.Ioctl.Hdma

/-!
# Pages of a request

The ledger of a computation, and what `dpu_get_pages` and `dpu_put_pages` take and
give back.
-/

namespace EonDrv.Ioctl

open Ledger

/-! ## Ledgers -/

def effectUses (t : List Effect) : List (Use Resource) :=
  t.filterMap fun
    | .use u => some u
    | .write _ _ => none

def uses (t : List Event) : List (Use Resource) :=
  t.filterMap fun
    | .effect (.use u) => some u
    | _ => none

@[simp] theorem effectUses_nil : effectUses [] = [] := rfl

@[simp] theorem effectUses_use (u : Use Resource) (t : List Effect) :
    effectUses (.use u :: t) = u :: effectUses t := rfl

@[simp] theorem effectUses_append (s t : List Effect) :
    effectUses (s ++ t) = effectUses s ++ effectUses t :=
  List.filterMap_append

@[simp] theorem uses_nil : uses [] = [] := rfl

@[simp] theorem uses_use (u : Use Resource) (t : List Event) :
    uses (.effect (.use u) :: t) = u :: uses t := rfl

@[simp] theorem uses_append (s t : List Event) : uses (s ++ t) = uses s ++ uses t :=
  List.filterMap_append

theorem uses_map_effect (t : List Effect) : uses (t.map .effect) = effectUses t := by
  rw [uses, List.filterMap_map, effectUses]
  congr 1
  funext e
  cases e <;> rfl

@[simp] theorem uses_quiet {α : Type} (m : Traced Effect α) :
    uses (quiet m).trace = effectUses m.trace :=
  uses_map_effect m.trace

@[simp] theorem uses_stage {α : Type} (dir : DmaDir) (s : Stage) (code : α → Int)
    (m : Traced Effect α) : uses (stage dir s code m).trace = effectUses m.trace := by
  rw [stage, uses_append, uses_map_effect]
  exact List.append_nil _

@[simp] theorem effectUses_map_use {ι : Type} (f : ι → Use Resource) (l : List ι) :
    effectUses (l.map fun i => .use (f i)) = l.map f := by
  induction l with
  | nil => rfl
  | cons i rest ih => rw [List.map_cons, effectUses_use, ih, List.map_cons]

@[simp] theorem effectUses_writeAll (ch : Chan) (ws : List (HdmaReg × BitVec 32)) :
    effectUses (writeAll ch ws).trace = [] := by
  simp [writeAll, effectUses, List.filterMap_map]

@[simp] theorem effectUses_acquire (r : Resource) : effectUses (acquire r).trace = [.acquire r] :=
  rfl

@[simp] theorem effectUses_release (r : Resource) : effectUses (release r).trace = [.release r] :=
  rfl

@[simp] theorem effectUses_alloc (kind : Ptr → Resource) (p : Ptr) :
    effectUses (alloc kind p).trace = if p = 0#64 then [] else [.acquire (kind p)] := by
  unfold alloc
  split <;> rfl

@[simp] theorem val_alloc (kind : Ptr → Resource) (p : Ptr) : (alloc kind p).val = p := rfl

@[simp] theorem effectUses_free (kind : Ptr → Resource) (p : Ptr) :
    effectUses (free kind p).trace = if p = 0#64 then [] else [.release (kind p)] := by
  unfold free
  split <;> rfl

@[simp] theorem effectUses_putPages (pages : List Ptr) :
    effectUses (putPages pages).trace = (nonNull pages).map fun p => .release (.page p) := by
  simp [putPages]

/-! ## Pinning -/

section Pin

variable (k : Kernel) (buf len : BitVec 64)

/-- The count as `dpu_get_pages` passes it on. -/
def pinCount : BitVec 32 := (getPagesNr buf len).truncate 32

def pin : PinResult (pinCount buf len) := k.getUserPages buf (pinCount buf len)

def blocksPtr : Ptr := k.vmallocBlocks (getPagesNr buf len * 16#64)

def pagesPtr : Ptr := k.vmallocPages ((pinCount buf len).zeroExtend 64 * 8#64)

/-- `dpu_get_pages` fails. -/
def PinFails : Prop :=
  blocksPtr k buf len = 0#64 ∨ pagesPtr k buf len = 0#64 ∨
    (pin k buf len).ret < pinCount buf len

def pinnedInfo : DpuHostMemInfo :=
  ⟨buf, blocksPtr k buf len, k.blockAt buf (getPagesNr buf len), pinCount buf len⟩

def pinUses : List (Use Resource) :=
  [.acquire (.vmem (blocksPtr k buf len)), .acquire (.vmem (pagesPtr k buf len))] ++
    (pin k buf len).pages.map (fun p => .acquire (.page p)) ++
    [.release (.vmem (pagesPtr k buf len))]

end Pin

theorem PinResult.ne_null {nr : BitVec 32} (r : PinResult nr) : ∀ p ∈ r.pages, p ≠ 0#64 := by
  cases r with
  | pinned pages => exact pages.ne_null
  | error code neg =>
      intro p hp
      cases hp

theorem PinResult.nonNull_pages {nr : BitVec 32} (r : PinResult nr) :
    nonNull r.pages = r.pages :=
  List.filter_eq_self.mpr fun p hp => decide_eq_true (r.ne_null p hp)

/-- Nothing is pinned unless the result is positive. -/
theorem PinResult.pages_eq_nil {nr : BitVec 32} {r : PinResult nr} (h : ¬ 0 < r.ret.toInt) :
    r.pages = [] := by
  cases r with
  | pinned pages =>
      have hlt := pages.length_lt
      have hret : (BitVec.ofNat 32 pages.pages.length).toInt = pages.pages.length := by
        rw [BitVec.toInt_eq_toNat_cond, BitVec.toNat_ofNat, Nat.mod_eq_of_lt (by omega),
          if_pos (by omega)]
      change ¬ 0 < (BitVec.ofNat 32 pages.pages.length).toInt at h
      rw [hret] at h
      show pages.pages = []
      exact List.eq_nil_of_length_eq_zero (by omega)
  | error code neg => rfl

theorem neutral_pages (ps : List Ptr) :
    Neutral (ps.map (fun p => Use.acquire (Resource.page p)) ++
      ps.map fun p => Use.release (Resource.page p)) := by
  have hacquires := turns_acquires 0 (ps.map Resource.page)
  have hreleases := turns_releases 0 (ps.map Resource.page)
  rw [List.map_map] at hacquires hreleases
  exact hacquires.append hreleases

theorem dpuGetPages_eq (k : Kernel) (buf len : BitVec 64) (info : DpuHostMemInfo) :
    dpuGetPages k buf len info = (do
      let blocksTmp ← vmalloc (blocksPtr k buf len)
      if blocksTmp = 0#64 then
        return (-1, { info with addr := buf })
      let info := { info with addr := buf, blocksNr := pinCount buf len }
      let pagesTmp ← vmalloc (pagesPtr k buf len)
      if pagesTmp = 0#64 then
        vfree blocksTmp
        return (-2, info)
      Traced.emitAll ((pin k buf len).pages.map fun p => .use (.acquire (.page p)))
      if (pin k buf len).ret < pinCount buf len then
        if 0 < (pin k buf len).ret.toInt then
          putPages (pin k buf len).pages
        vfree pagesTmp
        vfree blocksTmp
        return (-3, info)
      vfree pagesTmp
      return (0, { info with blocks := blocksTmp, pages := k.blockAt buf (getPagesNr buf len) })) :=
  rfl

theorem dpuGetPages_ok {k : Kernel} {buf len : BitVec 64} (h : ¬ PinFails k buf len)
    (info : DpuHostMemInfo) :
    (dpuGetPages k buf len info).val = (0, pinnedInfo k buf len) ∧
      effectUses (dpuGetPages k buf len info).trace = pinUses k buf len := by
  simp only [PinFails, not_or] at h
  obtain ⟨hblocks, hpages, hpin⟩ := h
  rw [dpuGetPages_eq]
  constructor
  · simp [vmalloc, hblocks, hpages, hpin, pinnedInfo]
  · simp [vmalloc, vfree, hblocks, hpages, hpin, pinUses]

theorem dpuGetPages_fails {k : Kernel} {buf len : BitVec 64} (h : PinFails k buf len)
    (info : DpuHostMemInfo) :
    (dpuGetPages k buf len info).val.1 ≠ 0 ∧
      Neutral (effectUses (dpuGetPages k buf len info).trace) := by
  rw [dpuGetPages_eq]
  by_cases hblocks : blocksPtr k buf len = 0#64
  · refine ⟨by simp [vmalloc, hblocks], ?_⟩
    simp only [vmalloc, hblocks]
    exact Neutral.nil
  by_cases hpages : pagesPtr k buf len = 0#64
  · refine ⟨by simp [vmalloc, hblocks, hpages], ?_⟩
    simpa [vmalloc, vfree, hblocks, hpages] using
      Neutral.nil.bracket (Resource.vmem (blocksPtr k buf len))
  have hpin : (pin k buf len).ret < pinCount buf len :=
    (h.resolve_left hblocks).resolve_left hpages
  by_cases hret : 0 < (pin k buf len).ret.toInt
  · refine ⟨by simp [vmalloc, hblocks, hpages, hpin, hret], ?_⟩
    have hbrackets := ((neutral_pages (pin k buf len).pages).bracket
      (.vmem (pagesPtr k buf len))).bracket (.vmem (blocksPtr k buf len))
    simpa [vmalloc, vfree, hblocks, hpages, hpin, hret, (pin k buf len).nonNull_pages]
      using hbrackets
  · refine ⟨by simp [vmalloc, hblocks, hpages, hpin, hret], ?_⟩
    have hbrackets := (Neutral.nil.bracket (Resource.vmem (pagesPtr k buf len))).bracket
      (.vmem (blocksPtr k buf len))
    simpa [vmalloc, vfree, hblocks, hpages, hpin, hret, PinResult.pages_eq_nil hret]
      using hbrackets

/-! ## Dropping the references -/

/-- The error of `get_user_pages_fast` that the unsigned comparison lets through
leaves stale pointers; none of them is taken for a page. -/
def CleanPin (k : Kernel) (buf len : BitVec 64) : Prop :=
  (∃ pages, pin k buf len = .pinned pages) ∨
    ∀ p ∈ visitedPages (pinnedInfo k buf len), p = 0#64

theorem pinned_length {k : Kernel} {buf len : BitVec 64} (h : ¬ PinFails k buf len)
    {pages : PinnedPages (pinCount buf len)} (hpin : pin k buf len = .pinned pages) :
    pages.pages.length = (pinCount buf len).toNat := by
  have hle := pages.length_le
  have hlt := pages.length_lt
  have hge : ¬ (BitVec.ofNat 32 pages.pages.length) < pinCount buf len := by
    have hret : ¬ (pin k buf len).ret < pinCount buf len := fun hlt => h (.inr (.inr hlt))
    rwa [hpin] at hret
  rw [BitVec.lt_def, BitVec.toNat_ofNat, Nat.mod_eq_of_lt (by omega)] at hge
  omega

theorem blockAt_pinned {k : Kernel} {buf len : BitVec 64} (h : ¬ PinFails k buf len)
    {pages : PinnedPages (pinCount buf len)} (hpin : pin k buf len = .pinned pages) {i : Nat}
    (hi : i < pages.pages.length) :
    k.blockAt buf (getPagesNr buf len) (BitVec.ofNat 32 i).toInt = pages.pages[i] := by
  have hlt := pages.length_lt
  have hint : (BitVec.ofNat 32 i).toInt = (i : Int) := by
    rw [BitVec.toInt_eq_toNat_cond, BitVec.toNat_ofNat, Nat.mod_eq_of_lt (by omega),
      if_pos (by omega)]
  have hcount : (pinCount buf len).toNat ≤ (getPagesNr buf len).toNat := by
    rw [pinCount, BitVec.truncate_eq_setWidth, BitVec.toNat_setWidth]
    exact Nat.mod_le _ _
  have hlen := pinned_length h hpin
  have hpages : (k.getUserPages buf (pinCount buf len)).pages = pages.pages :=
    congrArg PinResult.pages hpin
  rw [hint, Kernel.blockAt, if_pos ⟨by omega, by omega, by omega⟩, Kernel.pageAt]
  show ((k.getUserPages buf (pinCount buf len)).pages[(i : Int).toNat]?).getD _ = _
  rw [hpages, Int.toNat_natCast, List.getElem?_eq_getElem hi]
  rfl

theorem visitedPages_pinned {k : Kernel} {buf len : BitVec 64} (h : ¬ PinFails k buf len)
    {pages : PinnedPages (pinCount buf len)} (hpin : pin k buf len = .pinned pages) :
    visitedPages (pinnedInfo k buf len) = pages.pages := by
  have hblocks : (pinnedInfo k buf len).blocks ≠ 0#64 := fun hzero => h (.inl hzero)
  rw [visitedPages, if_neg hblocks]
  apply List.ext_getElem
  · rw [List.length_map, List.length_range, pinned_length h hpin]
    rfl
  · intro i _ hi
    rw [List.getElem_map, List.getElem_range]
    exact blockAt_pinned h hpin hi

/-- The references that `dpu_put_pages` drops are those that were taken. -/
theorem CleanPin.nonNull_visited {k : Kernel} {buf len : BitVec 64} (hclean : CleanPin k buf len)
    (h : ¬ PinFails k buf len) :
    nonNull (visitedPages (pinnedInfo k buf len)) = (pin k buf len).pages := by
  cases hpin : pin k buf len with
  | pinned pages =>
      rw [visitedPages_pinned h hpin]
      exact PinResult.nonNull_pages (.pinned pages)
  | error code neg =>
      rcases hclean with ⟨pages, hpages⟩ | hnull
      · rw [hpin] at hpages
        cases hpages
      · refine List.filter_eq_nil_iff.mpr ?_
        intro p hp
        simp [hnull p hp]

/-- Otherwise one of them was never taken. -/
theorem exists_stale {k : Kernel} {buf len : BitVec 64} (hclean : ¬ CleanPin k buf len) :
    (pin k buf len).pages = [] ∧ ∃ p, p ∈ nonNull (visitedPages (pinnedInfo k buf len)) := by
  simp only [CleanPin, not_or, not_forall, not_exists] at hclean
  obtain ⟨hpinned, p, hp, hne⟩ := hclean
  constructor
  · cases hpin : pin k buf len with
    | pinned pages => exact absurd hpin (hpinned pages)
    | error code neg => rfl
  · exact ⟨p, List.mem_filter.mpr ⟨hp, decide_eq_true hne⟩⟩

/-- What is held between a successful `dpu_get_pages` and `dpu_put_pages`. -/
def pinHeld (k : Kernel) (buf len : BitVec 64) : Multiset Resource :=
  Resource.vmem (blocksPtr k buf len) ::ₘ ((pin k buf len).pages.map Resource.page : List Resource)

theorem turns_pinUses (k : Kernel) (buf len : BitVec 64) :
    Turns 0 (pinUses k buf len) (pinHeld k buf len) := by
  have hmem : Turns (0 : Multiset Resource)
      [.acquire (.vmem (blocksPtr k buf len)), .acquire (.vmem (pagesPtr k buf len))]
      (.vmem (pagesPtr k buf len) ::ₘ .vmem (blocksPtr k buf len) ::ₘ 0) :=
    (Turns.acquire 0 _).append (Turns.acquire _ _)
  have hpages := turns_acquires
    (Resource.vmem (pagesPtr k buf len) ::ₘ Resource.vmem (blocksPtr k buf len) ::ₘ 0)
    ((pin k buf len).pages.map Resource.page)
  rw [Multiset.add_cons, Multiset.add_cons, Multiset.add_zero, List.map_map] at hpages
  exact (hmem.append hpages).close

theorem effectUses_put {k : Kernel} {buf len : BitVec 64} (h : ¬ PinFails k buf len) :
    effectUses (dpuPutPages (pinnedInfo k buf len)).trace =
      (nonNull (visitedPages (pinnedInfo k buf len))).map (fun p => .release (.page p)) ++
        [.release (.vmem (blocksPtr k buf len))] := by
  have hblocks : blocksPtr k buf len ≠ 0#64 := fun hzero => h (.inl hzero)
  simp [dpuPutPages, vfree, pinnedInfo, hblocks]

theorem turns_put {k : Kernel} {buf len : BitVec 64} (h : ¬ PinFails k buf len)
    (hclean : CleanPin k buf len) :
    Turns (pinHeld k buf len) (effectUses (dpuPutPages (pinnedInfo k buf len)).trace) 0 := by
  have hpages := turns_releases (Resource.vmem (blocksPtr k buf len) ::ₘ 0)
    ((pin k buf len).pages.map Resource.page)
  rw [Multiset.add_cons, Multiset.add_zero, List.map_map] at hpages
  rw [effectUses_put h, hclean.nonNull_visited h]
  exact hpages.close

end EonDrv.Ioctl

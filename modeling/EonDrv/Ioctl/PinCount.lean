import EonDrv.Ioctl.Splitting

/-!
# What the success of `dpu_get_pages` means

`get_user_pages_fast` returns an `int`.  `dpu_get_pages` compares it, as an unsigned
value, with the low 32 bits of a page count whose 64-bit sum may have wrapped.  A
negative code is then larger than almost every count, and a range of 2^32 pages or more
is asked for only in part.
-/

namespace EonDrv.Ioctl

open Ledger

section

variable (k : Kernel) (buf len : BitVec 64)

/-- The pages of the range by rounding up, with no wrap and no truncation. -/
def pageCount : Nat := Pages.count 4096 buf.toNat len.toNat

/-- 0 comes with every page that the range touches pinned and every entry filled, and an
error with everything given back. -/
structure PinsAll (info : DpuHostMemInfo) : Prop where
  count : (dpuGetPages k buf len info).val.1 = 0 →
    (Pages.touched 4096 buf.toNat len.toNat).card ≤ (pin k buf len).pages.length
  entries : (dpuGetPages k buf len info).val.1 = 0 →
    ∀ i, i < (dpuGetPages k buf len info).val.2.blocksNr.toNat →
      (pin k buf len).pages[i]? = some ((dpuGetPages k buf len info).val.2.pages i)
  failure : (dpuGetPages k buf len info).val.1 ≠ 0 →
    Neutral (effectUses (dpuGetPages k buf len info).trace)

/-- The comparison tells a full result from the others. -/
def Counted : Prop :=
  blocksPtr k buf len = 0#64 ∨ pagesPtr k buf len = 0#64 ∨
    match pin k buf len with
    | .pinned pages =>
      pages.pages.length < (pinCount buf len).toNat ∨ pageCount buf len < 2 ^ 32
    | .error code _ => code < pinCount buf len ∨ pageCount buf len = 0

end

variable {k : Kernel} {buf len : BitVec 64}

theorem pinCount_toNat (buf len : BitVec 64) :
    (pinCount buf len).toNat = (getPagesNr buf len).toNat % 2 ^ 32 := by
  rw [pinCount, BitVec.truncate_eq_setWidth, BitVec.toNat_setWidth]

theorem PinnedPages.ret_toNat {nr : BitVec 32} (pages : PinnedPages nr) :
    (PinResult.pinned pages).ret.toNat = pages.pages.length := by
  have hlt := pages.length_lt
  show (BitVec.ofNat 32 pages.pages.length).toNat = _
  rw [BitVec.toNat_ofNat, Nat.mod_eq_of_lt (by omega)]

theorem Counted.of_fails (h : PinFails k buf len) : Counted k buf len := by
  rcases h with hblocks | hpages | hret
  · exact Or.inl hblocks
  · exact Or.inr (Or.inl hpages)
  · refine Or.inr (Or.inr ?_)
    cases hpin : pin k buf len with
    | pinned pages =>
        rw [hpin, BitVec.lt_def, pages.ret_toNat] at hret
        exact Or.inl hret
    | error code neg =>
        rw [hpin] at hret
        exact Or.inl hret

theorem pinCount_of_pageCount (h : pageCount buf len < 2 ^ 32) :
    (getPagesNr buf len).toNat = pageCount buf len ∧
      (pinCount buf len).toNat = pageCount buf len := by
  have hwrap : buf.toNat % 4096 + len.toNat + 4095 < 2 ^ 64 := by
    rw [pageCount, Pages.count] at h
    omega
  have hnr : (getPagesNr buf len).toNat = pageCount buf len := getPagesNr_eq_count buf len hwrap
  refine ⟨hnr, ?_⟩
  rw [pinCount_toNat, hnr, Nat.mod_eq_of_lt h]

theorem card_touched_le (buf len : BitVec 64) :
    (Pages.touched 4096 buf.toNat len.toNat).card ≤ pageCount buf len := by
  rcases Nat.eq_zero_or_pos len.toNat with hzero | hpos
  · rw [Pages.touched, hzero, Nat.add_zero, Finset.Ico_self, Finset.image_empty,
      Finset.card_empty]
    exact Nat.zero_le _
  · exact Nat.le_of_eq (Pages.card_touched (by omega) hpos)

/-- An empty range has at most the page of its start. -/
theorem pageCount_lt_or_touched (buf len : BitVec 64) :
    pageCount buf len < 2 ^ 32 ∨
      (Pages.touched 4096 buf.toNat len.toNat).card = pageCount buf len := by
  rcases Nat.eq_zero_or_pos len.toNat with hzero | hpos
  · refine Or.inl ?_
    rw [pageCount, Pages.count, hzero]
    omega
  · exact Or.inr (Pages.card_touched (by omega) hpos)

theorem length_pin_lt (k : Kernel) (buf len : BitVec 64) :
    (pin k buf len).pages.length ≤ (pinCount buf len).toNat ∧
      (pin k buf len).pages.length < 2 ^ 31 := by
  cases pin k buf len with
  | pinned pages => exact ⟨pages.length_le, pages.length_lt⟩
  | error code neg => exact ⟨Nat.zero_le _, show 0 < 2 ^ 31 by omega⟩

theorem counted_iff_of_ok (h : ¬ PinFails k buf len) :
    Counted k buf len ↔ (pin k buf len).pages.length = pageCount buf len := by
  have hret : ¬ (pin k buf len).ret < pinCount buf len := fun hlt => h (.inr (.inr hlt))
  rw [Counted, or_iff_right fun h0 => h (.inl h0), or_iff_right fun h0 => h (.inr (.inl h0))]
  cases hpin : pin k buf len with
  | pinned pages =>
      have hlen := pinned_length h hpin
      have hlt := pages.length_lt
      show pages.pages.length < (pinCount buf len).toNat ∨ pageCount buf len < 2 ^ 32 ↔
        pages.pages.length = pageCount buf len
      constructor
      · rintro (hshort | hfit)
        · omega
        · rw [hlen, (pinCount_of_pageCount hfit).2]
      · intro hall
        exact Or.inr (by omega)
  | error code neg =>
      rw [hpin] at hret
      show code < pinCount buf len ∨ pageCount buf len = 0 ↔ 0 = pageCount buf len
      constructor
      · rintro (hlt | hzero)
        · exact absurd hlt hret
        · exact hzero.symm
      · exact fun hzero => Or.inr hzero.symm

theorem getElem?_pinned (h : ¬ PinFails k buf len)
    (hall : (pin k buf len).pages.length = (getPagesNr buf len).toNat) {i : Nat}
    (hi : i < (pinCount buf len).toNat) :
    (pin k buf len).pages[i]? = some ((pinnedInfo k buf len).pages i) := by
  have hcount := pinCount_toNat buf len
  cases hpin : pin k buf len with
  | pinned pages =>
      have hlen := pinned_length h hpin
      have hlt := pages.length_lt
      have hblock := blockAt_pinned h hpin (show i < pages.pages.length by omega)
      have hint : (BitVec.ofNat 32 i).toInt = (i : Int) := by
        rw [BitVec.toInt_eq_toNat_cond, BitVec.toNat_ofNat, Nat.mod_eq_of_lt (by omega),
          if_pos (by omega)]
      rw [hint] at hblock
      show pages.pages[i]? = some (k.blockAt buf (getPagesNr buf len) i)
      rw [hblock, List.getElem?_eq_getElem]
  | error code neg =>
      rw [hpin] at hall
      change 0 = (getPagesNr buf len).toNat at hall
      omega

theorem length_eq_of_filled
    (hcount : (Pages.touched 4096 buf.toNat len.toNat).card ≤ (pin k buf len).pages.length)
    (hfilled : ∀ i, i < (pinCount buf len).toNat → ∃ p, (pin k buf len).pages[i]? = some p) :
    (pin k buf len).pages.length = pageCount buf len := by
  obtain ⟨hle, hlt⟩ := length_pin_lt k buf len
  have hge : (pinCount buf len).toNat ≤ (pin k buf len).pages.length := by
    by_contra hshort
    obtain ⟨p, hp⟩ := hfilled (pin k buf len).pages.length (by omega)
    exact absurd (List.getElem?_eq_some_iff.mp hp).1 (Nat.lt_irrefl _)
  have hfit : pageCount buf len < 2 ^ 32 := by
    rcases pageCount_lt_or_touched buf len with hlow | htouched
    · exact hlow
    · omega
  have hpin := (pinCount_of_pageCount hfit).2
  omega

/-- Exactly then a 0 means that every page of the range is pinned and in its entry. -/
theorem pinsAll_iff_counted (k : Kernel) (buf len : BitVec 64) (info : DpuHostMemInfo) :
    PinsAll k buf len info ↔ Counted k buf len := by
  by_cases h : PinFails k buf len
  · obtain ⟨hne, hneutral⟩ := dpuGetPages_fails h info
    exact iff_of_true
      ⟨fun h0 => absurd h0 hne, fun h0 => absurd h0 hne, fun _ => hneutral⟩ (Counted.of_fails h)
  · obtain ⟨hval, -⟩ := dpuGetPages_ok h info
    rw [counted_iff_of_ok h]
    constructor
    · intro hall
      have hentries := hall.entries (by rw [hval])
      rw [hval] at hentries
      exact length_eq_of_filled (hall.count (by rw [hval])) fun i hi => ⟨_, hentries i hi⟩
    · intro hall
      have hlt := (length_pin_lt k buf len).2
      have hfit : pageCount buf len < 2 ^ 32 := by omega
      have hnr := (pinCount_of_pageCount hfit).1
      refine ⟨fun _ => ?_, fun _ i hi => ?_, fun hne => absurd (by rw [hval]) hne⟩
      · rw [hall]
        exact card_touched_le buf len
      · rw [hval] at hi ⊢
        exact getElem?_pinned h (hall.trans hnr.symm) hi

/-- `get_user_pages_fast` refuses the address with -14. -/
def faulting : Kernel :=
  { granting with getUserPages := fun _ _ => .error 0xfffffff2#32 (by decide) }

/-- One page is asked for, none is pinned, and the call returns 0 with an entry that
nothing was stored in. -/
theorem faulting_returns_zero :
    (dpuGetPages faulting 0x7f0000000000#64 0x1000#64 ⟨0, 0, fun _ => 0, 0⟩).val.1 = 0 ∧
      (pin faulting 0x7f0000000000#64 0x1000#64).pages = [] ∧
      (dpuGetPages faulting 0x7f0000000000#64 0x1000#64 ⟨0, 0, fun _ => 0, 0⟩).val.2.pages 0 =
        0xffffffffffffffff#64 ∧
      ¬ PinsAll faulting 0x7f0000000000#64 0x1000#64 ⟨0, 0, fun _ => 0, 0⟩ := by
  refine ⟨by decide, by decide, by decide, fun hall => ?_⟩
  have hcount := hall.count (by decide)
  rw [Pages.card_touched (by decide) (by decide)] at hcount
  exact absurd hcount (by decide)

end EonDrv.Ioctl

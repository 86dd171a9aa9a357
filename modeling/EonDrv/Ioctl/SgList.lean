import EonDrv.Ioctl.PinCount
import EonDrv.Ioctl.Splitting

/-!
# What the scatter list covers

For ranges whose table can be allocated the list tiles the range page by page.  For
arbitrary sizes the question is when its lengths add up to the size.
-/

namespace EonDrv.Ioctl

/-! ## Sizes -/

section

variable (k : Kernel) (buf len : BitVec 64)

/-- The kernel grants what `dpu_setup_sg` asks for.  The count is passed as an `int`,
so pages can be pinned for a positive one only, and a mapping of no entries returns 0. -/
structure Grants (dir : DmaDir) : Prop where
  blocks : blocksPtr k buf len ≠ 0#64
  pagesTmp : pagesPtr k buf len ≠ 0#64
  pinned : ∃ pages, pin k buf len = .pinned pages ∧
    ((pinCount buf len).toNat < 2 ^ 31 → pages.pages.length = (pinCount buf len).toNat)
  sgt : k.kzallocSgt ≠ 0#64
  table : 0 < (pinCount buf len).toNat → k.sgAllocTable (pinCount buf len) = false
  mapped : k.pciMapSg (sgPages k buf len) dir = none ↔ sgPages k buf len = []

end

/-- An error, or entries whose lengths add up to the size. -/
def KeepsSize (k : Kernel) (xfer : DpuXferInfo) (hostAddr : BitVec 64) : Prop :=
  (dpuSetupSg k xfer hostAddr).val.1 ≠ 0 ∨
    sgLength (sgPages k hostAddr xfer.size) = xfer.size.toNat

section

variable {k : Kernel} {buf len : BitVec 64}

theorem sgPages_eq_map (k : Kernel) (buf len : BitVec 64) :
    sgPages k buf len = (List.range (pinCount buf len).toInt.toNat).map
      (sgEntry (pinnedInfo k buf len).pages buf len) :=
  fillSg_eq_map ..

theorem pinCount_toInt (h : (pinCount buf len).toNat < 2 ^ 31) :
    (pinCount buf len).toInt.toNat = (pinCount buf len).toNat := by
  rw [BitVec.toInt_eq_toNat_cond, if_pos (by omega), Int.toNat_natCast]

theorem sgLength_eq_iff (k : Kernel) (buf len : BitVec 64) :
    sgLength (sgPages k buf len) = len.toNat ↔
      (sgVars buf len (pinCount buf len).toInt.toNat).2.toNat = 0 := by
  have hsum := sgLength_add_rest (pinnedInfo k buf len).pages buf len
    (pinCount buf len).toInt.toNat
  rw [← sgPages_eq_map] at hsum
  omega

theorem sgLength_ne_of_large (k : Kernel) (buf : BitVec 64) {len : BitVec 64}
    (h : 2 ^ 32 ≤ len.toNat) :
    sgLength (sgPages k buf len) ≠ len.toNat := by
  rw [Ne, sgLength_eq_iff]
  have hdiv := sgVars_count_div buf len (pinCount buf len).toInt.toNat
  omega

/-- Below 2^32 the count is that of the pages, and every 32-bit copy of it is exact. -/
theorem pinCount_of_small (buf : BitVec 64) (h : len.toNat < 2 ^ 32) :
    (pinCount buf len).toInt.toNat = Pages.count 4096 buf.toNat len.toNat ∧
      (getPagesNr buf len).toNat = Pages.count 4096 buf.toNat len.toNat ∧
      (pinCount buf len).toNat < 2 ^ 31 := by
  have hmod := Nat.mod_lt buf.toNat (show 0 < 4096 by omega)
  have hcount := getPagesNr_eq_count buf len (by omega)
  have hpin := pinCount_toNat buf len
  have hle : Pages.count 4096 buf.toNat len.toNat < 2 ^ 31 := by
    rw [Pages.count]
    omega
  rw [hcount, Nat.mod_eq_of_lt (by omega)] at hpin
  rw [pinCount_toInt (by omega), hpin]
  exact ⟨rfl, hcount, hle⟩

theorem sgLength_of_small (k : Kernel) {buf len : BitVec 64} (h : len.toNat < 2 ^ 32) :
    sgLength (sgPages k buf len) = len.toNat := by
  rcases Nat.eq_zero_or_pos len.toNat with hzero | hpos
  · have hsum := sgLength_add_rest (pinnedInfo k buf len).pages buf len
      (pinCount buf len).toInt.toNat
    rw [← sgPages_eq_map] at hsum
    omega
  · rw [sgLength_eq_iff, (pinCount_of_small buf h).1, (sgVars_bound hpos h (Nat.le_refl _)).2,
      Pages.bound_count (by omega) hpos, Nat.sub_self]

/-- With all its calls granted, `dpu_setup_sg` fails only for a count that leaves the
loop and the mapping no entry, or that no call can pin. -/
theorem dpuSetupSg_granted {k : Kernel} {xfer : DpuXferInfo} {hostAddr : BitVec 64}
    (hk : Grants k hostAddr xfer.size xfer.dir) :
    (dpuSetupSg k xfer hostAddr).val.1 ≠ 0 ↔
      (pinCount hostAddr xfer.size).toNat = 0 ∨ 2 ^ 31 ≤ (pinCount hostAddr xfer.size).toNat := by
  obtain ⟨pages, hpin, hall⟩ := hk.pinned
  have hlt := pages.length_lt
  have hfails : PinFails k hostAddr xfer.size ↔
      2 ^ 31 ≤ (pinCount hostAddr xfer.size).toNat := by
    have hret : (pin k hostAddr xfer.size).ret < pinCount hostAddr xfer.size ↔
        pages.pages.length < (pinCount hostAddr xfer.size).toNat := by
      rw [hpin, BitVec.lt_def, pages.ret_toNat]
    rw [PinFails, hret]
    constructor
    · rintro (hzero | hzero | hshort)
      · exact absurd hzero hk.blocks
      · exact absurd hzero hk.pagesTmp
      · by_contra hsmall
        have hfull := hall (by omega)
        omega
    · intro hlarge
      exact Or.inr (Or.inr (by omega))
  have hempty : sgPages k hostAddr xfer.size = [] ↔
      (pinCount hostAddr xfer.size).toInt.toNat = 0 := by
    rw [sgPages_eq_map, List.map_eq_nil_iff, List.range_eq_nil]
  by_cases h : PinFails k hostAddr xfer.size
  · exact iff_of_true (dpuSetupSg_pinFails h).1 (Or.inr (hfails.mp h))
  · have hsmall : (pinCount hostAddr xfer.size).toNat < 2 ^ 31 := by
      rw [hfails] at h
      omega
    rw [pinCount_toInt hsmall, ← hk.mapped] at hempty
    by_cases hzero : (pinCount hostAddr xfer.size).toNat = 0
    · have hsg : SgFails k hostAddr xfer.size xfer.dir := Or.inr (Or.inr (hempty.mpr hzero))
      exact iff_of_true (dpuSetupSg_sgFails h hsg).1 (Or.inl hzero)
    · have hsg : ¬ SgFails k hostAddr xfer.size xfer.dir := by
        rintro (hsgt | htable | hmap)
        · exact hk.sgt hsgt
        · rw [hk.table (Nat.pos_of_ne_zero hzero)] at htable
          cases htable
        · exact hzero (hempty.mp hmap)
      obtain ⟨⟨dma, -, hval⟩, -⟩ := dpuSetupSg_ok h hsg
      refine iff_of_false (by rw [hval]; simp) ?_
      omega

/-- Exactly these sizes are refused or moved whole. -/
theorem keepsSize_iff {xfer : DpuXferInfo} {hostAddr : BitVec 64}
    (hk : Grants k hostAddr xfer.size xfer.dir) :
    KeepsSize k xfer hostAddr ↔
      xfer.size.toNat < 2 ^ 32 ∨ (pinCount hostAddr xfer.size).toNat = 0 ∨
        2 ^ 31 ≤ (pinCount hostAddr xfer.size).toNat := by
  rw [KeepsSize, dpuSetupSg_granted hk]
  by_cases hsmall : xfer.size.toNat < 2 ^ 32
  · exact iff_of_true (Or.inr (sgLength_of_small k hsmall)) (Or.inl hsmall)
  · have hne := sgLength_ne_of_large k hostAddr (Nat.not_lt.mp hsmall)
    constructor
    · rintro (hcount | hsum)
      · exact Or.inr hcount
      · exact absurd hsum hne
    · rintro (hlt | hcount)
      · exact absurd hlt hsmall
      · exact Or.inl hcount

end

def readXfer (size : BitVec 64) : DpuXferInfo := initXfer 0x7fff0000#64 0x50000000#64 size .memToDev

theorem granting_grants {buf size : BitVec 64} (hone : (pinCount buf size).toNat = 1) :
    Grants granting buf size .memToDev where
  blocks := show 0x2000#64 ≠ 0#64 by decide
  pagesTmp := show 0x3000#64 ≠ 0#64 by decide
  pinned := by
    refine ⟨⟨[0x4000#64], by rw [hone]; decide, by simp, by simp⟩, ?_, fun _ => hone.symm⟩
    show granting.getUserPages buf (pinCount buf size) = _
    exact dif_pos (Nat.le_of_eq hone.symm)
  sgt := by decide
  table _ := rfl
  mapped := by
    refine iff_of_false (by simp [granting]) ?_
    rw [sgPages_eq_map, List.map_eq_nil_iff, List.range_eq_nil, pinCount_toInt (by omega)]
    omega

theorem page_keepsSize : KeepsSize granting (readXfer 0x1000#64) 0x7fff0000#64 :=
  (keepsSize_iff (granting_grants (by decide))).mpr (Or.inl (by decide))

/-- The page count of 2^64 - 1 bytes wraps to one page.  The list has one byte, and
`dpu_setup_sg` returns 0. -/
theorem wrapped_size_lost :
    Grants granting 0x7fff0fff#64 0xffffffffffffffff#64 .memToDev ∧
      (dpuSetupSg granting (readXfer 0xffffffffffffffff#64) 0x7fff0fff#64).val.1 = 0 ∧
      sgLength (sgPages granting 0x7fff0fff#64 0xffffffffffffffff#64) = 1 ∧
      ¬ KeepsSize granting (readXfer 0xffffffffffffffff#64) 0x7fff0fff#64 := by
  refine ⟨granting_grants (by decide), by decide, by decide, ?_⟩
  rintro (hne | hsum)
  · exact hne (by decide)
  · revert hsum
    decide

/-! ## Tiling -/

/-- Where entry `i` starts: the end of the entries before it. -/
def sgStart (start : Nat) (sgl : List SgPage) (i : Nat) : Nat := start + sgLength (sgl.take i)

/-- The entries cover `[start, start + size)`, one page each. -/
structure Tiles (structPage : Nat → Ptr) (start size : Nat) (sgl : List SgPage) : Prop where
  covers : sgLength sgl = size
  nonempty : ∀ e ∈ sgl, 0 < e.length.toNat
  page : ∀ i e, sgl[i]? = some e → e.page = structPage (start / 4096 + i)
  placed : ∀ i e, sgl[i]? = some e →
    (start / 4096 + i) * 4096 + e.offset.toNat = sgStart start sgl i
  inside : ∀ e ∈ sgl, e.offset.toNat + e.length.toNat ≤ 4096
  first : ∀ i e, sgl[i]? = some e → 0 < i → e.offset = 0#32
  last : ∀ i e, sgl[i]? = some e → i + 1 < sgl.length → e.offset.toNat + e.length.toNat = 4096

/-- The count and the loop agree on the range. -/
structure Splits (k : Kernel) (structPage : Nat → Ptr) (hostAddr size : BitVec 64) : Prop where
  count : (getPagesNr hostAddr size).toNat =
    (Pages.touched 4096 hostAddr.toNat size.toNat).card
  length : (sgPages k hostAddr size).length = (getPagesNr hostAddr size).toNat
  tiles : Tiles structPage hostAddr.toNat size.toNat (sgPages k hostAddr size)
  noUnderflow : ∀ i, (sgBytes (sgVars hostAddr size i).1 (sgVars hostAddr size i).2).toNat ≤
    (sgVars hostAddr size i).2.toNat
  usedUp : ∀ i, i ≤ (getPagesNr hostAddr size).toNat →
    ((sgVars hostAddr size i).2 = 0#64 ↔ i = (getPagesNr hostAddr size).toNat)

/-- `get_user_pages_fast` pins the pages of the range in order. -/
def PinsInOrder (k : Kernel) (structPage : Nat → Ptr) (buf len : BitVec 64) : Prop :=
  ∃ pages, pin k buf len = .pinned pages ∧
    ∀ i p, pages.pages[i]? = some p → p = structPage (buf.toNat / 4096 + i)

section

variable {addr size : BitVec 64} {pages : Int → Ptr}

theorem sgEntry_of_getElem? {n i : Nat} {e : SgPage}
    (h : ((List.range n).map (sgEntry pages addr size))[i]? = some e) :
    i < n ∧ e = sgEntry pages addr size i := by
  obtain ⟨hi, rfl⟩ := List.getElem?_eq_some_iff.mp h
  rw [List.length_map, List.length_range] at hi
  exact ⟨hi, by rw [List.getElem_map, List.getElem_range]⟩

theorem sgEntry_of_mem {n : Nat} {e : SgPage}
    (h : e ∈ (List.range n).map (sgEntry pages addr size)) :
    ∃ i, i < n ∧ e = sgEntry pages addr size i := by
  obtain ⟨i, hi⟩ := List.mem_iff_getElem?.mp h
  exact ⟨i, sgEntry_of_getElem? hi⟩

variable (hpos : 0 < size.toNat) (hlt : size.toNat < 2 ^ 32)

include hpos hlt

theorem sgEntry_offset (pages : Int → Ptr) {i : Nat}
    (hi : i ≤ Pages.count 4096 addr.toNat size.toNat) :
    (sgEntry pages addr size i).offset.toNat =
      Pages.bound 4096 addr.toNat size.toNat i % 4096 := by
  show (sgOffset (sgVars addr size i).1).toNat = _
  rw [sgOffset_toNat, (sgVars_bound hpos hlt hi).1]
  omega

theorem sgEntry_length (pages : Int → Ptr) {i : Nat}
    (hi : i < Pages.count 4096 addr.toNat size.toNat) :
    Pages.bound 4096 addr.toNat size.toNat i + (sgEntry pages addr size i).length.toNat =
      Pages.bound 4096 addr.toNat size.toNat (i + 1) := by
  have hstep := sgVars_succ_count addr size i
  have hlo := Pages.bound_lt_succ (by omega) hpos hi
  have hend := Pages.bound_le_end (P := 4096) (h := addr.toNat) (s := size.toNat) (i + 1)
  rw [(sgVars_bound hpos hlt (Nat.le_of_lt hi)).2,
    (sgVars_bound (i := i + 1) hpos hlt hi).2] at hstep
  show _ + (sgBytes (sgVars addr size i).1 (sgVars addr size i).2).toNat = _
  omega

theorem sgStart_eq_bound (pages : Int → Ptr) {n i : Nat} (hin : i ≤ n)
    (hi : i ≤ Pages.count 4096 addr.toNat size.toNat) :
    sgStart addr.toNat ((List.range n).map (sgEntry pages addr size)) i =
      Pages.bound 4096 addr.toNat size.toNat i := by
  have hsum := sgLength_add_rest pages addr size i
  have hlo := Pages.le_bound (P := 4096) (h := addr.toNat) (s := size.toNat) (by omega) i
  have hend := Pages.bound_le_end (P := 4096) (h := addr.toNat) (s := size.toNat) i
  rw [(sgVars_bound hpos hlt hi).2] at hsum
  rw [sgStart, ← List.map_take, List.take_range, Nat.min_eq_left hin]
  omega

theorem tiles_of_range (structPage : Nat → Ptr)
    (hpages : ∀ i, i < Pages.count 4096 addr.toNat size.toNat →
      pages i = structPage (addr.toNat / 4096 + i)) :
    Tiles structPage addr.toNat size.toNat
      ((List.range (Pages.count 4096 addr.toNat size.toNat)).map (sgEntry pages addr size)) where
  covers := by
    have hsum := sgLength_add_rest pages addr size (Pages.count 4096 addr.toNat size.toNat)
    rw [(sgVars_bound hpos hlt (Nat.le_refl _)).2, Pages.bound_count (by omega) hpos] at hsum
    omega
  nonempty e he := by
    obtain ⟨i, hi, rfl⟩ := sgEntry_of_mem he
    have hlen := sgEntry_length hpos hlt pages hi
    have hlo := Pages.bound_lt_succ (by omega) hpos hi
    omega
  page i e he := by
    obtain ⟨hi, rfl⟩ := sgEntry_of_getElem? he
    exact hpages i hi
  placed i e he := by
    obtain ⟨hi, rfl⟩ := sgEntry_of_getElem? he
    rw [sgStart_eq_bound hpos hlt pages (Nat.le_of_lt hi) (Nat.le_of_lt hi),
      sgEntry_offset hpos hlt pages (Nat.le_of_lt hi), Nat.add_comm]
    exact Pages.bound_mod (by omega) hi
  inside e he := by
    obtain ⟨i, hi, rfl⟩ := sgEntry_of_mem he
    have hlen := sgEntry_length hpos hlt pages hi
    have hmod := Pages.bound_mod (P := 4096) (by omega) hi
    rw [Pages.bound_succ] at hlen
    rw [sgEntry_offset hpos hlt pages (Nat.le_of_lt hi)]
    omega
  first i e he h0 := by
    obtain ⟨hi, rfl⟩ := sgEntry_of_getElem? he
    have hbound := Pages.bound_of_lt (P := 4096) (by omega) h0 hi
    refine BitVec.eq_of_toNat_eq ?_
    rw [sgEntry_offset hpos hlt pages (Nat.le_of_lt hi), hbound, Nat.mul_mod_left]
    rfl
  last i e he hi1 := by
    obtain ⟨hi, rfl⟩ := sgEntry_of_getElem? he
    rw [List.length_map, List.length_range] at hi1
    have hlen := sgEntry_length hpos hlt pages hi
    have hmod := Pages.bound_mod (P := 4096) (by omega) hi
    have hnext := Pages.bound_of_lt (P := 4096) (i := i + 1) (by omega) (Nat.succ_pos i) hi1
    rw [← Nat.add_assoc, Nat.succ_mul] at hnext
    rw [sgEntry_offset hpos hlt pages (Nat.le_of_lt hi)]
    omega

end

theorem size_of_table {addr size : BitVec 64} (huser : addr.toNat + size.toNat ≤ 2 ^ 63)
    (htable : ((getPagesNr addr size).toNat + 1) * 24 ≤ kmallocMaxSize.toNat) :
    size.toNat < 2 ^ 32 := by
  rw [getPagesNr_toNat] at htable
  simp only [kmallocMaxSize, BitVec.toNat_ofNat] at htable
  omega

/-- The count is the number of pages the range touches, and the loop tiles the range. -/
theorem splits_of_table {k : Kernel} {structPage : Nat → Ptr} {hostAddr size : BitVec 64}
    (hpos : 0 < size.toNat) (huser : hostAddr.toNat + size.toNat ≤ 2 ^ 63)
    (htable : ((getPagesNr hostAddr size).toNat + 1) * 24 ≤ kmallocMaxSize.toNat)
    (hok : ¬ PinFails k hostAddr size) (horder : PinsInOrder k structPage hostAddr size) :
    Splits k structPage hostAddr size := by
  have hlt := size_of_table huser htable
  obtain ⟨hcount, hnr, -⟩ := pinCount_of_small hostAddr hlt
  have hsg := sgPages_eq_map k hostAddr size
  rw [hcount] at hsg
  refine ⟨?_, ?_, ?_, fun i => ?_, fun i hi => ?_⟩
  · rw [hnr, Pages.card_touched (by omega) hpos]
  · rw [hsg, hnr, List.length_map, List.length_range]
  · rw [hsg]
    refine tiles_of_range hpos hlt structPage fun i hi => ?_
    obtain ⟨pages, hpin, hpages⟩ := horder
    have hall : (pin k hostAddr size).pages.length = (getPagesNr hostAddr size).toNat := by
      rw [hpin, hnr, ← hcount, pinCount_toInt (pinCount_of_small hostAddr hlt).2.2]
      exact pinned_length hok hpin
    refine hpages i _ ?_
    have hentry := getElem?_pinned hok hall (i := i)
      (by rw [← pinCount_toInt (pinCount_of_small hostAddr hlt).2.2, hcount]; exact hi)
    rwa [hpin] at hentry
  · have hle := sgBytes_le hostAddr size i
    omega
  · rw [hnr] at hi ⊢
    have hrest := (sgVars_bound hpos hlt hi).2
    rw [← BitVec.toNat_inj, hrest]
    show _ = 0 ↔ _
    constructor
    · intro hzero
      by_contra hne
      have hend := Pages.bound_lt_end (P := 4096) (by omega) hpos (Nat.lt_of_le_of_ne hi hne)
      omega
    · intro heq
      rw [heq, Pages.bound_count (by omega) hpos, Nat.sub_self]

/-- The array of page structures, 64 bytes each. -/
def structPageAt (n : Nat) : Ptr := BitVec.ofNat 64 (0x1000 + 64 * (n % 2 ^ 40))

theorem structPageAt_ne_null (n : Nat) : structPageAt n ≠ 0#64 := by
  intro h
  have hnat := congrArg BitVec.toNat h
  rw [structPageAt, BitVec.toNat_ofNat, Nat.mod_eq_of_lt (by omega)] at hnat
  simp at hnat

def pinning : Kernel :=
  { granting with
    getUserPages := fun addr nr =>
      if h : nr.toNat < 2 ^ 31 then
        .pinned ⟨(List.range nr.toNat).map fun i => structPageAt (addr.toNat / 4096 + i),
          by simp, by simpa using h, fun p hp => by
            obtain ⟨i, -, rfl⟩ := List.mem_map.mp hp
            exact structPageAt_ne_null _⟩
      else .pinned (.none nr) }

theorem pinning_inOrder {buf len : BitVec 64} (h : (pinCount buf len).toNat < 2 ^ 31) :
    PinsInOrder pinning structPageAt buf len := by
  refine ⟨_, dif_pos h, fun i p hp => ?_⟩
  obtain ⟨hi, rfl⟩ := List.getElem?_eq_some_iff.mp hp
  rw [List.getElem_map, List.getElem_range]

theorem four_pages_split :
    (sgPages pinning 0x7fff0ff0#64 0x2020#64).map (fun e => (e.length, e.offset)) =
        [(0x10#32, 0xff0#32), (0x1000#32, 0#32), (0x1000#32, 0#32), (0x10#32, 0#32)] ∧
      Splits pinning structPageAt 0x7fff0ff0#64 0x2020#64 := by
  refine ⟨by decide, splits_of_table (by decide) (by decide) (by decide) ?_
    (pinning_inOrder (by decide))⟩
  rintro (hblocks | hpages | hret)
  · exact absurd hblocks (by decide)
  · exact absurd hpages (by decide)
  · exact absurd hret (by decide)

end EonDrv.Ioctl

import EonDrv.Window.Access

/-!
# The window cache is coherent

What holds at each place of an access: before the lock nothing but the address
check, at `remap k` the first `k` writes of the remap, and at the access itself
that the cached base is the window of the access and both regions 1 point there.
-/

namespace EonDrv
namespace Window

open RegisterFile (Holds store storeAll)

/-- The registers show the cached window, when there is one. -/
def Cached (s : State) : Prop :=
  s.configBarBase ≠ 0 → Holds s.regs (remapWrites s.configBarBase)

def Pc.Ok (x : Access) (s : State) : Pc → Prop
  | .enter => True
  | .rejected => x.accepted = false
  | .lock | .done => x.accepted = true
  | .check | .unlock => x.accepted = true ∧ Cached s
  | .remap k =>
    x.accepted = true ∧ Holds s.regs ((remapWrites x.mapAddr).take k) ∧ (k = 0 → Cached s)
  | .setBase => x.accepted = true ∧ Holds s.regs (remapWrites x.mapAddr)
  | .access => x.accepted = true ∧ s.configBarBase = x.mapAddr ∧ Cached s

def inside (s : State) (i : Nat) : Option Unit := if (s.pc i).critical then some () else none

structure Coherent (regs : Nat → BitVec 32) (acc : Nat → Access) (s : State) : Prop where
  locks : Locks.Owned (fun _ => s.conbarLock) (inside s)
  place : ∀ i, (s.pc i).Ok (acc i) s
  free : s.conbarLock = none → Cached s
  region0 : ∀ off, 0x9000 ≤ off → off < 0x9200 → s.regs off = storeAll regs iatuConfig off
  log : ∀ e ∈ s.log, (acc e.client).accepted = true ∧ e.soc = (acc e.client).args.regAddr

section

variable {acc : Nat → Access} {regs : Nat → BitVec 32}

/-! ## Addresses -/

theorem mapAddr_add_offset (x : Access) : x.mapAddr + x.offset = x.args.regAddr :=
  BitVec.sub_add_cancel ..

/-- The window of an accepted address is not the zero that marks no window. -/
theorem mapAddr_ne_zero {x : Access} (h : x.accepted = true) : x.mapAddr ≠ 0 := by
  intro hzero
  have haddr : x.args.regAddr = x.offset := by
    rw [← mapAddr_add_offset x, hzero]
    exact BitVec.zero_add _
  have hoff : x.offset.toNat ≤ 0xffffff := by
    rw [Access.offset, BitVec.toNat_and]
    exact Nat.and_le_right
  have hmin : ¬ (x.args.regAddr < regsAddrMin) := by
    simp only [Access.accepted, regAddrAccepted, Bool.not_eq_true', Bool.or_eq_false_iff,
      decide_eq_false_iff_not] at h
    exact h.2
  rw [haddr, BitVec.lt_def, regsAddrMin] at hmin
  simp only [BitVec.toNat_ofNat] at hmin
  omega

/-! ## Places -/

theorem State.goto_pc_self (s : State) (i : Nat) (pc : Pc) : (s.goto i pc).pc i = pc :=
  Function.update_self ..

theorem State.goto_pc_ne {s : State} {i j : Nat} (h : j ≠ i) (pc : Pc) :
    (s.goto i pc).pc j = s.pc j :=
  Function.update_of_ne h ..

theorem Coherent.holder {s : State} (h : Coherent regs acc s) {i : Nat}
    (hi : (s.pc i).critical = true) : s.conbarLock = some i :=
  (h.locks i ()).mp (if_pos hi)

/-- Outside its section a place says nothing about the window. -/
theorem Pc.Ok.congr {x : Access} {s t : State} {pc : Pc} (h : pc.Ok x s)
    (hsame : pc.critical = true → t.regs = s.regs ∧ t.configBarBase = s.configBarBase) :
    pc.Ok x t := by
  have hcached : pc.critical = true → Cached s → Cached t := by
    intro hc hs
    obtain ⟨hregs, hbase⟩ := hsame hc
    unfold Cached
    rw [hregs, hbase]
    exact hs
  cases pc with
  | enter => trivial
  | rejected => exact h
  | lock => exact h
  | done => exact h
  | check => exact ⟨h.1, hcached rfl h.2⟩
  | unlock => exact ⟨h.1, hcached rfl h.2⟩
  | remap k => exact ⟨h.1, by rw [(hsame rfl).1]; exact h.2.1, fun hk => hcached rfl (h.2.2 hk)⟩
  | setBase => exact ⟨h.1, by rw [(hsame rfl).1]; exact h.2⟩
  | access => exact ⟨h.1, by rw [(hsame rfl).2]; exact h.2.1, hcached rfl h.2.2⟩

theorem Coherent.others {s t : State} {i : Nat} {v : BitVec 32} (hc : Coherent regs acc s)
    (h : Fires acc s (.client i v) t) {j : Nat} (hj : j ≠ i) :
    t.pc j = s.pc j ∧
      ((s.pc j).critical = true → t.regs = s.regs ∧ t.configBarBase = s.configBarBase) := by
  have hclash : (s.pc i).critical = true → (s.pc j).critical = true → False := by
    intro hci hcj
    have heq : some j = some i := (hc.holder hcj).symm.trans (hc.holder hci)
    exact hj (Option.some.inj heq)
  cases h with
  | accept _ _ => exact ⟨State.goto_pc_ne hj _, fun _ => ⟨rfl, rfl⟩⟩
  | reject _ _ => exact ⟨State.goto_pc_ne hj _, fun _ => ⟨rfl, rfl⟩⟩
  | lock _ _ => exact ⟨State.goto_pc_ne hj _, fun _ => ⟨rfl, rfl⟩⟩
  | miss _ _ => exact ⟨State.goto_pc_ne hj _, fun _ => ⟨rfl, rfl⟩⟩
  | hit _ _ => exact ⟨State.goto_pc_ne hj _, fun _ => ⟨rfl, rfl⟩⟩
  | write hpc _ =>
      exact ⟨State.goto_pc_ne hj _, fun hcj => (hclash (by rw [hpc]; rfl) hcj).elim⟩
  | mapped _ _ => exact ⟨State.goto_pc_ne hj _, fun _ => ⟨rfl, rfl⟩⟩
  | setBase hpc =>
      exact ⟨State.goto_pc_ne hj _, fun hcj => (hclash (by rw [hpc]; rfl) hcj).elim⟩
  | access _ => exact ⟨State.goto_pc_ne hj _, fun _ => ⟨rfl, rfl⟩⟩
  | skip _ => exact ⟨State.goto_pc_ne hj _, fun _ => ⟨rfl, rfl⟩⟩
  | unlock _ => exact ⟨State.goto_pc_ne hj _, fun _ => ⟨rfl, rfl⟩⟩

theorem inside_goto {s : State} {i : Nat} {pc : Pc} (h : pc.critical = (s.pc i).critical)
    (j : Nat) : inside (s.goto i pc) j = inside s j := by
  unfold inside
  by_cases hj : j = i
  · rw [hj, State.goto_pc_self, h]
  · rw [State.goto_pc_ne hj]

theorem Fires.lockMove {s t : State} {a : Action} (h : Fires acc s a t) :
    Locks.Move (fun _ : Unit => s.conbarLock) (inside s) (fun _ => t.conbarLock) (inside t) := by
  cases h with
  | accept hpc _ => exact .same (inside_goto (by rw [hpc]; rfl)) fun _ => rfl
  | reject hpc _ => exact .same (inside_goto (by rw [hpc]; rfl)) fun _ => rfl
  | @lock i v hpc hl =>
      refine .take i () ?_ hl ?_ rfl (fun j hj => ?_) (fun l hl => absurd rfl hl)
      · simp [inside, hpc, Pc.critical]
      · show (if ((s.goto i .check).pc i).critical then some () else none) = some ()
        rw [State.goto_pc_self]
        rfl
      · show (if ((s.goto i .check).pc j).critical then some () else none) = _
        rw [State.goto_pc_ne hj]
        rfl
  | miss hpc _ => exact .same (inside_goto (by rw [hpc]; rfl)) fun _ => rfl
  | hit hpc _ => exact .same (inside_goto (by rw [hpc]; rfl)) fun _ => rfl
  | @write i k v w hpc _ =>
      have hcrit : (Pc.remap (k + 1)).critical = (s.pc i).critical := by rw [hpc]; rfl
      exact .same (inside_goto hcrit) fun _ => rfl
  | mapped hpc _ => exact .same (inside_goto (by rw [hpc]; rfl)) fun _ => rfl
  | @setBase i v hpc =>
      have hcrit : Pc.access.critical = (s.pc i).critical := by rw [hpc]; rfl
      exact .same (inside_goto hcrit) fun _ => rfl
  | @access i v op x data hpc =>
      have hcrit : Pc.unlock.critical = (s.pc i).critical := by rw [hpc]; rfl
      exact .same (inside_goto hcrit) fun _ => rfl
  | skip hpc => exact .same (inside_goto (by rw [hpc]; rfl)) fun _ => rfl
  | @unlock i v hpc =>
      refine .release i () ?_ ?_ rfl (fun j hj => ?_) (fun l hl => absurd rfl hl)
      · simp [inside, hpc, Pc.critical]
      · show (if ((s.goto i .done).pc i).critical then some () else none) = none
        rw [State.goto_pc_self]
        rfl
      · show (if ((s.goto i .done).pc j).critical then some () else none) = _
        rw [State.goto_pc_ne hj]
        rfl
  | channel => exact .same (fun _ => rfl) fun _ => rfl

/-! ## Registers -/

theorem holds_channel {s : Nat → BitVec 32} {ws : List (Nat × BitVec 32)} (h : Holds s ws)
    (hws : ∀ w ∈ ws, 0x9200 ≤ w.1) (ch : Chan) (r : HdmaReg) (v : BitVec 32) :
    Holds (store s (hdmaRegOff ch r, v)) ws := by
  refine h.store fun hmem => ?_
  obtain ⟨w, hw, hkey⟩ := List.mem_map.mp hmem
  have hlow := hdmaRegOff_lt ch r
  have hhigh := hws w hw
  omega

theorem remap_holds_channel {s : Nat → BitVec 32} {a : BitVec 64} (h : Holds s (remapWrites a))
    (ch : Chan) (r : HdmaReg) (v : BitVec 32) :
    Holds (store s (hdmaRegOff ch r, v)) (remapWrites a) :=
  holds_channel h (fun _ hw => remapWrites_region hw) ch r v

theorem Pc.Ok.channel {x : Access} {s : State} {pc : Pc} (h : pc.Ok x s) (ch : Chan)
    (r : HdmaReg) (v : BitVec 32) :
    pc.Ok x { s with regs := store s.regs (hdmaRegOff ch r, v) } := by
  have hcached : Cached s → Cached { s with regs := store s.regs (hdmaRegOff ch r, v) } :=
    fun hs hne => remap_holds_channel (hs hne) ch r v
  cases pc with
  | enter => trivial
  | rejected => exact h
  | lock => exact h
  | done => exact h
  | check => exact ⟨h.1, hcached h.2⟩
  | unlock => exact ⟨h.1, hcached h.2⟩
  | remap k =>
      refine ⟨h.1, ?_, fun hk => hcached (h.2.2 hk)⟩
      exact holds_channel h.2.1 (fun w hw => remapWrites_region (List.mem_of_mem_take hw)) ch r v
  | setBase => exact ⟨h.1, remap_holds_channel h.2 ch r v⟩
  | access => exact ⟨h.1, h.2.1, hcached h.2.2⟩

/-! ## The invariant -/

theorem Coherent.initial {s : State} (h : Initial regs acc s) : Coherent regs acc s where
  locks := Locks.Owned.none (fun i => by simp [inside, h.pc i, Pc.critical]) fun _ => h.lock
  place i := by
    rw [h.pc i]
    trivial
  free _ hne := absurd h.base hne
  region0 off _ _ := by rw [h.regs]
  log e he := by
    rw [h.log] at he
    cases he

/-- An access at its window reaches the byte it asked for. -/
theorem soc_of_access {x : Access} {s : State} (h : Pc.access.Ok x s) :
    target s.regs .inbound 1 + x.offset = x.args.regAddr := by
  obtain ⟨hacc, hbase, hcached⟩ := h
  have hne : s.configBarBase ≠ 0 := by
    rw [hbase]
    exact mapAddr_ne_zero hacc
  rw [target_of_remap (hcached hne), hbase, mapAddr_add_offset]

theorem Coherent.place_self {s t : State} {i : Nat} {v : BitVec 32} (hc : Coherent regs acc s)
    (h : Fires acc s (.client i v) t) : (t.pc i).Ok (acc i) t := by
  have hok := hc.place i
  cases h with
  | accept _ hacc =>
      rw [State.goto_pc_self]
      exact hacc
  | reject _ hacc =>
      rw [State.goto_pc_self]
      exact hacc
  | lock hpc hl =>
      rw [hpc] at hok
      show ((s.goto i .check).pc i).Ok _ _
      rw [State.goto_pc_self]
      exact ⟨hok, hc.free hl⟩
  | miss hpc _ =>
      rw [hpc] at hok
      rw [State.goto_pc_self]
      exact ⟨hok.1, RegisterFile.holds_nil _, fun _ => hok.2⟩
  | hit hpc hbase =>
      rw [hpc] at hok
      rw [State.goto_pc_self]
      exact ⟨hok.1, hbase, hok.2⟩
  | write hpc hw =>
      rw [hpc] at hok
      show ((s.goto i (.remap (_ + 1))).pc i).Ok _ _
      rw [State.goto_pc_self]
      exact ⟨hok.1, hok.2.1.next (remapWrites_nodup _) hw, fun hk => absurd hk (Nat.succ_ne_zero _)⟩
  | mapped hpc hw =>
      rw [hpc] at hok
      rw [State.goto_pc_self]
      have hlen := List.getElem?_eq_none_iff.mp hw
      refine ⟨hok.1, ?_⟩
      show Holds s.regs _
      rw [← List.take_of_length_le hlen]
      exact hok.2.1
  | setBase hpc =>
      rw [hpc] at hok
      show ((s.goto i .access).pc i).Ok _ _
      rw [State.goto_pc_self]
      exact ⟨hok.1, rfl, fun _ => hok.2⟩
  | access hpc =>
      rw [hpc] at hok
      show ((s.goto i .unlock).pc i).Ok _ _
      rw [State.goto_pc_self]
      exact ⟨hok.1, hok.2.2⟩
  | skip hpc =>
      rw [hpc] at hok
      rw [State.goto_pc_self]
      exact ⟨hok.1, hok.2.2⟩
  | unlock hpc =>
      rw [hpc] at hok
      show ((s.goto i .done).pc i).Ok _ _
      rw [State.goto_pc_self]
      exact hok.1

theorem Coherent.step {s t : State} {a : Action} (hc : Coherent regs acc s)
    (h : Fires acc s a t) : Coherent regs acc t where
  locks := hc.locks.move h.lockMove
  place j := by
    cases a with
    | channel ch r v =>
        cases h
        exact (hc.place j).channel ch r v
    | client i v =>
        by_cases hj : j = i
        · subst hj
          exact hc.place_self h
        · obtain ⟨hpc, hsame⟩ := hc.others h hj
          rw [hpc]
          exact (hc.place j).congr hsame
  free hl := by
    cases h with
    | accept _ _ => exact hc.free hl
    | reject _ _ => exact hc.free hl
    | lock _ _ => cases hl
    | miss _ _ => exact hc.free hl
    | hit _ _ => exact hc.free hl
    | @write i k v w hpc _ =>
        have hheld : none = some i := hl.symm.trans (hc.holder (by rw [hpc]; rfl))
        cases hheld
    | mapped _ _ => exact hc.free hl
    | @setBase i v hpc =>
        have hheld : none = some i := hl.symm.trans (hc.holder (by rw [hpc]; rfl))
        cases hheld
    | access _ => exact hc.free hl
    | skip _ => exact hc.free hl
    | @unlock i v hpc =>
        have hok := hc.place i
        rw [hpc] at hok
        exact hok.2
    | @channel ch r v => exact fun hne => remap_holds_channel (hc.free hl hne) ch r v
  region0 off hge hlt := by
    rw [← hc.region0 off hge hlt]
    cases h with
    | @write i k v w hpc hw =>
        have hregion := remapWrites_region (List.mem_of_getElem? hw)
        exact RegisterFile.store_ne (by omega)
    | @channel ch r v =>
        have hlow := hdmaRegOff_lt ch r
        exact RegisterFile.store_ne (by show off ≠ hdmaRegOff ch r; omega)
    | _ => rfl
  log e he := by
    cases h with
    | @access i v op x data hpc =>
        have hok := hc.place i
        rw [hpc] at hok
        rcases List.mem_cons.mp he with rfl | hold
        · exact ⟨hok.1, soc_of_access hok⟩
        · exact hc.log e hold
    | _ => exact hc.log e he

theorem coherent_of_reachable {s : State} (h : (system regs acc).Reachable s) :
    Coherent regs acc s :=
  StepSystem.Reachable.invariant (fun _ hi => Coherent.initial hi)
    (fun s a t hc (hs : Window.step acc s a = some t) => hc.step (fires_of_step hs)) h

/-- What a run keeps about the window: an access at its BAR offset reaches the byte
it asked for, the cached base is the target of both regions 1 except between the first
remap write of the holder of `conbar_lock` and its store of the base, region 0 shows what
`iatu_config` wrote, and a refused access does nothing but return. -/
structure WindowSafe (acc : Nat → Access) (s : State) : Prop where
  access : ∀ i, s.pc i = .access →
    target s.regs .inbound 1 + (acc i).offset = (acc i).args.regAddr
  log : ∀ e ∈ s.log, e.soc = (acc e.client).args.regAddr
  cache : (∀ i, (s.pc i).remapping = false) → s.configBarBase ≠ 0 →
    ∀ dir, target s.regs dir 1 = s.configBarBase
  remap : ∀ i, (s.pc i).remapping = true → s.conbarLock = some i
  region0 : Holds s.regs iatuConfig
  refused : ∀ i, (acc i).accepted = false → (∀ e ∈ s.log, e.client ≠ i) ∧
    ∀ v t, Window.step acc s (.client i v) = some t → t = s.goto i .rejected

theorem Coherent.cached {s : State} (hc : Coherent regs acc s)
    (h : ∀ i, (s.pc i).remapping = false) : Cached s := by
  cases hl : s.conbarLock with
  | none => exact hc.free hl
  | some i =>
      have hin : inside s i = some () := (hc.locks i ()).mpr hl
      have hok := hc.place i
      have hrem := h i
      unfold inside at hin
      cases hpc : s.pc i <;> rw [hpc] at hin hok hrem
      case check => exact hok.2
      case access => exact hok.2.2
      case unlock => exact hok.2
      case remap k =>
        cases k with
        | zero => exact hok.2.2 rfl
        | succ k => cases hrem
      case setBase => cases hrem
      all_goals cases hin

theorem Coherent.refused {s t : State} {i : Nat} {v : BitVec 32} (hc : Coherent regs acc s)
    (hacc : (acc i).accepted = false) (h : Fires acc s (.client i v) t) :
    t = s.goto i .rejected := by
  have hok := hc.place i
  have hno : ∀ {P : Prop}, (acc i).accepted = true → P := by
    intro P htrue
    rw [hacc] at htrue
    cases htrue
  cases h with
  | accept _ htrue => exact hno htrue
  | reject _ _ => rfl
  | lock hpc _ => exact hno (by rw [hpc] at hok; exact hok)
  | miss hpc _ => exact hno (by rw [hpc] at hok; exact hok.1)
  | hit hpc _ => exact hno (by rw [hpc] at hok; exact hok.1)
  | write hpc _ => exact hno (by rw [hpc] at hok; exact hok.1)
  | mapped hpc _ => exact hno (by rw [hpc] at hok; exact hok.1)
  | setBase hpc => exact hno (by rw [hpc] at hok; exact hok.1)
  | access hpc => exact hno (by rw [hpc] at hok; exact hok.1)
  | skip hpc => exact hno (by rw [hpc] at hok; exact hok.1)
  | unlock hpc => exact hno (by rw [hpc] at hok; exact hok.1)

theorem iatuConfig_region {w : Nat × BitVec 32} (h : w ∈ iatuConfig) :
    0x9000 ≤ w.1 ∧ w.1 < 0x9200 := by
  have hkey : w.1 ∈ iatuConfig.map Prod.fst := List.mem_map_of_mem h
  rw [iatuConfig_keys] at hkey
  revert hkey
  generalize w.1 = k
  intro hkey
  simp only [List.mem_cons, List.not_mem_nil, or_false] at hkey
  omega

theorem windowSafe_of_reachable {s : State} (h : (system regs acc).Reachable s) :
    WindowSafe acc s := by
  have hc := coherent_of_reachable h
  refine ⟨fun i hpc => ?_, fun e he => (hc.log e he).2, fun hrem hne dir => ?_, fun i hrem => ?_,
    fun w hw => ?_, fun i hacc => ⟨fun e he heq => ?_, fun v t hst => ?_⟩⟩
  · have hok := hc.place i
    rw [hpc] at hok
    exact soc_of_access hok
  · exact target_of_remap (hc.cached hrem hne) dir
  · refine hc.holder ?_
    cases hpc : s.pc i <;> rw [hpc] at hrem <;> first | rfl | cases hrem
  · obtain ⟨hge, hlt⟩ := iatuConfig_region hw
    rw [hc.region0 w.1 hge hlt]
    exact RegisterFile.holds_storeAll (by rw [iatuConfig_keys]; decide) w hw
  · have htrue := (hc.log e he).1
    rw [heq, hacc] at htrue
    cases htrue
  · exact hc.refused hacc (fires_of_step hst)

end

def sampleAccess (i : Nat) : Access :=
  match i with
  | 0 => ⟨.eonRwReg, ⟨0x50000010, 7, regWrite⟩⟩
  | 1 => ⟨.regsOperations, ⟨0x60000020, 0, regRead⟩⟩
  | _ => ⟨.eonRwReg, ⟨0x10, 0, regWrite⟩⟩

def probedWindow : State where
  regs := storeAll (fun _ => 0) iatuConfig
  configBarBase := 0
  conbarLock := none
  pc _ := .enter
  data i := (sampleAccess i).args.regData
  log := []

theorem two_windows :
    ∃ s, (system (fun _ => 0) sampleAccess).Reachable s ∧ s.log.length = 2 ∧
      s.configBarBase = 0x60000000 ∧ WindowSafe sampleAccess s := by
  obtain ⟨s, hs, hlog, hbase⟩ := StepSystem.exists_reachVia
    (S := system (fun _ => 0) sampleAccess) (g := fun _ _ => True) (s := probedWindow)
    (fun s => s.log.length = 2 ∧ s.configBarBase = 0x60000000)
    (List.replicate 2 (Action.client 0 0) ++
      [Action.client 1 0, .client 2 0, .channel ⟨.rd, 0⟩ .doorbell 1] ++
      List.replicate 13 (Action.client 0 0) ++ List.replicate 14 (Action.client 1 9))
    (.start ⟨rfl, rfl, rfl, fun _ => rfl, fun _ => rfl, rfl⟩)
    (by decide +kernel)
  exact ⟨s, hs, hlog, hbase, windowSafe_of_reachable hs⟩

end Window
end EonDrv

import EonDrv.Completion.Waits

/-!
# The table between the two stages

The upload of a request leaves its descriptor table at `desc_addr`, and the data
stage lets the engine run the table from there.  The lock is released between the
two, and the end of the upload's wait need not be the end of the upload.
-/

namespace EonDrv
namespace Completion

section

variable (reqs : Nat → HdmaRequest)

/-- The device holds the table of `r` at its `desc_addr`. -/
def TableLoaded (mem : BitVec 64 → BitVec 8) (r : Nat) : Prop :=
  ∀ a : BitVec 64, a.toNat < (reqs r).table.length →
    (reqs r).table[a.toNat]? = some (mem ((reqs r).desc.descDeviceAddr + a))

/-- Where a data doorbell is about to be rung, the request's own table is loaded. -/
def StagesAsUnit (s : State) : Prop :=
  ∀ r, s.req r = .doorbell .data → (reqs r).rings .data = true → TableLoaded reqs s.mem r

def Awaiting (s : State) (r : Nat) : Prop :=
  s.stopped ⟨r, .upload⟩ = true ∧ (s.req r).rank ≤ Stage.data.doorRank

/-- The wait of an upload does not return 0 before the upload has stopped. -/
def UploadsWaited (s : State) : Action → Prop
  | .request r =>
    match s.req r with
    | .wait .upload (.check why) =>
      (s.ctx ((reqs r).chan .upload)).state ≠ .running ∨ why = .signal →
        s.stopped ⟨r, .upload⟩ = true
    | _ => True
  | _ => True

/-- No upload stops over the table of another request that awaits its data
doorbell, unless it leaves the bytes of that table as they are. -/
def TablesKept (s : State) : Action → Prop
  | .raise _ o bits =>
    ∀ r, Awaiting s r → o ≠ some ⟨r, .upload⟩ →
      ∀ a : BitVec 64, a.toNat < (reqs r).table.length →
        memAfter reqs s.mem o bits ((reqs r).desc.descDeviceAddr + a) =
          s.mem ((reqs r).desc.descDeviceAddr + a)
  | _ => True

instance (s : State) (a : Action) : Decidable (UploadsWaited reqs s a) := by
  unfold UploadsWaited
  rcases a with r | _ | _ | _ | _ | _ | _ | _ | _ <;> dsimp only <;> try infer_instance
  rcases s.req r <;> try infer_instance
  rename_i st w
  rcases st <;> rcases w <;> infer_instance

/-- After the upload's wait returned 0, up to the data doorbell. -/
def ReqPc.uploaded : ReqPc → Bool
  | .unlock .upload ret => ret == 0
  | .lock .data | .program .data _ | .setRunning .data | .batch _ | .doorbell .data => true
  | _ => false

variable {reqs}

theorem Moves.uploaded {q : HdmaRequest} {pc pc' : ReqPc} (h : Moves q pc pc')
    (h' : pc'.uploaded = true) : pc.uploaded = true := by
  cases h with
  | @programEnd st k =>
      cases st
      · cases h'
      · rfl
  | batchNext => rfl
  | batchEnd => rfl
  | _ => cases h'

theorem Fires.uploaded_cases {s t : State} {a : Action} (h : Fires reqs s a t) {r : Nat}
    (ht : (t.req r).uploaded = true) :
    (s.req r).uploaded = true ∨ ∃ why, EndsWait reqs s a r .upload why 0 := by
  have hmoved : ∀ {u : State} {q : Nat} {p : ReqPc}, u.req = s.req →
      ((u.setReq q p).req r).uploaded = true →
      (p.uploaded = true → (s.req q).uploaded = true) → (s.req r).uploaded = true := by
    intro u q p hu ht' hp
    by_cases hr : r = q
    · subst hr
      rw [State.setReq_req_self] at ht'
      exact hp ht'
    · rw [u.setReq_req_ne hr, hu] at ht'
      exact ht'
  cases h with
  | move hm => exact Or.inl (hmoved rfl ht fun h => hm.uploaded h)
  | @lock r' st hpc _ =>
      refine Or.inl (hmoved (u := s.setCtx _ _) rfl ht fun h => ?_)
      rw [hpc]
      cases st
      · cases h
      · rfl
  | @program r' st k reg val hpc _ =>
      refine Or.inl (hmoved (u := s.setCtx _ _) rfl ht fun h => ?_)
      rw [hpc]
      cases st
      · cases h
      · rfl
  | @setRunning r' st hpc =>
      refine Or.inl (hmoved (u := s.setCtx _ _) rfl ht fun h => ?_)
      rw [hpc]
      cases st
      · cases h
      · rfl
  | refuse _ => exact Or.inl (hmoved rfl ht fun h => by cases h)
  | @ring r' st hpc _ =>
      exact Or.inl (hmoved (u := s) (p := .wait st (.check .woken)) rfl ht fun h => by cases h)
  | skipRing _ _ => exact Or.inl (hmoved rfl ht fun h => by cases h)
  | @complete r' st why hpc hstate =>
      by_cases hr : r = r'
      · subst hr
        rw [State.setReq_req_self] at ht
        cases st with
        | upload => exact Or.inr ⟨why, rfl, hpc, Or.inl ⟨hstate, rfl⟩⟩
        | data => cases ht
      · rw [s.setReq_req_ne hr] at ht
        exact Or.inl ht
  | sleep _ _ => exact Or.inl (hmoved rfl ht fun h => by cases h)
  | @timeout r' st hpc _ =>
      refine Or.inl (hmoved rfl ht fun h => ?_)
      cases st <;> cases h
  | @signal r' st hpc hstate =>
      by_cases hr : r = r'
      · subst hr
        rw [State.setReq_req_self] at ht
        cases st with
        | upload => exact Or.inr ⟨.signal, rfl, hpc, Or.inr ⟨hstate, Or.inr ⟨rfl, rfl⟩⟩⟩
        | data => cases ht
      · rw [s.setReq_req_ne hr] at ht
        exact Or.inl ht
  | @unlock r' st ret hpc =>
      refine Or.inl (hmoved (u := s.setCtx _ _) rfl ht fun h => ?_)
      rw [hpc]
      cases st with
      | data => cases h
      | upload =>
          by_cases hret : ret = 0
          · exact beq_iff_eq.mpr hret
          · simp [afterStage, hret, ReqPc.uploaded] at h
  | rouse _ _ => exact Or.inl (hmoved rfl ht fun h => by cases h)
  | @wake sc ch status _ _ =>
      rcases wakeUp_cases reqs s.req ch r with hsame | ⟨st, _, _, hw⟩
      · exact Or.inl (hsame ▸ ht)
      · have ht' : (wakeUp reqs s.req ch r).uploaded = true := ht
        rw [hw] at ht'
        cases ht'
  | _ => exact Or.inl ht

theorem Fires.mem_cases {s t : State} {a : Action} (h : Fires reqs s a t) :
    t.mem = s.mem ∧ t.stopped = s.stopped ∨
      ∃ ch o bits, a = .raise ch o bits ∧ t.mem = memAfter reqs s.mem o bits ∧
        t.stopped = marked s.stopped o (HasStop bits) := by
  cases h with
  | @raise ch o bits _ => exact Or.inr ⟨ch, o, bits, rfl, rfl, rfl⟩
  | _ => exact Or.inl ⟨rfl, rfl⟩

theorem tableLoaded_storeBytes (mem : BitVec 64 → BitVec 8) (r : Nat) :
    TableLoaded reqs (storeBytes mem (reqs r).desc.descDeviceAddr (reqs r).table) r := by
  intro a ha
  have hsub : (reqs r).desc.descDeviceAddr + a - (reqs r).desc.descDeviceAddr = a := by
    rw [BitVec.add_comm, BitVec.add_sub_cancel]
  unfold storeBytes
  rw [hsub, List.getD_eq_getElem?_getD, List.getElem?_eq_getElem ha]
  rfl

structure Loaded (reqs : Nat → HdmaRequest) (s : State) : Prop where
  stopped : ∀ r, (s.req r).uploaded = true → s.stopped ⟨r, .upload⟩ = true
  table : ∀ r, Awaiting s r → TableLoaded reqs s.mem r

theorem Loaded.step {s t : State} {a : Action} (hl : Loaded reqs s)
    (hwait : UploadsWaited reqs s a) (hkept : TablesKept reqs s a) (h : Fires reqs s a t) :
    Loaded reqs t where
  stopped r hr := by
    rcases h.uploaded_cases hr with hold | ⟨why, hend⟩
    · exact h.stopped_mono (hl.stopped r hold)
    · refine h.stopped_mono ?_
      rw [hend.action] at hwait
      simp only [UploadsWaited, hend.place] at hwait
      refine hwait ?_
      rcases hend.cause with ⟨hstate, _⟩ | ⟨_, ⟨_, hret⟩ | ⟨hwhy, _⟩⟩
      · exact Or.inl hstate
      · cases hret
      · exact Or.inr hwhy
  table r := by
    rintro ⟨hstop, hrank⟩
    have hawait : s.stopped ⟨r, .upload⟩ = true → Awaiting s r :=
      fun hold => ⟨hold, Nat.le_trans (h.rank_le r) hrank⟩
    rcases h.mem_cases with ⟨hmem, hsame⟩ | ⟨ch, o, bits, rfl, hmem, hmarked⟩
    · rw [hmem]
      exact hl.table r (hawait (hsame ▸ hstop))
    · rw [hmem]
      by_cases ho : o = some ⟨r, .upload⟩
      · subst ho
        by_cases hbits : HasStop bits
        · have hstore : memAfter reqs s.mem (some ⟨r, .upload⟩) bits =
              storeBytes s.mem (reqs r).desc.descDeviceAddr (reqs r).table := if_pos hbits
          rw [hstore]
          exact tableLoaded_storeBytes s.mem r
        · have hstore : memAfter reqs s.mem (some ⟨r, .upload⟩) bits = s.mem := if_neg hbits
          rw [hmarked, marked_eq_true, decide_eq_true_eq] at hstop
          rw [hstore]
          exact hl.table r (hawait (hstop.resolve_right fun hr => hbits hr.2))
      · rw [hmarked, marked_eq_true] at hstop
        have hold := hawait (hstop.resolve_right fun hr => ho hr.1)
        intro a ha
        rw [hkept r hold ho a ha]
        exact hl.table r hold a ha

/-- In a run where every upload is waited for and no awaited table is overwritten,
every data doorbell finds the request's own table. -/
theorem stagesAsUnit_of_waited {s : State}
    (h : (system reqs).ReachVia (fun s a => UploadsWaited reqs s a ∧ TablesKept reqs s a) s) :
    StagesAsUnit reqs s := by
  have hloaded : Loaded reqs s := by
    refine h.invariant (fun s hs => ⟨fun r hr => ?_, fun r hr => ?_⟩)
      (fun s a t hl hg hst => hl.step hg.1 hg.2 (fires_of_step hst))
    · rw [hs.req r] at hr
      cases hr
    · rw [Awaiting, hs.stopped] at hr
      cases hr.1
  intro r hpc _
  refine hloaded.table r ⟨hloaded.stopped r ?_, ?_⟩
  · rw [hpc]
    rfl
  · rw [hpc]
    exact Nat.le_refl _

def DisjointTables (reqs : Nat → HdmaRequest) : Prop :=
  ∀ r r', r ≠ r' → ∀ a b : BitVec 64, a.toNat < (reqs r).table.length →
    b.toNat < (reqs r').table.length →
    (reqs r).desc.descDeviceAddr + a ≠ (reqs r').desc.descDeviceAddr + b

theorem storeBytes_of_ne {mem : BitVec 64 → BitVec 8} {addr x : BitVec 64}
    {bytes : List (BitVec 8)} (h : ∀ b : BitVec 64, b.toNat < bytes.length → x ≠ addr + b) :
    storeBytes mem addr bytes x = mem x := by
  have hlen : bytes.length ≤ (x - addr).toNat := by
    by_contra hlt
    refine h (x - addr) (by omega) ?_
    rw [BitVec.add_comm, BitVec.sub_add_cancel]
  unfold storeBytes
  rw [List.getD_eq_getElem?_getD, List.getElem?_eq_none hlen]
  rfl

theorem tablesKept_of_disjoint (hdisj : DisjointTables reqs) (s : State) (a : Action) :
    TablesKept reqs s a := by
  cases a with
  | raise ch o bits =>
      intro r _ ho a ha
      unfold memAfter
      split
      · rename_i r' 
        have hr : r ≠ r' := by
          rintro rfl
          exact ho rfl
        split
        · exact storeBytes_of_ne fun b hb => hdisj r r' hr a b ha hb
        · rfl
      · rfl
  | _ => trivial

end

/-- Two requests on channel 0 with tables at `0x1000` and `0x2000`. -/
def twoTables (r : Nat) : HdmaRequest :=
  match r with
  | 0 => copyIn 0x1000 1
  | 1 => copyIn 0x2000 2
  | _ => { copyIn 0 0 with table := [] }

theorem twoTables_disjoint : DisjointTables twoTables := by
  intro r r' hr a b ha hb heq
  match r, r' with
  | 0, 0 => exact hr rfl
  | 1, 1 => exact hr rfl
  | 0, 1 =>
      have hnat := congrArg BitVec.toNat heq
      simp [twoTables, copyIn, BitVec.toNat_add] at hnat ha hb
      omega
  | 1, 0 =>
      have hnat := congrArg BitVec.toNat heq
      simp [twoTables, copyIn, BitVec.toNat_add] at hnat ha hb
      omega
  | r + 2, _ => simp [twoTables] at ha
  | _, r' + 2 => simp [twoTables] at hb

theorem interleaved_table_loaded :
    ∃ s, (system twoTables).ReachVia
        (fun s a => UploadsWaited twoTables s a ∧ TablesKept twoTables s a) s ∧
      s.req 0 = .doorbell .data ∧ s.stopped ⟨1, .upload⟩ = true ∧ StagesAsUnit twoTables s := by
  obtain ⟨s, hs, hpc, hstop⟩ := StepSystem.exists_reachVia
    (S := system twoTables) (g := UploadsWaited twoTables)
    (fun s => s.req 0 = .doorbell .data ∧ s.stopped ⟨1, .upload⟩ = true)
    (untilUpload 0 ++ stopUpload 0 ++ threadSteps 42 ++ List.replicate 2 (Action.request 0) ++
      untilUpload 1 ++ stopUpload 1 ++ threadSteps 42 ++ List.replicate 2 (Action.request 1) ++
      List.replicate 10 (Action.request 0))
    (.start probed_initial) (by decide +kernel)
  have hkept := hs.mono fun s a hg => And.intro hg (tablesKept_of_disjoint twoTables_disjoint s a)
  exact ⟨s, hkept, hpc, hstop, stagesAsUnit_of_waited hkept⟩

/-- Request 1 has uploaded its table to `0x1000`.  A signal ends the wait of the
upload of request 0 to the same address with 0, and the data doorbell of request 0
is rung over the table of request 1. -/
theorem not_stagesAsUnit : ¬ ∀ s, (system sample).Reachable s → StagesAsUnit sample s := by
  intro hall
  obtain ⟨s, hs, hpc, hmem⟩ := StepSystem.exists_reachVia
    (S := system sample) (g := fun _ _ => True)
    (fun s => s.req 0 = .doorbell .data ∧ s.mem 0x1000 = 1)
    (untilUpload 1 ++ stopUpload 1 ++ threadSteps 42 ++ List.replicate 2 (Action.request 1) ++
      untilUpload 0 ++ [Action.interrupt 0] ++ List.replicate 12 (Action.request 0))
    (.start probed_initial) (by decide +kernel)
  have hbyte := hall s hs 0 hpc rfl 0 (by decide)
  rw [show (sample 0).desc.descDeviceAddr + 0 = 0x1000 from rfl, hmem] at hbyte
  exact absurd hbyte (by decide)

end Completion
end EonDrv

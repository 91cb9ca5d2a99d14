import SysproKernel.Memory.InitTables

/-!
# `Memory.Slots` — what a run of `init_virtual_memory` checks and writes

For any layout constants at all: a run that returns has passed every ASSERT (`Asserted`), and has written
the slots of `Written` and no other byte (`initVirtualMemory_writesOnly`), wherever these lie. They are
the slots the forest of the layout uses (`written_iff_used`). If they are all inside their tables, the
constants fit, and `init_virtual_memory` has built that forest.
-/

namespace SysproKernel
namespace Memory

open Lib.ByteMem Lib.Loop

variable {K : VmConsts} {L : TableLayout K} {m m' : Mem} {s : VmState} {i : Nat}

/-! ## What a run has checked -/

/-- The ASSERTs of `init_virtual_memory`. -/
structure VmConsts.Asserted (K : VmConsts) : Prop where
  lapicAligned : K.lapicBufAddr % pageLen = 0
  fbAligned : K.frameBufAddr % pageLen = 0
  fbLenAligned : K.frameBufLen % pageLen = 0
  samePd : K.lapicBufAddr / pdLen = K.frameBufAddr / pdLen
  kernelAligned : K.kernelMemAddr % ptLen = 0
  kernelRoom : kernelPtBase K + K.nKernelPTs ≤ nPagesInTable
  taskRoom : ptIndexBase K + K.nTaskPTs ≤ nPagesInTable
  taskAligned : K.taskVaddrStart % pageLen = 0
  lapicPdp : K.lapicBufAddr / pdpLen = K.taskVaddrStart / pdpLen
  kernelPdp : K.kernelMemAddr / pdpLen = K.taskVaddrStart / pdpLen

theorem VmConsts.Fits.asserted (h : K.Fits) : K.Asserted := { h with }

theorem of_assert_ok {cond : Bool} {text : String} {u : Unit} (h : assert cond text = .ok u) :
    cond = true := by
  unfold assert at h
  split at h
  · assumption
  · cases h

theorem initVirtualMemory_asserted {cr3 : Nat} (h : initVirtualMemory L m cr3 = .ok s) :
    K.Asserted := by
  obtain ⟨m₁, hlapic, h⟩ := of_bind_ok h
  obtain ⟨m₂, hfb, h⟩ := of_bind_ok h
  obtain ⟨m₃, hio, h⟩ := of_bind_ok h
  obtain ⟨m₄, hkernel, h⟩ := of_bind_ok h
  -- the last of the tasks has passed the same checks as the others
  obtain ⟨s', -, h⟩ := of_bind_ok h
  obtain ⟨m₅, htask, -⟩ := of_bind_ok h
  obtain ⟨_, hlapicAligned, -⟩ := of_bind_ok hlapic
  obtain ⟨_, hfbAligned, hfb⟩ := of_bind_ok hfb
  obtain ⟨_, hfbLenAligned, -⟩ := of_bind_ok hfb
  obtain ⟨_, hsamePd, -⟩ := of_bind_ok hio
  obtain ⟨_, hkernelAligned, hkernel⟩ := of_bind_ok hkernel
  obtain ⟨_, hkernelRoom, -⟩ := of_bind_ok hkernel
  obtain ⟨_, htaskRoom, htask⟩ := of_bind_ok htask
  obtain ⟨_, htaskAligned, htask⟩ := of_bind_ok htask
  obtain ⟨_, hlapicPdp, htask⟩ := of_bind_ok htask
  obtain ⟨_, hkernelPdp, -⟩ := of_bind_ok htask
  exact
    { lapicAligned := beq_iff_eq.mp (of_assert_ok hlapicAligned)
      fbAligned := beq_iff_eq.mp (of_assert_ok hfbAligned)
      fbLenAligned := beq_iff_eq.mp (of_assert_ok hfbLenAligned)
      samePd := beq_iff_eq.mp (of_assert_ok hsamePd)
      kernelAligned := beq_iff_eq.mp (of_assert_ok hkernelAligned)
      kernelRoom := of_decide_eq_true (of_assert_ok hkernelRoom)
      taskRoom := of_decide_eq_true (of_assert_ok htaskRoom)
      taskAligned := beq_iff_eq.mp (of_assert_ok htaskAligned)
      lapicPdp := beq_iff_eq.mp (of_assert_ok hlapicPdp)
      kernelPdp := beq_iff_eq.mp (of_assert_ok hkernelPdp) }

/-! ## The slots written -/

/-- The slots `init_virtual_memory` writes: `table[index]` for every call of `init_entry`. -/
inductive Written (K : VmConsts) : TableId → Nat → Prop where
  | lapicPT : Written K .lapicPT (lapicPageIndex K)
  | fbPT (i : Nat) (hi : i < (nFbPages K).toNat) : Written K .fbPT (fbPageBase K + i)
  | ioLapic : Written K .ioPD (lapicPtIndex K)
  | ioFb : Written K .ioPD (fbPtIndex K)
  | kernelPTs (i j : Nat) (hi : i < K.nKernelPTs) (hj : j < nPagesInTable) : Written K (.kernelPTs i) j
  | kernelPD (i : Nat) (hi : i < K.nKernelPTs) : Written K .kernelPD (i + kernelPtBase K)
  | PTs (i j k : Nat) (hi : i < nTasks) (hj : j < K.nTaskPTs) (hk : k < nPagesInTable) :
      Written K (.PTs i j) k
  | PDs (i j : Nat) (hi : i < nTasks) (hj : j < K.nTaskPTs) : Written K (.PDs i) (j + ptIndexBase K)
  | pdpTask (i : Nat) (hi : i < nTasks) : Written K (.PDPs i) (pdIndex K)
  | pdpIo (i : Nat) (hi : i < nTasks) : Written K (.PDPs i) (ioPdIndex K)
  | pdpKernel (i : Nat) (hi : i < nTasks) : Written K (.PDPs i) (kernelPdIndex K)
  | PML4s (i : Nat) (hi : i < nTasks) : Written K (.PML4s i) (pdpIndex K)

/-- Only slots of `Written` differ. -/
def WritesOnly (L : TableLayout K) (m m' : Mem) : Prop :=
  ∀ x, (∀ T k, Written K T k → x < L.slot T k ∨ L.slot T k + 8 ≤ x) → m' x = m x

theorem WritesOnly.refl (m : Mem) : WritesOnly L m m := fun _ _ => rfl

theorem WritesOnly.trans {m'' : Mem} (h : WritesOnly L m m') (h' : WritesOnly L m' m'') :
    WritesOnly L m m'' := fun x hx => (h' x hx).trans (h x hx)

theorem initEntry_writesOnly {T : TableId} {k a : Nat} (hw : Written K T k)
    (h : initEntry m (L.slot T k) a = .ok m') : WritesOnly L m m' := by
  obtain ⟨page, -, h⟩ := of_bind_ok h
  cases h
  intro x hx
  exact store_outside (hx T k hw)

theorem forLoop_writesOnly {n : Nat} {body : Nat → Mem → Except String Mem}
    (hbody : ∀ i m m', i < n → body i m = .ok m' → WritesOnly L m m')
    (h : forLoop n body m = .ok m') : WritesOnly L m m' :=
  forLoop_of_ok (fun _ m' => WritesOnly L m m') (WritesOnly.refl m)
    (fun i m₁ m₂ hi hinv hrun => hinv.trans (hbody i m₁ m₂ hi hrun)) h

theorem initIo_writesOnly {m₁ m₂ m₃ : Mem} (hlapic : initLapicPT L m = .ok m₁)
    (hfb : initFbPT L m₁ = .ok m₂) (hio : initIoPD L m₂ = .ok m₃) : WritesOnly L m m₃ := by
  obtain ⟨_, -, hlapic⟩ := of_bind_ok hlapic
  obtain ⟨_, -, hfb⟩ := of_bind_ok hfb
  obtain ⟨_, -, hfb⟩ := of_bind_ok hfb
  obtain ⟨_, -, hio⟩ := of_bind_ok hio
  obtain ⟨m', hioLapic, hioFb⟩ := of_bind_ok hio
  have h₁ := initEntry_writesOnly .lapicPT hlapic
  have h₂ := forLoop_writesOnly (fun i _ _ hi hrun => initEntry_writesOnly (.fbPT i hi) hrun) hfb
  have h₃ := initEntry_writesOnly .ioLapic hioLapic
  have h₄ := initEntry_writesOnly .ioFb hioFb
  exact h₁.trans (h₂.trans (h₃.trans h₄))

theorem initKernelTables_writesOnly (h : initKernelTables L m = .ok m') : WritesOnly L m m' := by
  obtain ⟨_, -, h⟩ := of_bind_ok h
  obtain ⟨_, -, h⟩ := of_bind_ok h
  refine forLoop_writesOnly (fun i m₁ m₂ hi hrun => ?_) h
  obtain ⟨m₃, hpages, htable⟩ := of_bind_ok hrun
  have h₁ := forLoop_writesOnly (fun j _ _ hj hrun => initEntry_writesOnly (.kernelPTs i j hi hj) hrun) hpages
  exact h₁.trans (initEntry_writesOnly (.kernelPD i hi) htable)

theorem initTaskTables_writesOnly (hi : i < nTasks) (h : initTaskTables L i m = .ok m') :
    WritesOnly L m m' := by
  obtain ⟨_, -, h⟩ := of_bind_ok h
  obtain ⟨_, -, h⟩ := of_bind_ok h
  obtain ⟨_, -, h⟩ := of_bind_ok h
  obtain ⟨_, -, h⟩ := of_bind_ok h
  obtain ⟨m₁, htables, h⟩ := of_bind_ok h
  obtain ⟨m₂, htask, h⟩ := of_bind_ok h
  obtain ⟨m₃, hio, h⟩ := of_bind_ok h
  obtain ⟨m₄, hkernel, hroot⟩ := of_bind_ok h
  have h₁ : WritesOnly L m m₁ := by
    refine forLoop_writesOnly (fun j n₁ n₂ hj hrun => ?_) htables
    obtain ⟨n₃, hpages, htable⟩ := of_bind_ok hrun
    have hpages := forLoop_writesOnly
      (fun k _ _ hk hrun => initEntry_writesOnly (.PTs i j k hi hj hk) hrun) hpages
    exact hpages.trans (initEntry_writesOnly (.PDs i j hi hj) htable)
  have h₂ := initEntry_writesOnly (.pdpTask i hi) htask
  have h₃ := initEntry_writesOnly (.pdpIo i hi) hio
  have h₄ := initEntry_writesOnly (.pdpKernel i hi) hkernel
  have h₅ := initEntry_writesOnly (.PML4s i hi) hroot
  exact h₁.trans (h₂.trans (h₃.trans (h₄.trans h₅)))

/-- **`init_virtual_memory` writes the slots of `Written` and nothing else**, wherever they lie. -/
theorem initVirtualMemory_writesOnly {cr3 : Nat} (h : initVirtualMemory L m cr3 = .ok s) :
    WritesOnly L m s.mem := by
  obtain ⟨m₁, hlapic, h⟩ := of_bind_ok h
  obtain ⟨m₂, hfb, h⟩ := of_bind_ok h
  obtain ⟨m₃, hio, h⟩ := of_bind_ok h
  obtain ⟨m₄, hkernel, h⟩ := of_bind_ok h
  have hbefore := (initIo_writesOnly hlapic hfb hio).trans (initKernelTables_writesOnly hkernel)
  refine forLoop_of_ok (fun _ (s : VmState) => WritesOnly L m s.mem) hbefore ?_ h
  intro i s₁ s₂ hi hinv hrun
  obtain ⟨m₅, htask, hrun⟩ := of_bind_ok hrun
  obtain ⟨_, -, hrun⟩ := of_bind_ok hrun
  cases hrun
  exact hinv.trans (initTaskTables_writesOnly hi htask)

/-- The slots written are the slots the forest of the layout uses. -/
theorem written_iff_used {T : TableId} {k : Nat} :
    Written K T k ↔ (forestAfter K nTasks T k).isSome := by
  constructor
  · intro h
    cases h with
    | lapicPT => simp [forestAfter]
    | fbPT i hi => simp [forestAfter, hi]
    | ioLapic =>
        simp only [forestAfter, if_true]
        split_ifs <;> rfl
    | ioFb => simp [forestAfter]
    | kernelPTs i j hi hj => simp [forestAfter, hi, hj]
    | kernelPD i hi =>
        have hrange : kernelPtBase K ≤ i + kernelPtBase K
            ∧ i + kernelPtBase K < kernelPtBase K + K.nKernelPTs := by omega
        simp only [forestAfter, if_pos hrange, Option.isSome_some]
    | PTs i j k hi hj hk => simp [forestAfter, hi, hj, hk]
    | PDs i j hi hj =>
        have hrange : i < nTasks ∧ ptIndexBase K ≤ j + ptIndexBase K
            ∧ j + ptIndexBase K < ptIndexBase K + K.nTaskPTs := by omega
        simp only [forestAfter, if_pos hrange, Option.isSome_some]
    | pdpTask i hi =>
        simp only [forestAfter, if_pos hi, if_true]
        split_ifs <;> rfl
    | pdpIo i hi =>
        simp only [forestAfter, if_pos hi, if_true]
        split_ifs <;> rfl
    | pdpKernel i hi => simp [forestAfter, hi]
    | PML4s i hi => simp [forestAfter, hi]
  · intro h
    cases T <;> simp only [forestAfter] at h
    case PML4s i =>
      split_ifs at h with hk
      · exact hk.2 ▸ .PML4s i hk.1
      · cases h
    case PDPs i =>
      split_ifs at h with hi hkernel hio htask
      · exact hkernel ▸ .pdpKernel i hi
      · exact hio ▸ .pdpIo i hi
      · exact htask ▸ .pdpTask i hi
      all_goals cases h
    case PDs i =>
      split_ifs at h with hk
      · obtain ⟨hi, hlo, hhi⟩ := hk
        have hw := Written.PDs (K := K) i (k - ptIndexBase K) hi (by omega)
        rwa [Nat.sub_add_cancel hlo] at hw
      · cases h
    case PTs i j =>
      split_ifs at h with hk
      · exact .PTs i j k hk.1 hk.2.1 hk.2.2
      · cases h
    case kernelPD =>
      split_ifs at h with hk
      · obtain ⟨hlo, hhi⟩ := hk
        have hw := Written.kernelPD (K := K) (k - kernelPtBase K) (by omega)
        rwa [Nat.sub_add_cancel hlo] at hw
      · cases h
    case kernelPTs i =>
      split_ifs at h with hk
      · exact .kernelPTs i k hk.1 hk.2
      · cases h
    case ioPD =>
      split_ifs at h with hfb hlapic
      · exact hfb ▸ .ioFb
      · exact hlapic ▸ .ioLapic
      · cases h
    case fbPT =>
      split_ifs at h with hk
      · obtain ⟨hlo, hhi⟩ := hk
        have hw := Written.fbPT (K := K) (k - fbPageBase K) (by omega)
        rwa [Nat.add_sub_cancel' hlo] at hw
      · cases h
    case lapicPT =>
      split_ifs at h with hk
      · exact hk ▸ .lapicPT
      · cases h
    case additionalPT => cases h
    case additionalPD => cases h

/-- Every table index used is inside its table. -/
def InTables (K : VmConsts) : Prop := ∀ T k, Written K T k → k < nPagesInTable

theorem InTables.pdpRoom (h : InTables K) : pdpIndex K < nPagesInTable :=
  h (.PML4s 0) _ (.PML4s 0 (by decide))

theorem InTables.kernelPdRoom (h : InTables K) : kernelPdIndex K < nPagesInTable :=
  h (.PDPs 0) _ (.pdpKernel 0 (by decide))

theorem InTables.fbRoom (h : InTables K) : fbPageBase K + (nFbPages K).toNat ≤ nPagesInTable := by
  rcases Nat.eq_zero_or_pos (nFbPages K).toNat with hnone | hsome
  · rw [hnone]
    simp only [fbPageBase, ptLen, pageLen, nPagesInTable]
    omega
  · have hlast := h .fbPT _ (.fbPT ((nFbPages K).toNat - 1) (by omega))
    omega

/-- Constants the ASSERTs and the tables have room for fit: the PML4 index keeps addresses below 2^48. -/
theorem InTables.fits (h : InTables K) (hK : K.Asserted) : K.Fits := by
  have hpdp := h.pdpRoom
  have hfb := h.fbRoom
  have hkernelRoom := hK.kernelRoom
  have htaskRoom := hK.taskRoom
  have hsamePd := hK.samePd
  have hlapicPdp := hK.lapicPdp
  have hkernelPdp := hK.kernelPdp
  refine { kernel := ?_, lapicBelow := ?_, fbBelow := ?_, taskBelow := ?_
           lapicAligned := hK.lapicAligned, fbAligned := hK.fbAligned
           fbLenAligned := hK.fbLenAligned, samePd := hsamePd
           kernelAligned := hK.kernelAligned, kernelRoom := hkernelRoom, taskRoom := htaskRoom
           taskAligned := hK.taskAligned, lapicPdp := hlapicPdp, kernelPdp := hkernelPdp
           fbRoom := hfb, pdpRoom := hpdp, kernelPdRoom := h.kernelPdRoom }
  all_goals
    simp only [pdpIndex, fbPageBase, kernelPtBase, ptIndexBase, VmConsts.nKernelPTs, VmConsts.nTaskPTs,
      pdpLen, pdLen, ptLen, pageLen, nPagesInTable, task2PhysAddrStart] at *
    omega

end Memory
end SysproKernel

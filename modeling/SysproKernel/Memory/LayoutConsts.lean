import SysproKernel.Memory.AddressSpaces

/-!
# `Memory.LayoutConsts` — the layout constants of memory.c

`init_virtual_memory` checks its layout constants with ASSERTs. A run that gets past them need not have
built the intended page tables: the slot of a task's first table is computed in pages instead of tables,
the kernel's slot is not reduced to one table, and nothing keeps the frame buffer in one table or the
regions in different directories. `layoutCorrect_iff` says for which constants the ASSERTs suffice.

A constant of 2^48 or more gives an index outside the PML4, so what an `int` does to larger quotients, or
an addition to larger addresses, never decides anything here.
-/

namespace SysproKernel
namespace Memory

open Lib.ByteMem

variable {K : VmConsts} {L : TableLayout K} {m : Mem} {s : VmState} {i v p : Nat}

/-! ## The intended layout -/

/-- What `init_virtual_memory` is to leave behind: no index outside a table, and for every task its own
    memory at its own place and the shared regions where they are. -/
structure LayoutCorrect (K : VmConsts) (s : VmState) : Prop where
  indices : InTables K
  task : ∀ i < nTasks, ∀ x < K.taskMemLen,
    walk s.mem (s.taskCr3s i) (K.taskVaddrStart + x) = some (getTaskPhysAddr i + x)
  frameBuf : ∀ i < nTasks, ∀ x < K.frameBufLen,
    walk s.mem (s.taskCr3s i) (K.frameBufAddr + x) = some (K.frameBufAddr + x)
  lapic : ∀ i < nTasks, ∀ x < pageLen,
    walk s.mem (s.taskCr3s i) (K.lapicBufAddr + x) = some (K.lapicBufAddr + x)
  kernel : ∀ i < nTasks, ∀ x < K.kernelMemLen,
    walk s.mem (s.taskCr3s i) (K.kernelMemAddr + x) = some (K.kernelMemAddr + x)

/-! ## What a correct layout needs -/

theorem VmConsts.Regions.not_mem_of_fb (h : K.Regions) (hv : v ∈ K.fbRegion) :
    v ∉ K.lapicRegion ∧ v ∉ K.kernelRegion := by
  have hfb := (List.pairwise_cons.mp (List.pairwise_cons.mp h.disjoint).2).1
  exact ⟨Set.disjoint_left.mp (hfb K.lapicRegion (by simp)) hv,
    Set.disjoint_left.mp (hfb K.kernelRegion (by simp)) hv⟩

theorem VmConsts.Regions.not_mem_of_lapic (h : K.Regions) (hv : v ∈ K.lapicRegion) :
    v ∉ K.fbRegion ∧ v ∉ K.kernelRegion := by
  have htail := (List.pairwise_cons.mp (List.pairwise_cons.mp h.disjoint).2).2
  have hkernel := (List.pairwise_cons.mp htail).1 K.kernelRegion (by simp)
  exact ⟨fun hfb => (h.not_mem_of_fb hfb).1 hv, Set.disjoint_left.mp hkernel hv⟩

/-- The frame buffer's loop does not leave its region, however long the `int` takes it to be. -/
theorem nFbPages_le (K : VmConsts) : (nFbPages K).toNat ≤ K.frameBufLen / pageLen := by
  unfold nFbPages toInt32
  generalize K.frameBufLen / pageLen = n
  rw [BitVec.toInt_eq_toNat_cond, BitVec.toNat_ofNat]
  split_ifs <;> omega

/-- An address found at itself is in the region it was found through. -/
theorem SharedPage.mem_region (h : SharedPage K v v) :
    v ∈ K.kernelRegion
      ∨ v ∈ K.fbRegion ∧ v / ptLen % nPagesInTable = fbPtIndex K
      ∨ v ∈ K.lapicRegion ∧ v / pdLen % nPagesInTable ≠ kernelPdIndex K
        ∧ v / ptLen % nPagesInTable ≠ fbPtIndex K := by
  have hindex := index_lt v pageLen
  have hfbLen := nFbPages_le K
  obtain ⟨p, hp, h⟩ : ∃ p, p = v ∧ SharedPage K v p := ⟨v, rfl, h⟩
  simp only [VmConsts.kernelRegion, VmConsts.fbRegion, VmConsts.lapicRegion, Set.mem_Ico]
  cases h with
  | kernel _ hlo hhi =>
      left
      simp only [VmConsts.nKernelPTs, pageLen, ptLen, nPagesInTable] at *
      omega
  | frameBuf _ _ hslot hlo hhi =>
      right; left
      refine ⟨?_, hslot⟩
      simp only [pageLen, nPagesInTable] at *
      omega
  | lapic hkernel _ hfb _ _ =>
      right; right
      refine ⟨?_, hkernel, hfb⟩
      simp only [pageLen] at *
      omega

/-- The walks after a run that stayed inside the tables. -/
theorem walk_iff {cr3 : Nat} (hzero : ∀ x ∈ L.bytes, m x = 0)
    (hrun : initVirtualMemory L m cr3 = .ok s) (hin : InTables K) (hi : i < nTasks) :
    walk s.mem (s.taskCr3s i) v = some p ↔ v / pdpLen % nPagesInTable = pdpIndex K ∧ Page K i v p := by
  have hfits := hin.fits (initVirtualMemory_asserted hrun)
  obtain ⟨s', hok, hrep, -, hroots⟩ := initVirtualMemory_represents hfits hzero cr3
  obtain rfl : s = s' := Except.ok.inj (hrun.symm.trans hok)
  rw [hroots i hi, walk_eq_translate hrep hi, translate_iff hi]

theorem InTables.kernelBelow (h : InTables K) : K.kernelMemAddr < pdpLen := by
  have hroom := h.kernelPdRoom
  simp only [kernelPdIndex, pdLen, pdpLen, nPagesInTable] at *
  omega

theorem frameBuf_oneTable (hK : K.Asserted) (hregions : K.Regions) (hin : InTables K)
    (hfb : ∀ x < K.frameBufLen, SharedPage K (K.frameBufAddr + x) (K.frameBufAddr + x)) :
    K.frameBufLen = 0 ∨ K.frameBufLen = ptLen ∧ K.frameBufAddr % ptLen = 0 := by
  have hlen := hregions.fbLen
  rcases Nat.lt_or_ge ptLen K.frameBufLen with hlong | hshort
  · -- the second table of the frame buffer has no slot of its own
    have hv : K.frameBufAddr + ptLen ∈ K.fbRegion := ⟨by omega, by omega⟩
    obtain ⟨hlapic, hkernel⟩ := hregions.not_mem_of_fb hv
    obtain h | ⟨-, hslot⟩ | ⟨h, -⟩ := (hfb ptLen hlong).mem_region
    · exact absurd h hkernel
    · simp only [fbPtIndex, ptLen, pdLen, nPagesInTable] at hslot
      omega
    · exact absurd h hlapic
  · by_cases hzero : K.frameBufLen = 0
    · exact .inl hzero
    · have htable : K.frameBufLen = ptLen := by
        simp only [ptLen] at *
        omega
      have hpages : (nFbPages K).toNat = nPagesInTable := by
        rw [nFbPages, htable]
        decide
      have hroom := hin.fbRoom
      have haligned := hK.fbAligned
      refine .inr ⟨htable, ?_⟩
      simp only [hpages, fbPageBase, ptLen, pageLen, nPagesInTable] at *
      omega

/-- A page the tasks do not share is their own. -/
theorem Page.own_of_differ {q : Nat} (h₀ : Page K 0 v p) (h₁ : Page K 1 v q) (hne : p ≠ q) :
    v / pdLen % nPagesInTable ≠ kernelPdIndex K ∧ v / pdLen % nPagesInTable ≠ ioPdIndex K
      ∧ ptIndexBase K ≤ v / ptLen % nPagesInTable
      ∧ p = getTaskPhysAddr 0 + (((v / ptLen % nPagesInTable - ptIndexBase K) * nPagesInTable
        + v / pageLen % nPagesInTable) * pageLen + v % pageLen) := by
  cases h₀ with
  | task hkernel hio _ hlo _ => exact ⟨hkernel, hio, hlo, rfl⟩
  | shared h =>
      cases h₁ with
      | shared h' => exact absurd (h.unique h') hne
      | task hkernel hio _ _ _ => exact absurd h.dir (by simp [hkernel, hio])

theorem task_ownDirectory (hK : K.Asserted) (hkernel : K.kernelMemAddr < pdpLen)
    (htask : ∀ i < nTasks, Page K i K.taskVaddrStart (getTaskPhysAddr i)) :
    K.taskVaddrStart % pdLen = 0 ∧ K.taskVaddrStart / pdLen ≠ K.lapicBufAddr / pdLen
      ∧ K.taskVaddrStart / pdLen ≠ K.kernelMemAddr / pdLen := by
  obtain ⟨hkernelDir, hioDir, hlo, hp⟩ :=
    (htask 0 (by decide)).own_of_differ (htask 1 (by decide)) (by decide)
  obtain ⟨htaskBelow, hlapicBelow, -⟩ := hK.below hkernel
  have haligned := hK.taskAligned
  simp only [kernelPdIndex, ioPdIndex, ptIndexBase, pdpLen, pdLen, ptLen, pageLen, nPagesInTable] at *
  omega

theorem lapic_ownTable (hK : K.Asserted) (hregions : K.Regions) (hkernel : K.kernelMemAddr < pdpLen)
    (hlapic : SharedPage K K.lapicBufAddr K.lapicBufAddr) :
    K.kernelMemAddr / pdLen ≠ K.lapicBufAddr / pdLen
      ∧ K.frameBufAddr / ptLen ≠ K.lapicBufAddr / ptLen := by
  have hv : K.lapicBufAddr ∈ K.lapicRegion := ⟨Nat.le_refl _, Nat.lt_add_of_pos_right (by decide)⟩
  obtain ⟨hnotFb, hnotKernel⟩ := hregions.not_mem_of_lapic hv
  obtain ⟨-, hlapicBelow, -⟩ := hK.below hkernel
  obtain h | ⟨h, -⟩ | ⟨-, hdir, hslot⟩ := hlapic.mem_region
  · exact absurd h hnotKernel
  · exact absurd h hnotFb
  · simp only [kernelPdIndex, fbPtIndex, pdpLen, pdLen, ptLen, nPagesInTable] at *
    omega

/-! ## Exactly the sound layouts -/

section Run

variable {cr3 : Nat} (hzero : ∀ x ∈ L.bytes, m x = 0) (hrun : initVirtualMemory L m cr3 = .ok s)
include hzero hrun

theorem sound_of_layoutCorrect (hregions : K.Regions) (h : LayoutCorrect K s) : K.Sound := by
  have hK := initVirtualMemory_asserted hrun
  have hin := h.indices
  have hkernel := hin.kernelBelow
  -- an address every task finds at itself is on a shared page
  have hshared : ∀ v, (∀ i < nTasks, walk s.mem (s.taskCr3s i) v = some v) → SharedPage K v v := by
    intro v hwalk
    have h₀ := (walk_iff hzero hrun hin (by decide)).mp (hwalk 0 (by decide))
    have h₁ := (walk_iff hzero hrun hin (by decide)).mp (hwalk 1 (by decide))
    exact Page.shared_of_agree h₀.2 h₁.2
  have hlapic := lapic_ownTable hK hregions hkernel
    (hshared _ (fun i hi => h.lapic i hi 0 (by decide)))
  refine ⟨hkernel, ?_, ?_, hlapic.1, hlapic.2⟩
  · exact frameBuf_oneTable hK hregions hin
      (fun x hx => hshared _ (fun i hi => h.frameBuf i hi x hx))
  · rcases Nat.eq_zero_or_pos K.taskMemLen with hnone | hsome
    · exact .inl hnone
    · refine .inr (task_ownDirectory hK hkernel (fun i hi => ?_))
      exact ((walk_iff hzero hrun hin hi).mp (h.task i hi 0 hsome)).2

theorem layoutCorrect_of_sound (hregions : K.Regions) (h : K.Sound) : LayoutCorrect K s := by
  have hK := initVirtualMemory_asserted hrun
  have hin := inTables_of_sound hK h
  exact
    { indices := hin
      task := fun i hi x hx => (walk_iff hzero hrun hin hi).mpr (page_task hK hregions h hx)
      frameBuf := fun i hi x hx => (walk_iff hzero hrun hin hi).mpr (page_frameBuf hK h hx)
      lapic := fun i hi x hx => (walk_iff hzero hrun hin hi).mpr (page_lapic hK h hx)
      kernel := fun i hi x hx => (walk_iff hzero hrun hin hi).mpr (page_kernel hK hregions h hx) }

end Run

/-- **The ASSERTs suffice exactly for sound layouts.** For every choice of regions that gets past the
    ASSERTs, the tables are those intended if and only if the constants also meet `Sound`. -/
theorem layoutCorrect_iff {cr3 : Nat} (hzero : ∀ x ∈ L.bytes, m x = 0)
    (hrun : initVirtualMemory L m cr3 = .ok s) (hregions : K.Regions) :
    LayoutCorrect K s ↔ K.Sound :=
  ⟨sound_of_layoutCorrect hzero hrun hregions, layoutCorrect_of_sound hzero hrun hregions⟩

/-- The layout of the source is sound. -/
theorem layoutCorrect_shipped :
    ∃ s, initVirtualMemory packedLayout (fun _ => 0) 0 = .ok s ∧ LayoutCorrect shipped s := by
  have hzero : ∀ x ∈ packedLayout.bytes, (fun _ => 0 : Mem) x = 0 := fun _ _ => rfl
  obtain ⟨s, hok, -⟩ := initVirtualMemory_represents shipped_fits hzero 0
  exact ⟨s, hok, (layoutCorrect_iff hzero hok shipped_regions).mpr shipped_sound⟩

/-! ## A layout the ASSERTs let through -/

/-- The layout of the source with the tasks one page further up. -/
def shiftedTask : VmConsts := { shipped with taskVaddrStart := 0x40001000 }

/-- Its tables are those of the source. -/
def shiftedLayout : TableLayout shiftedTask where
  addr := packedLayout.addr
  aligned := packedLayout.aligned
  below := packedLayout.below
  distinct := packedLayout.distinct

theorem shiftedTask_fits : shiftedTask.Fits where
  toBelow := ⟨by decide⟩
  lapicAligned := by decide
  fbAligned := by decide
  fbLenAligned := by decide
  samePd := by decide
  kernelAligned := by decide
  kernelRoom := by decide
  taskRoom := by decide
  taskAligned := by decide
  lapicPdp := by decide
  kernelPdp := by decide
  fbRoom := by decide
  pdpRoom := by decide
  kernelPdRoom := by decide
  lapicBelow := by decide
  fbBelow := by decide
  taskBelow := by decide

theorem shiftedTask_regions : shiftedTask.Regions where
  taskLen := by decide
  fbLen := by decide
  kernelLen := by decide
  disjoint := by
    simp [VmConsts.taskRegion, VmConsts.fbRegion, VmConsts.lapicRegion, VmConsts.kernelRegion,
      Set.Ico_disjoint_Ico, shiftedTask, shipped, pageLen]

/-- With the tasks at `0x40001000` every ASSERT passes, and no task finds the first byte of its memory. -/
theorem shifted_task_unmapped :
    shiftedTask.Regions ∧ ∃ s, initVirtualMemory shiftedLayout (fun _ => 0) 0 = .ok s
      ∧ walk s.mem (s.taskCr3s 0) 0x40001000 = none ∧ ¬LayoutCorrect shiftedTask s := by
  obtain ⟨s, hok, hrep, -, hroots⟩ :=
    initVirtualMemory_represents (L := shiftedLayout) (m := fun _ => 0) shiftedTask_fits
      (fun _ _ => rfl) 0
  have hnone : walk s.mem (s.taskCr3s 0) 0x40001000 = none := by
    rw [hroots 0 (by decide), walk_eq_translate hrep (by decide)]
    decide
  refine ⟨shiftedTask_regions, s, hok, hnone, fun h => ?_⟩
  have htask := h.task 0 (by decide) 0 (by decide)
  exact absurd (hnone.symm.trans htask) nofun

end Memory
end SysproKernel

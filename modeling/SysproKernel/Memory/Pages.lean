import SysproKernel.Memory.InitTables

/-!
# `Memory.Pages` — where a task finds an address

The forest `init_virtual_memory` builds, for any constants, gives every address at most one of four pages
(`translate_iff`). The last entry written to a slot decides, so the kernel comes before the devices, and
these before the task. Two tasks find an address at the same place only in a shared region
(`Page.shared_of_agree`).
-/

namespace SysproKernel
namespace Memory

variable {K : VmConsts} {i v p : Nat}

/-! ## The translation, for any constants -/

/-- Where every task finds address `v` of a shared region: the directory of the kernel was entered after
    that of the devices, and in the latter the frame buffer after the LAPIC. -/
inductive SharedPage (K : VmConsts) (v : Nat) : Nat → Prop where
  | kernel (hdir : v / pdLen % nPagesInTable = kernelPdIndex K)
      (hlo : kernelPtBase K ≤ v / ptLen % nPagesInTable)
      (hhi : v / ptLen % nPagesInTable < kernelPtBase K + K.nKernelPTs) :
      SharedPage K v (K.kernelMemAddr + ((v / ptLen % nPagesInTable - kernelPtBase K) * nPagesInTable
        + v / pageLen % nPagesInTable) * pageLen + v % pageLen)
  | frameBuf (hkernel : v / pdLen % nPagesInTable ≠ kernelPdIndex K)
      (hdir : v / pdLen % nPagesInTable = ioPdIndex K)
      (hslot : v / ptLen % nPagesInTable = fbPtIndex K)
      (hlo : fbPageBase K ≤ v / pageLen % nPagesInTable)
      (hhi : v / pageLen % nPagesInTable < fbPageBase K + (nFbPages K).toNat) :
      SharedPage K v
        (K.frameBufAddr + (v / pageLen % nPagesInTable - fbPageBase K) * pageLen + v % pageLen)
  | lapic (hkernel : v / pdLen % nPagesInTable ≠ kernelPdIndex K)
      (hdir : v / pdLen % nPagesInTable = ioPdIndex K)
      (hfb : v / ptLen % nPagesInTable ≠ fbPtIndex K)
      (hslot : v / ptLen % nPagesInTable = lapicPtIndex K)
      (hpage : v / pageLen % nPagesInTable = lapicPageIndex K) :
      SharedPage K v (K.lapicBufAddr + v % pageLen)

/-- Where task `i` finds address `v`: its own directory was entered before the shared ones. -/
inductive Page (K : VmConsts) (i v : Nat) : Nat → Prop where
  | shared {p : Nat} (h : SharedPage K v p) : Page K i v p
  | task (hkernel : v / pdLen % nPagesInTable ≠ kernelPdIndex K)
      (hio : v / pdLen % nPagesInTable ≠ ioPdIndex K)
      (hdir : v / pdLen % nPagesInTable = pdIndex K)
      (hlo : ptIndexBase K ≤ v / ptLen % nPagesInTable)
      (hhi : v / ptLen % nPagesInTable < ptIndexBase K + K.nTaskPTs) :
      Page K i v (getTaskPhysAddr i + (((v / ptLen % nPagesInTable - ptIndexBase K) * nPagesInTable
        + v / pageLen % nPagesInTable) * pageLen + v % pageLen))

/-- **The translation finds exactly the page of `Page`**, in the PML4 slot of the tasks. -/
theorem translate_iff (hi : i < nTasks) :
    (forestAfter K nTasks).translate (.PML4s i) v = some p ↔
      v / pdpLen % nPagesInTable = pdpIndex K ∧ Page K i v p := by
  have hindex := index_lt v pageLen
  rw [translate_eq_some_iff]
  simp only [next_eq_some_iff]
  constructor
  · rintro ⟨pdp, pd, pt, a, h4, h3, h2, h1, rfl⟩
    simp only [forestAfter, hi, true_and] at h4
    split_ifs at h4 with hroot
    cases h4
    refine ⟨hroot, ?_⟩
    simp only [forestAfter, hi, if_true] at h3
    split_ifs at h3 with hkernel hio htask
    · cases h3
      simp only [forestAfter] at h2
      split_ifs at h2 with hslot
      cases h2
      simp only [forestAfter] at h1
      split_ifs at h1 with hpage
      cases h1
      exact .shared (.kernel hkernel hslot.1 hslot.2)
    · cases h3
      simp only [forestAfter] at h2
      split_ifs at h2 with hfb hlapic
      · cases h2
        simp only [forestAfter] at h1
        split_ifs at h1 with hpage
        cases h1
        exact .shared (.frameBuf hkernel hio hfb hpage.1 hpage.2)
      · cases h2
        simp only [forestAfter] at h1
        split_ifs at h1 with hpage
        cases h1
        exact .shared (.lapic hkernel hio hfb hlapic hpage)
    · cases h3
      simp only [forestAfter, hi, true_and] at h2
      split_ifs at h2 with hslot
      cases h2
      simp only [forestAfter] at h1
      split_ifs at h1 with hpage
      cases h1
      rw [Nat.add_assoc]
      exact .task hkernel hio htask hslot.1 hslot.2
  · rintro ⟨hroot, hpage⟩
    have h4 : forestAfter K nTasks (.PML4s i) (v / pdpLen % nPagesInTable) = some (.table (.PDPs i)) :=
      if_pos ⟨hi, hroot⟩
    cases hpage with
    | shared hpage =>
        cases hpage with
        | kernel hdir hlo hhi =>
            exact ⟨.PDPs i, .kernelPD, _, _, h4, (if_pos hi).trans (if_pos hdir), if_pos ⟨hlo, hhi⟩,
              if_pos ⟨by omega, hindex⟩, rfl⟩
        | frameBuf hkernel hdir hslot hlo hhi =>
            exact ⟨.PDPs i, .ioPD, .fbPT, _, h4,
              (if_pos hi).trans ((if_neg hkernel).trans (if_pos hdir)), if_pos hslot,
              if_pos ⟨hlo, hhi⟩, rfl⟩
        | lapic hkernel hdir hfb hslot hpage =>
            exact ⟨.PDPs i, .ioPD, .lapicPT, _, h4,
              (if_pos hi).trans ((if_neg hkernel).trans (if_pos hdir)),
              (if_neg hfb).trans (if_pos hslot), if_pos hpage, rfl⟩
    | task hkernel hio hdir hlo hhi =>
        exact ⟨.PDPs i, .PDs i, _, _, h4,
          (if_pos hi).trans ((if_neg hkernel).trans ((if_neg hio).trans (if_pos hdir))),
          if_pos ⟨hi, hlo, hhi⟩, if_pos ⟨hi, by omega, hindex⟩, Nat.add_assoc ..⟩

theorem SharedPage.dir (h : SharedPage K v p) :
    v / pdLen % nPagesInTable = kernelPdIndex K ∨ v / pdLen % nPagesInTable = ioPdIndex K := by
  cases h with
  | kernel hdir _ _ => exact .inl hdir
  | frameBuf _ hdir _ _ _ => exact .inr hdir
  | lapic _ hdir _ _ _ => exact .inr hdir

theorem SharedPage.unique {p' : Nat} (h : SharedPage K v p) (h' : SharedPage K v p') : p = p' := by
  cases h <;> cases h' <;> first | rfl | contradiction

/-- A page two tasks agree on is a shared one: the memories of the tasks start at different places. -/
theorem Page.shared_of_agree (h₀ : Page K 0 v p) (h₁ : Page K 1 v p) : SharedPage K v p := by
  obtain ⟨q, hq, h₁⟩ : ∃ q, q = p ∧ Page K 1 v q := ⟨p, rfl, h₁⟩
  cases h₁ with
  | shared h => exact hq ▸ h
  | task hkernel hio _ _ _ =>
      cases h₀ with
      | shared h => exact absurd h.dir (by simp [hkernel, hio])
      | task _ _ _ _ _ =>
          have h0 : getTaskPhysAddr 0 = 0x104000000 := rfl
          have h1 : getTaskPhysAddr 1 = 0x105000000 := rfl
          omega

end Memory
end SysproKernel

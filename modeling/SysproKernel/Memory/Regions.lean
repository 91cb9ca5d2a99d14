import Mathlib.Order.CompletePartialOrder
import Mathlib.Order.Interval.Set.Disjoint
import SysproKernel.Lib.Windows
import SysproKernel.Memory.Pages
import SysproKernel.Memory.Slots

/-!
# `Memory.Regions` — sound layouts and their windows

The constants of memory.c name four regions. `Sound` is what the ASSERTs of `init_virtual_memory` leave
unchecked about them; where it holds too, no index leaves its table (`inTables_of_sound`) and a task's
tables translate exactly as the four linear windows of its regions do (`translate_eq_lookup`).
-/

namespace SysproKernel
namespace Memory

open Lib.Windows

variable {K : VmConsts} {i v p x : Nat}

/-! ## The regions -/

namespace VmConsts

def taskRegion (K : VmConsts) : Set Nat := Set.Ico K.taskVaddrStart (K.taskVaddrStart + K.taskMemLen)
def fbRegion (K : VmConsts) : Set Nat := Set.Ico K.frameBufAddr (K.frameBufAddr + K.frameBufLen)
def lapicRegion (K : VmConsts) : Set Nat := Set.Ico K.lapicBufAddr (K.lapicBufAddr + pageLen)
def kernelRegion (K : VmConsts) : Set Nat := Set.Ico K.kernelMemAddr (K.kernelMemAddr + K.kernelMemLen)

end VmConsts

/-- A choice of regions: lengths in whole tables, address ranges pairwise disjoint. -/
structure VmConsts.Regions (K : VmConsts) : Prop where
  taskLen : K.taskMemLen % ptLen = 0
  fbLen : K.frameBufLen % ptLen = 0
  kernelLen : K.kernelMemLen % ptLen = 0
  disjoint : [K.taskRegion, K.fbRegion, K.lapicRegion, K.kernelRegion].Pairwise Disjoint

/-- The address space of task `i`: its private memory, and the regions every task shares. -/
def VmConsts.windows (K : VmConsts) (i : Nat) : List Window :=
  [{ vbase := K.taskVaddrStart, len := K.taskMemLen, pbase := getTaskPhysAddr i },
    .identity K.frameBufAddr K.frameBufLen, .identity K.lapicBufAddr pageLen,
    .identity K.kernelMemAddr K.kernelMemLen]

theorem VmConsts.Regions.apart (h : K.Regions) (i : Nat) : Apart (K.windows i) := by
  have hdisjoint : ((K.windows i).map fun w => {v | w.Contains v}).Pairwise Disjoint := h.disjoint
  rw [List.pairwise_map] at hdisjoint
  exact hdisjoint.imp fun hd v hv => Set.disjoint_left.mp hd hv

/-- The condition the ASSERTs leave unchecked: the kernel in the first half TiB, the frame buffer exactly
    one table (or none), the task at the start of a directory no other region uses, the kernel in a
    directory without devices, and the two devices in different tables. -/
structure VmConsts.Sound (K : VmConsts) : Prop where
  kernelBelow : K.kernelMemAddr < pdpLen
  frameBuf : K.frameBufLen = 0 ∨ K.frameBufLen = ptLen ∧ K.frameBufAddr % ptLen = 0
  task : K.taskMemLen = 0 ∨ K.taskVaddrStart % pdLen = 0
    ∧ K.taskVaddrStart / pdLen ≠ K.lapicBufAddr / pdLen
    ∧ K.taskVaddrStart / pdLen ≠ K.kernelMemAddr / pdLen
  kernelDir : K.kernelMemAddr / pdLen ≠ K.lapicBufAddr / pdLen
  deviceTables : K.frameBufAddr / ptLen ≠ K.lapicBufAddr / ptLen

/-- The ASSERTs put all regions into the PML4 slot of the kernel. -/
theorem VmConsts.Asserted.below (hK : K.Asserted) (hkernel : K.kernelMemAddr < pdpLen) :
    K.taskVaddrStart < pdpLen ∧ K.lapicBufAddr < pdpLen ∧ K.frameBufAddr < pdpLen := by
  have hsamePd := hK.samePd
  have hlapicPdp := hK.lapicPdp
  have hkernelPdp := hK.kernelPdp
  simp only [pdpLen, pdLen] at *
  omega

/-! ## Inside the tables -/

theorem VmConsts.Sound.nFbPages_eq (h : K.Sound) :
    (nFbPages K).toNat = K.frameBufLen / pageLen
      ∧ fbPageBase K + (nFbPages K).toNat ≤ nPagesInTable := by
  have hbase : fbPageBase K < nPagesInTable := by
    simp only [fbPageBase, ptLen, pageLen, nPagesInTable]
    omega
  rcases h.frameBuf with hlen | ⟨hlen, haligned⟩
  · have hpages : (nFbPages K).toNat = 0 := by
      rw [nFbPages, hlen]
      decide
    rw [hpages, hlen]
    exact ⟨by decide, Nat.le_of_lt hbase⟩
  · have hpages : (nFbPages K).toNat = nPagesInTable := by
      rw [nFbPages, hlen]
      decide
    rw [hpages, hlen, fbPageBase, haligned]
    decide

theorem inTables_of_sound (hK : K.Asserted) (h : K.Sound) : InTables K := by
  obtain ⟨htask, -, -⟩ := hK.below h.kernelBelow
  have hkernel := h.kernelBelow
  have hkernelRoom := hK.kernelRoom
  have htaskRoom := hK.taskRoom
  have hfbRoom := h.nFbPages_eq.2
  intro T k hw
  cases hw with
  | lapicPT => exact lapicPageIndex_lt K
  | fbPT i hi => omega
  | ioLapic => exact ptIndex_lt K.lapicBufAddr
  | ioFb => exact ptIndex_lt K.frameBufAddr
  | kernelPTs i j hi hj => exact hj
  | kernelPD i hi => omega
  | PTs i j k hi hj hk => exact hk
  | PDs i j hi hj => omega
  | pdpTask i hi => exact pdIndex_lt K.taskVaddrStart
  | pdpIo i hi => exact pdIndex_lt K.lapicBufAddr
  | pdpKernel i hi =>
      simp only [kernelPdIndex, pdpLen, pdLen, nPagesInTable] at *
      omega
  | PML4s i hi =>
      simp only [pdpIndex, pdpLen, nPagesInTable] at *
      omega

/-! ## The translation -/

theorem page_task (hK : K.Asserted) (hregions : K.Regions) (h : K.Sound) (hx : x < K.taskMemLen) :
    (K.taskVaddrStart + x) / pdpLen % nPagesInTable = pdpIndex K
      ∧ Page K i (K.taskVaddrStart + x) (getTaskPhysAddr i + x) := by
  obtain hnone | ⟨haligned, hlapic, hkernel⟩ := h.task
  · omega
  obtain ⟨hbelow, hlapicBelow, -⟩ := hK.below h.kernelBelow
  have hkernelBelow := h.kernelBelow
  have hlen := hregions.taskLen
  have hroom := hK.taskRoom
  have hbase : ptIndexBase K = 0 := by rw [ptIndexBase, haligned, Nat.zero_div]
  rw [hbase, VmConsts.nTaskPTs] at hroom
  have hpage := Page.task (K := K) (i := i) (v := K.taskVaddrStart + x)
  rw [hbase] at hpage
  simp only [VmConsts.nTaskPTs, kernelPdIndex, ioPdIndex, pdIndex, pdpIndex, pdpLen, pdLen, ptLen, pageLen,
    nPagesInTable] at *
  refine ⟨by omega, ?_⟩
  have hp := hpage (by omega) (by omega) (by omega) (by omega) (by omega)
  convert hp using 2
  omega

theorem page_kernel (hK : K.Asserted) (hregions : K.Regions) (h : K.Sound) (hx : x < K.kernelMemLen) :
    (K.kernelMemAddr + x) / pdpLen % nPagesInTable = pdpIndex K
      ∧ Page K i (K.kernelMemAddr + x) (K.kernelMemAddr + x) := by
  obtain ⟨hbelow, -, -⟩ := hK.below h.kernelBelow
  have hkernelBelow := h.kernelBelow
  have haligned := hK.kernelAligned
  have hlen := hregions.kernelLen
  have hroom := hK.kernelRoom
  have hpage := SharedPage.kernel (K := K) (v := K.kernelMemAddr + x)
  simp only [VmConsts.nKernelPTs, kernelPdIndex, kernelPtBase, pdpIndex, pdpLen, pdLen, ptLen, pageLen,
    nPagesInTable] at *
  refine ⟨by omega, ?_⟩
  have hp := hpage (by omega) (by omega) (by omega)
  refine .shared ?_
  convert hp using 1
  omega

theorem page_frameBuf (hK : K.Asserted) (h : K.Sound) (hx : x < K.frameBufLen) :
    (K.frameBufAddr + x) / pdpLen % nPagesInTable = pdpIndex K
      ∧ Page K i (K.frameBufAddr + x) (K.frameBufAddr + x) := by
  obtain hnone | ⟨hlen, haligned⟩ := h.frameBuf
  · omega
  obtain ⟨hbelow, hlapicBelow, hfbBelow⟩ := hK.below h.kernelBelow
  have hkernelBelow := h.kernelBelow
  have hkernelDir := h.kernelDir
  have hsamePd := hK.samePd
  have hpages := h.nFbPages_eq.1
  have hpage := SharedPage.frameBuf (K := K) (v := K.frameBufAddr + x)
  rw [hpages] at hpage
  simp only [hlen, kernelPdIndex, ioPdIndex, fbPtIndex, fbPageBase, pdpIndex, pdpLen, pdLen, ptLen, pageLen,
    nPagesInTable] at *
  refine ⟨by omega, ?_⟩
  have hp := hpage (by omega) (by omega) (by omega) (by omega) (by omega)
  refine .shared ?_
  convert hp using 1
  omega

theorem page_lapic (hK : K.Asserted) (h : K.Sound) (hx : x < pageLen) :
    (K.lapicBufAddr + x) / pdpLen % nPagesInTable = pdpIndex K
      ∧ Page K i (K.lapicBufAddr + x) (K.lapicBufAddr + x) := by
  obtain ⟨hbelow, hlapicBelow, hfbBelow⟩ := hK.below h.kernelBelow
  have hkernelBelow := h.kernelBelow
  have hkernelDir := h.kernelDir
  have htables := h.deviceTables
  have hsamePd := hK.samePd
  have haligned := hK.lapicAligned
  have hpage := SharedPage.lapic (K := K) (v := K.lapicBufAddr + x)
  simp only [kernelPdIndex, ioPdIndex, fbPtIndex, lapicPtIndex, lapicPageIndex, pdpIndex, pdpLen, pdLen, ptLen,
    pageLen, nPagesInTable] at *
  refine ⟨by omega, ?_⟩
  have hp := hpage (by omega) (by omega) (by omega) (by omega) (by omega)
  refine .shared ?_
  convert hp using 1
  omega

/-- Every address of a window is found where the window says. -/
theorem page_of_window {w : Window} (hK : K.Asserted) (hregions : K.Regions) (h : K.Sound)
    (hw : w ∈ K.windows i) (hv : w.Contains v) :
    v / pdpLen % nPagesInTable = pdpIndex K ∧ Page K i v (w.pbase + (v - w.vbase)) := by
  obtain ⟨x, rfl⟩ := Nat.exists_eq_add_of_le hv.1
  have hx : x < w.len := Nat.lt_of_add_lt_add_left hv.2
  rw [Nat.add_sub_cancel_left]
  simp only [VmConsts.windows, List.mem_cons, List.not_mem_nil, or_false] at hw
  rcases hw with rfl | rfl | rfl | rfl
  · exact page_task hK hregions h hx
  · exact page_frameBuf hK h hx
  · exact page_lapic hK h hx
  · exact page_kernel hK hregions h hx

/-- Every page a sound layout gives is in one of its windows. -/
theorem window_of_page (hK : K.Asserted) (h : K.Sound) (hv : v < 2 ^ 48)
    (hroot : v / pdpLen % nPagesInTable = pdpIndex K) (hpage : Page K i v p) :
    ∃ w ∈ K.windows i, w.Contains v ∧ p = w.pbase + (v - w.vbase) := by
  obtain ⟨hbelow, hlapicBelow, hfbBelow⟩ := hK.below h.kernelBelow
  have hkernelBelow := h.kernelBelow
  have hsamePd := hK.samePd
  simp only [VmConsts.windows, List.mem_cons, List.not_mem_nil, or_false, exists_eq_or_imp,
    exists_eq_left, Window.Contains, Window.identity]
  cases hpage with
  | shared hpage =>
      cases hpage with
      | kernel hdir hlo hhi =>
          have haligned := hK.kernelAligned
          right; right; right
          simp only [VmConsts.nKernelPTs, kernelPdIndex, kernelPtBase, pdpIndex, pdpLen, pdLen, ptLen,
            pageLen, nPagesInTable] at *
          omega
      | frameBuf hkernel hdir hslot hlo hhi =>
          rw [h.nFbPages_eq.1] at hhi
          have haligned := h.frameBuf
          right; left
          simp only [ioPdIndex, fbPtIndex, fbPageBase, pdpIndex, pdpLen, pdLen, ptLen, pageLen,
            nPagesInTable] at *
          omega
      | lapic hkernel hdir hfb hslot hpage =>
          have haligned := hK.lapicAligned
          right; right; left
          simp only [ioPdIndex, lapicPtIndex, lapicPageIndex, pdpIndex, pdpLen, pdLen, ptLen, pageLen,
            nPagesInTable] at *
          omega
  | task hkernel hio hdir hlo hhi =>
      obtain hnone | ⟨haligned, -, -⟩ := h.task
      · rw [VmConsts.nTaskPTs, hnone, Nat.zero_div] at hhi
        omega
      · have hbase : ptIndexBase K = 0 := by rw [ptIndexBase, haligned, Nat.zero_div]
        left
        rw [hbase] at hlo hhi ⊢
        simp only [VmConsts.nTaskPTs, pdIndex, pdpIndex, pdpLen, pdLen, ptLen, pageLen,
          nPagesInTable] at *
        omega

/-- **A sound layout translates as its windows do**, on every 48-bit address. -/
theorem translate_eq_lookup (hK : K.Asserted) (hregions : K.Regions) (h : K.Sound) (hi : i < nTasks)
    (hv : v < 2 ^ 48) :
    (forestAfter K nTasks).translate (.PML4s i) v = lookup (K.windows i) v := by
  refine Option.ext fun p => ?_
  rw [translate_iff hi, (hregions.apart i).lookup_eq_some_iff]
  constructor
  · rintro ⟨hroot, hpage⟩
    exact window_of_page hK h hv hroot hpage
  · rintro ⟨w, hw, hin, rfl⟩
    exact page_of_window hK hregions h hw hin

end Memory
end SysproKernel

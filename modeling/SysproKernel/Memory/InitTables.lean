import SysproKernel.Memory.Forest
import Mathlib.Tactic.SplitIfs

/-!
# `Memory.InitTables` — `init_virtual_memory` builds the intended forest

`initVirtualMemory_represents`: for every choice of constants that fits its own tables
(`VmConsts.Fits`), `init_virtual_memory` passes its ASSERTs and leaves a memory that represents
`forestAfter K nTasks`, the forest written down directly from the layout. Each loop of the source is one
lemma about `Forest.fill`/`Forest.set`; the task loop carries `forestAfter K i` as its invariant.
-/

namespace SysproKernel
namespace Memory

open Lib.ByteMem Lib.Loop

/-! ## Constants that fit -/

/-- The constants meet the ASSERTs, every index they give is inside its table, and every address fits
    an entry. -/
structure VmConsts.Fits (K : VmConsts) : Prop extends K.Below where
  lapicAligned : K.lapicBufAddr % pageLen = 0
  fbAligned : K.frameBufAddr % pageLen = 0
  fbLenAligned : K.frameBufLen % pageLen = 0
  samePd : K.lapicBufAddr / pdLen = K.frameBufAddr / pdLen
  kernelAligned : K.kernelMemAddr % ptLen = 0
  kernelRoom : kernelPtBase K + K.nKernelPTs ≤ nPagesInTable
  taskRoom : ptIndexBase K + K.nTaskPTs ≤ nPagesInTable
  taskAligned : K.taskVaddrStart % pageLen = 0
  lapicPdp : K.lapicBufAddr / pdpLen = K.taskVaddrStart / pdpLen
  kernelPdp : K.kernelMemAddr / pdpLen = K.taskVaddrStart / pdpLen
  fbRoom : fbPageBase K + (nFbPages K).toNat ≤ nPagesInTable
  pdpRoom : pdpIndex K < nPagesInTable
  kernelPdRoom : kernelPdIndex K < nPagesInTable
  lapicBelow : K.lapicBufAddr < 2 ^ 52
  fbBelow : K.frameBufAddr + (nFbPages K).toNat * pageLen ≤ 2 ^ 52
  taskBelow : task2PhysAddrStart + K.taskMemLen ≤ 2 ^ 52

theorem shipped_below : shipped.Below := ⟨by decide⟩

theorem shipped_fits : shipped.Fits where
  toBelow := shipped_below
  lapicAligned := by decide
  fbAligned := by decide
  fbLenAligned := by decide
  samePd := by decide
  kernelAligned := by decide
  kernelRoom := by decide
  taskRoom := by decide
  taskAligned := by decide
  lapicPdp := by decide
  kernelPdp := by decide
  fbRoom := by decide
  pdpRoom := by decide
  kernelPdRoom := by decide
  lapicBelow := by decide
  fbBelow := by decide
  taskBelow := by decide

variable {K : VmConsts} {L : TableLayout K} {m : Mem} {τ : Forest}

/-! ## Filling runs of slots -/

namespace Forest

/-- Slots `base, …, base + n - 1` of table `T` refer to `f 0, …, f (n - 1)`. -/
def fill (τ : Forest) (T : TableId) (base n : Nat) (f : Nat → Ref) : Forest :=
  fun T' k => if T' = T ∧ base ≤ k ∧ k < base + n then some (f (k - base)) else τ T' k

theorem fill_zero (τ : Forest) (T : TableId) (base : Nat) (f : Nat → Ref) :
    τ.fill T base 0 f = τ := by
  funext T' k
  rw [fill, if_neg (by omega)]

theorem fill_succ (τ : Forest) (T : TableId) (base n : Nat) (f : Nat → Ref) :
    τ.fill T base (n + 1) f = (τ.fill T base n f).set T (base + n) (f n) := by
  funext T' k
  by_cases hT : T' = T
  · subst hT
    by_cases hk : k = base + n
    · subst hk
      simp [fill, set]
    · have hlt : k < base + (n + 1) ↔ k < base + n := by omega
      simp [fill, set, hk, hlt]
  · simp [fill, set, hT]

end Forest

/-- **Filling loop.** A loop of `init_entry` over consecutive slots of one table is `Forest.fill`. -/
theorem forLoop_fill {T : TableId} {b n : Nat} {f : Nat → Ref}
    {body : Nat → Mem → Except String Mem}
    (hbody : ∀ i m, body i m = initEntry m (L.slot T (b + i)) ((f i).addr L))
    (h : Represents L m τ) (hT : T.Valid K) (hroom : b + n ≤ nPagesInTable)
    (hfits : ∀ i < n, (f i).Fits K T) :
    ∃ m', forLoop n body m = .ok m' ∧ Represents L m' (τ.fill T b n f) := by
  refine forLoop_ok (fun i m => Represents L m (τ.fill T b i f)) ?_ ?_
  · rw [Forest.fill_zero]
    exact h
  · intro i m₁ hi hrep
    obtain ⟨m₂, hok, hrep'⟩ := initEntry_represents hrep hT (k := b + i) (by omega) (hfits i hi)
    exact ⟨m₂, by rw [hbody, hok], by rw [Forest.fill_succ]; exact hrep'⟩

/-! ## The forest, written down from the layout -/

/-- The forest of a machine whose first `n` tasks have been initialised. -/
def forestAfter (K : VmConsts) (n : Nat) : Forest
  | .PML4s i, k => if i < n ∧ k = pdpIndex K then some (.table (.PDPs i)) else none
  | .PDPs i, k =>
      if i < n then
        if k = kernelPdIndex K then some (.table .kernelPD)
        else if k = ioPdIndex K then some (.table .ioPD)
        else if k = pdIndex K then some (.table (.PDs i))
        else none
      else none
  | .PDs i, k =>
      if i < n ∧ ptIndexBase K ≤ k ∧ k < ptIndexBase K + K.nTaskPTs then
        some (.table (.PTs i (k - ptIndexBase K)))
      else none
  | .PTs i j, k =>
      if i < n ∧ j < K.nTaskPTs ∧ k < nPagesInTable then
        some (.page (getTaskPhysAddr i + (j * nPagesInTable + k) * pageLen))
      else none
  | .kernelPD, k =>
      if kernelPtBase K ≤ k ∧ k < kernelPtBase K + K.nKernelPTs then
        some (.table (.kernelPTs (k - kernelPtBase K)))
      else none
  | .kernelPTs i, k =>
      if i < K.nKernelPTs ∧ k < nPagesInTable then
        some (.page (K.kernelMemAddr + (i * nPagesInTable + k) * pageLen))
      else none
  | .ioPD, k =>
      if k = fbPtIndex K then some (.table .fbPT)
      else if k = lapicPtIndex K then some (.table .lapicPT)
      else none
  | .fbPT, k =>
      if fbPageBase K ≤ k ∧ k < fbPageBase K + (nFbPages K).toNat then
        some (.page (K.frameBufAddr + (k - fbPageBase K) * pageLen))
      else none
  | .lapicPT, k => if k = lapicPageIndex K then some (.page K.lapicBufAddr) else none
  | .additionalPT, _ => none
  | .additionalPD, _ => none

/-! ## Device and kernel tables -/

theorem lapicPageIndex_lt (K : VmConsts) : lapicPageIndex K < nPagesInTable := by
  simp only [lapicPageIndex, nPagesInTable, ptLen, pageLen]
  omega

theorem ptIndex_lt (a : Nat) : a % pdLen / ptLen < nPagesInTable := by
  simp only [nPagesInTable, ptLen, pdLen]
  omega

theorem pdIndex_lt (a : Nat) : a % pdpLen / pdLen < nPagesInTable := by
  simp only [nPagesInTable, pdpLen, pdLen]
  omega

/-- The forest after `// lapic PT`, `// fb PT` and `// lapic + fb PD`. -/
def ioForest (K : VmConsts) : Forest :=
  (((Forest.empty.set .lapicPT (lapicPageIndex K) (.page K.lapicBufAddr)).fill .fbPT
    (fbPageBase K) (nFbPages K).toNat (fun i => .page (K.frameBufAddr + i * pageLen))).set .ioPD
    (lapicPtIndex K) (.table .lapicPT)).set .ioPD (fbPtIndex K) (.table .fbPT)

theorem initIo_represents (hK : K.Fits) (h : Represents L m Forest.empty) :
    ∃ m₁ m₂ m₃, initLapicPT L m = .ok m₁ ∧ initFbPT L m₁ = .ok m₂ ∧ initIoPD L m₂ = .ok m₃
      ∧ Represents L m₃ (ioForest K) := by
  obtain ⟨m₁, hok₁, h₁⟩ := initEntry_represents h (T := .lapicPT) (r := .page K.lapicBufAddr)
    trivial (lapicPageIndex_lt K) ⟨rfl, hK.lapicAligned, hK.lapicBelow⟩
  have hfits : ∀ i < (nFbPages K).toNat,
      (Ref.page (K.frameBufAddr + i * pageLen)).Fits K .fbPT := by
    intro i hi
    have ha := hK.fbAligned
    have hb := hK.fbBelow
    refine ⟨rfl, ?_, ?_⟩ <;> simp only [pageLen] at * <;> omega
  obtain ⟨m₂, hok₂, h₂⟩ := forLoop_fill (fun _ _ => rfl) h₁ (T := .fbPT) trivial hK.fbRoom hfits
  obtain ⟨m₃, hok₃, h₃⟩ := initEntry_represents h₂ (T := .ioPD) (r := .table .lapicPT)
    trivial (ptIndex_lt K.lapicBufAddr) ⟨trivial, rfl⟩
  obtain ⟨m₄, hok₄, h₄⟩ := initEntry_represents h₃ (T := .ioPD) (r := .table .fbPT)
    trivial (ptIndex_lt K.frameBufAddr) ⟨trivial, rfl⟩
  refine ⟨m₁, m₂, m₄, ?_, ?_, ?_, h₄⟩
  · rw [initLapicPT, assert_ok (by simp [hK.lapicAligned]), ok_bind]
    exact hok₁
  · rw [initFbPT, assert_ok (by simp [hK.fbAligned]), ok_bind,
      assert_ok (by simp [hK.fbLenAligned]), ok_bind]
    exact hok₂
  · rw [initIoPD, assert_ok (by simp [hK.samePd]), ok_bind]
    exact (bind_of_ok hok₃).trans hok₄

/-- `τ` with the first `n` kernel page tables filled and entered in `kernel_PD`. -/
def withKernelPTs (K : VmConsts) (τ : Forest) (n : Nat) : Forest
  | .kernelPTs i, k =>
      if i < n ∧ k < nPagesInTable then
        some (.page (K.kernelMemAddr + (i * nPagesInTable + k) * pageLen))
      else τ (.kernelPTs i) k
  | .kernelPD, k =>
      if kernelPtBase K ≤ k ∧ k < kernelPtBase K + n then
        some (.table (.kernelPTs (k - kernelPtBase K)))
      else τ .kernelPD k
  | T, k => τ T k

theorem withKernelPTs_zero (K : VmConsts) (τ : Forest) : withKernelPTs K τ 0 = τ := by
  funext T k
  cases T <;> simp [withKernelPTs]

theorem withKernelPTs_succ (K : VmConsts) (τ : Forest) (n : Nat) :
    withKernelPTs K τ (n + 1) =
      ((withKernelPTs K τ n).fill (.kernelPTs n) 0 nPagesInTable
        (fun j => .page (K.kernelMemAddr + (n * nPagesInTable + j) * pageLen))).set .kernelPD
        (n + kernelPtBase K) (.table (.kernelPTs n)) := by
  funext T k
  cases T with
  | kernelPTs i =>
      by_cases hi : i = n
      · subst hi
        by_cases hk : k < nPagesInTable <;> simp [withKernelPTs, Forest.fill, Forest.set, hk]
      · have hlt : i < n + 1 ↔ i < n := by omega
        simp [withKernelPTs, Forest.fill, Forest.set, hi, hlt]
  | kernelPD =>
      by_cases hk : k = n + kernelPtBase K
      · subst hk
        simp [withKernelPTs, Forest.set]
        omega
      · have hlt : k < kernelPtBase K + (n + 1) ↔ k < kernelPtBase K + n := by omega
        simp [withKernelPTs, Forest.fill, Forest.set, hk, hlt]
  | _ => simp [withKernelPTs, Forest.fill, Forest.set]

theorem kernelPage_fits (hK : K.Fits) {i j : Nat} (hi : i < K.nKernelPTs) (hj : j < nPagesInTable) :
    (Ref.page (K.kernelMemAddr + (i * nPagesInTable + j) * pageLen)).Fits K (.kernelPTs i) := by
  have ha := hK.kernelAligned
  have hb := hK.kernel
  refine ⟨rfl, ?_, ?_⟩ <;> simp only [VmConsts.nKernelPTs, nPagesInTable, pageLen, ptLen] at * <;>
    omega

theorem initKernelTables_represents (hK : K.Fits) (h : Represents L m τ) :
    ∃ m', initKernelTables L m = .ok m' ∧ Represents L m' (withKernelPTs K τ K.nKernelPTs) := by
  rw [initKernelTables, assert_ok (by simp [hK.kernelAligned]), ok_bind,
    assert_ok (by simp [hK.kernelRoom]), ok_bind]
  refine forLoop_ok (fun i m => Represents L m (withKernelPTs K τ i)) ?_ ?_
  · rw [withKernelPTs_zero]
    exact h
  · intro i m₁ hi hrep
    have hbase := hK.kernelRoom
    obtain ⟨m₂, hok₂, h₂⟩ := forLoop_fill (fun j _ => by rw [Nat.zero_add]) hrep
      (T := .kernelPTs i) hi (b := 0) (Nat.le_of_eq (Nat.zero_add _))
      (fun j hj => kernelPage_fits hK hi hj)
    obtain ⟨m₃, hok₃, h₃⟩ := initEntry_represents h₂ (T := .kernelPD) (r := .table (.kernelPTs i))
      (k := i + kernelPtBase K) trivial (by omega) ⟨hi, rfl⟩
    exact ⟨m₃, (bind_of_ok hok₂).trans hok₃, by rw [withKernelPTs_succ]; exact h₃⟩

theorem withKernelPTs_ioForest (K : VmConsts) :
    withKernelPTs K (ioForest K) K.nKernelPTs = forestAfter K 0 := by
  funext T k
  cases T <;>
    simp [withKernelPTs, ioForest, forestAfter, Forest.set, Forest.fill, Forest.empty]

/-! ## Task tables -/

/-- `τ` with the first `n` page tables of task `i` filled and entered in `PDs[i]`. -/
def withTaskPTs (K : VmConsts) (i : Nat) (τ : Forest) (n : Nat) : Forest
  | .PTs i' j, k =>
      if i' = i ∧ j < n ∧ k < nPagesInTable then
        some (.page (getTaskPhysAddr i + (j * nPagesInTable + k) * pageLen))
      else τ (.PTs i' j) k
  | .PDs i', k =>
      if i' = i ∧ ptIndexBase K ≤ k ∧ k < ptIndexBase K + n then
        some (.table (.PTs i (k - ptIndexBase K)))
      else τ (.PDs i') k
  | T, k => τ T k

theorem withTaskPTs_zero (K : VmConsts) (i : Nat) (τ : Forest) : withTaskPTs K i τ 0 = τ := by
  funext T k
  cases T <;> simp [withTaskPTs]

theorem withTaskPTs_succ (K : VmConsts) (i : Nat) (τ : Forest) (n : Nat) :
    withTaskPTs K i τ (n + 1) =
      ((withTaskPTs K i τ n).fill (.PTs i n) 0 nPagesInTable
        (fun k => .page (getTaskPhysAddr i + (n * nPagesInTable + k) * pageLen))).set (.PDs i)
        (n + ptIndexBase K) (.table (.PTs i n)) := by
  funext T k
  cases T with
  | PTs i' j =>
      by_cases hi : i' = i
      · by_cases hj : j = n
        · by_cases hk : k < nPagesInTable <;> simp [withTaskPTs, Forest.fill, Forest.set, hi, hj, hk]
        · have hlt : j < n + 1 ↔ j < n := by omega
          simp [withTaskPTs, Forest.fill, Forest.set, hi, hj, hlt]
      · simp [withTaskPTs, Forest.fill, Forest.set, hi]
  | PDs i' =>
      by_cases hi : i' = i
      · by_cases hk : k = n + ptIndexBase K
        · subst hk
          simp [withTaskPTs, Forest.set, hi]
          omega
        · have hlt : k < ptIndexBase K + (n + 1) ↔ k < ptIndexBase K + n := by omega
          simp [withTaskPTs, Forest.fill, Forest.set, hi, hk, hlt]
      · simp [withTaskPTs, Forest.fill, Forest.set, hi]
  | _ => simp [withTaskPTs, Forest.fill, Forest.set]

theorem getTaskPhysAddr_spec (i : Nat) :
    getTaskPhysAddr i % pageLen = 0 ∧ getTaskPhysAddr i ≤ task2PhysAddrStart := by
  unfold getTaskPhysAddr
  split_ifs <;> decide

theorem taskPage_fits (hK : K.Fits) {i j k : Nat} (hj : j < K.nTaskPTs) (hk : k < nPagesInTable) :
    (Ref.page (getTaskPhysAddr i + (j * nPagesInTable + k) * pageLen)).Fits K (.PTs i j) := by
  obtain ⟨ha, hle⟩ := getTaskPhysAddr_spec i
  have hb := hK.taskBelow
  refine ⟨rfl, ?_, ?_⟩ <;> simp only [VmConsts.nTaskPTs, nPagesInTable, pageLen, ptLen] at * <;>
    omega

/-- The forest after the iteration of the task loop for task `i`. -/
def withTask (K : VmConsts) (τ : Forest) (i : Nat) : Forest :=
  ((((withTaskPTs K i τ K.nTaskPTs).set (.PDPs i) (pdIndex K) (.table (.PDs i))).set (.PDPs i)
    (ioPdIndex K) (.table .ioPD)).set (.PDPs i) (kernelPdIndex K) (.table .kernelPD)).set (.PML4s i)
    (pdpIndex K) (.table (.PDPs i))

theorem initTaskPTs_represents (hK : K.Fits) {i : Nat} (hi : i < nTasks) (h : Represents L m τ) :
    ∃ m', forLoop K.nTaskPTs (fun j m => do
        let m ← forLoop nPagesInTable (fun k m =>
          initEntry m (L.slot (.PTs i j) k)
            (getTaskPhysAddr i + (j * nPagesInTable + k) * pageLen)) m
        initEntry m (L.slot (.PDs i) (j + ptIndexBase K)) (L.addr (.PTs i j))) m = .ok m'
      ∧ Represents L m' (withTaskPTs K i τ K.nTaskPTs) := by
  refine forLoop_ok (fun j m => Represents L m (withTaskPTs K i τ j)) ?_ ?_
  · rw [withTaskPTs_zero]
    exact h
  · intro j m₁ hj hrep
    have hbase := hK.taskRoom
    obtain ⟨m₂, hok₂, h₂⟩ := forLoop_fill (fun k _ => by rw [Nat.zero_add]) hrep
      (T := .PTs i j) ⟨hi, hj⟩ (b := 0) (Nat.le_of_eq (Nat.zero_add _))
      (fun k hk => taskPage_fits hK hj hk)
    obtain ⟨m₃, hok₃, h₃⟩ := initEntry_represents h₂ (T := .PDs i) (r := .table (.PTs i j))
      (k := j + ptIndexBase K) hi (by omega) ⟨⟨hi, hj⟩, rfl⟩
    exact ⟨m₃, (bind_of_ok hok₂).trans hok₃, by rw [withTaskPTs_succ]; exact h₃⟩

theorem initTaskTables_represents (hK : K.Fits) {i : Nat} (hi : i < nTasks)
    (h : Represents L m τ) :
    ∃ m', initTaskTables L i m = .ok m' ∧ Represents L m' (withTask K τ i) := by
  obtain ⟨m₁, hok₁, h₁⟩ := initTaskPTs_represents hK hi h
  obtain ⟨m₂, hok₂, h₂⟩ := initEntry_represents h₁ (T := .PDPs i) (r := .table (.PDs i)) hi
    (pdIndex_lt K.taskVaddrStart) ⟨hi, rfl⟩
  obtain ⟨m₃, hok₃, h₃⟩ := initEntry_represents h₂ (T := .PDPs i) (r := .table .ioPD) hi
    (pdIndex_lt K.lapicBufAddr) ⟨trivial, rfl⟩
  obtain ⟨m₄, hok₄, h₄⟩ := initEntry_represents h₃ (T := .PDPs i) (r := .table .kernelPD) hi
    hK.kernelPdRoom ⟨trivial, rfl⟩
  obtain ⟨m₅, hok₅, h₅⟩ := initEntry_represents h₄ (T := .PML4s i) (r := .table (.PDPs i)) hi
    hK.pdpRoom ⟨hi, rfl⟩
  refine ⟨m₅, ?_, h₅⟩
  rw [initTaskTables, assert_ok (by simp [hK.taskRoom]), ok_bind,
    assert_ok (by simp [hK.taskAligned]), ok_bind, assert_ok (by simp [hK.lapicPdp]), ok_bind,
    assert_ok (by simp [hK.kernelPdp]), ok_bind, hok₁, ok_bind]
  refine (bind_of_ok hok₂).trans ?_
  refine (bind_of_ok hok₃).trans ?_
  exact (bind_of_ok hok₄).trans hok₅

theorem withTask_forestAfter (K : VmConsts) (n : Nat) :
    withTask K (forestAfter K n) n = forestAfter K (n + 1) := by
  funext T k
  cases T with
  | PML4s i =>
      by_cases hi : i = n
      · simp [withTask, withTaskPTs, forestAfter, Forest.set, hi]
      · have hlt : i < n + 1 ↔ i < n := by omega
        simp [withTask, withTaskPTs, forestAfter, Forest.set, hi, hlt]
  | PDPs i =>
      by_cases hi : i = n
      · simp [withTask, withTaskPTs, forestAfter, Forest.set, hi]
      · have hlt : i < n + 1 ↔ i < n := by omega
        simp [withTask, withTaskPTs, forestAfter, Forest.set, hi, hlt]
  | PDs i =>
      by_cases hi : i = n
      · simp [withTask, withTaskPTs, forestAfter, Forest.set, hi]
      · have hlt : i < n + 1 ↔ i < n := by omega
        simp [withTask, withTaskPTs, forestAfter, Forest.set, hi, hlt]
  | PTs i j =>
      by_cases hi : i = n
      · simp [withTask, withTaskPTs, forestAfter, Forest.set, hi]
      · have hlt : i < n + 1 ↔ i < n := by omega
        simp [withTask, withTaskPTs, forestAfter, Forest.set, hi, hlt]
  | _ => simp [withTask, withTaskPTs, forestAfter, Forest.set]

/-! ## The whole initialisation -/

theorem getCr3Value_ok {T : TableId} (hT : T.Valid K) : getCr3Value (L.addr T) = .ok (L.addr T) := by
  have ha := L.aligned T hT
  rw [getCr3Value, addr2page_ok ha, ok_bind]
  refine congrArg Except.ok ?_
  simp only [pageLen] at ha
  omega

/-- **`init_virtual_memory` builds the intended forest**, saves the kernel's `cr3` and points each
    task's `cr3` at its own root. -/
theorem initVirtualMemory_represents (hK : K.Fits) (hzero : ∀ x ∈ L.bytes, m x = 0) (cr3 : Nat) :
    ∃ s, initVirtualMemory L m cr3 = .ok s ∧ Represents L s.mem (forestAfter K nTasks)
      ∧ s.kernelCr3 = cr3 ∧ ∀ i < nTasks, s.taskCr3s i = L.addr (.PML4s i) := by
  obtain ⟨m₁, m₂, m₃, hok₁, hok₂, hok₃, h₃⟩ := initIo_represents hK (represents_empty hzero)
  obtain ⟨m₄, hok₄, h₄⟩ := initKernelTables_represents hK h₃
  rw [withKernelPTs_ioForest] at h₄
  rw [initVirtualMemory, hok₁, ok_bind, hok₂, ok_bind, hok₃, ok_bind, hok₄, ok_bind]
  refine forLoop_ok (fun n (s : VmState) => Represents L s.mem (forestAfter K n) ∧ s.kernelCr3 = cr3
    ∧ ∀ i < n, s.taskCr3s i = L.addr (.PML4s i)) ⟨h₄, rfl, by simp⟩ ?_
  rintro i s hi ⟨hrep, hcr3, hroots⟩
  obtain ⟨m₅, hok₅, h₅⟩ := initTaskTables_represents hK hi hrep
  rw [withTask_forestAfter] at h₅
  refine ⟨{ s with mem := m₅, taskCr3s := Function.update s.taskCr3s i (L.addr (.PML4s i)) },
    ?_, h₅, hcr3, ?_⟩
  · rw [hok₅, ok_bind, getCr3Value_ok (T := .PML4s i) hi, ok_bind]
    rfl
  · intro j hj
    by_cases hji : j = i
    · subst hji
      exact Function.update_self ..
    · exact (Function.update_of_ne hji ..).trans (hroots j (by omega))

end Memory
end SysproKernel

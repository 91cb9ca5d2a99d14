import SysproKernel.Memory.Regions

/-!
# `Memory.AddressSpaces` — the address space of every task

With the shipped constants the forest built by `init_virtual_memory` translates every 48-bit address
exactly as four linear windows do: the task's private memory, the frame buffer, the LAPIC page and the
kernel (`taskWindows`). The index arithmetic of the four levels is done once, for every sound layout
(`translate_eq_lookup`); everything else about address spaces is a statement about windows.
-/

namespace SysproKernel
namespace Memory

open Lib.ByteMem Lib.Loop Lib.Windows

/-- The window of a task's private memory. -/
def taskWindow (i : Nat) : Window :=
  { vbase := shipped.taskVaddrStart, len := shipped.taskMemLen, pbase := getTaskPhysAddr i }

/-- The windows every address space shares: frame buffer, LAPIC page and kernel. -/
def sharedWindows : List Window :=
  [.identity shipped.frameBufAddr shipped.frameBufLen, .identity shipped.lapicBufAddr pageLen,
    .identity shipped.kernelMemAddr shipped.kernelMemLen]

/-- The address space of task `i`. -/
def taskWindows (i : Nat) : List Window := taskWindow i :: sharedWindows

/-! ## The translation -/

variable {i : Nat}

/-- The forest `init_virtual_memory` builds with the shipped constants. -/
abbrev initialForest : Forest := forestAfter shipped nTasks

theorem shipped_sound : shipped.Sound where
  kernelBelow := by decide
  frameBuf := .inr (by decide)
  task := .inr (by decide)
  kernelDir := by decide
  deviceTables := by decide

theorem shipped_regions : shipped.Regions where
  taskLen := by decide
  fbLen := by decide
  kernelLen := by decide
  disjoint := by
    simp [VmConsts.taskRegion, VmConsts.fbRegion, VmConsts.lapicRegion, VmConsts.kernelRegion,
      Set.Ico_disjoint_Ico, shipped, pageLen]

theorem taskWindow_contains {i v : Nat} :
    (taskWindow i).Contains v ↔ 0x40000000 ≤ v ∧ v < 0x41000000 := by
  have hbase : (taskWindow i).vbase = 0x40000000 := rfl
  have hlen : (taskWindow i).len = 0x1000000 := rfl
  rw [Window.Contains, hbase, hlen]

theorem fbWindow_contains {v : Nat} :
    (Window.identity shipped.frameBufAddr shipped.frameBufLen).Contains v
      ↔ 0xc0000000 ≤ v ∧ v < 0xc0200000 := by
  have hbase : shipped.frameBufAddr = 0xc0000000 := rfl
  have hlen : shipped.frameBufLen = 0x200000 := rfl
  rw [Window.identity_contains, hbase, hlen]

theorem lapicWindow_contains {v : Nat} :
    (Window.identity shipped.lapicBufAddr pageLen).Contains v
      ↔ 0xfee00000 ≤ v ∧ v < 0xfee01000 := by
  have hbase : shipped.lapicBufAddr = 0xfee00000 := rfl
  have hlen : pageLen = 0x1000 := rfl
  rw [Window.identity_contains, hbase, hlen]

theorem kernelWindow_contains {v : Nat} :
    (Window.identity shipped.kernelMemAddr shipped.kernelMemLen).Contains v
      ↔ 0x100000000 ≤ v ∧ v < 0x101000000 := by
  have hbase : shipped.kernelMemAddr = 0x100000000 := rfl
  have hlen : shipped.kernelMemLen = 0x1000000 := rfl
  rw [Window.identity_contains, hbase, hlen]

/-- The windows of a task, address by address. -/
theorem lookup_taskWindows (i v : Nat) :
    lookup (taskWindows i) v =
      if 0x40000000 ≤ v ∧ v < 0x41000000 then some (getTaskPhysAddr i + (v - 0x40000000))
      else if (0xc0000000 ≤ v ∧ v < 0xc0200000) ∨ (0xfee00000 ≤ v ∧ v < 0xfee01000)
        ∨ (0x100000000 ≤ v ∧ v < 0x101000000) then some v
      else none := by
  by_cases htask : (taskWindow i).Contains v
  · rw [taskWindows, lookup_inside htask, if_pos (taskWindow_contains.mp htask)]
    rfl
  · rw [taskWindows, lookup_outside htask, if_neg (mt taskWindow_contains.mpr htask), sharedWindows]
    by_cases hfb : (Window.identity shipped.frameBufAddr shipped.frameBufLen).Contains v
    · rw [lookup_identity hfb, if_pos (Or.inl (fbWindow_contains.mp hfb))]
    · rw [lookup_outside hfb]
      rw [fbWindow_contains] at hfb
      by_cases hlapic : (Window.identity shipped.lapicBufAddr pageLen).Contains v
      · rw [lookup_identity hlapic, if_pos (Or.inr (Or.inl (lapicWindow_contains.mp hlapic)))]
      · rw [lookup_outside hlapic]
        rw [lapicWindow_contains] at hlapic
        by_cases hkernel : (Window.identity shipped.kernelMemAddr shipped.kernelMemLen).Contains v
        · rw [lookup_identity hkernel, if_pos (Or.inr (Or.inr (kernelWindow_contains.mp hkernel)))]
        · rw [lookup_outside hkernel]
          rw [kernelWindow_contains] at hkernel
          rw [if_neg (by omega)]
          rfl

/-- **The forest translates as the windows do**, on every 48-bit address. -/
theorem translate_initialForest {v : Nat} (hi : i < nTasks) (hv : v < 2 ^ 48) :
    initialForest.translate (.PML4s i) v = lookup (taskWindows i) v :=
  translate_eq_lookup shipped_fits.asserted shipped_regions shipped_sound hi hv

/-- A memory representing the initial forest gives every task its windows. -/
theorem walk_eq_lookup {L : TableLayout shipped} {m : Mem} {v : Nat}
    (h : Represents L m initialForest) (hi : i < nTasks) (hv : v < 2 ^ 48) :
    walk m (L.addr (.PML4s i)) v = lookup (taskWindows i) v := by
  rw [walk_eq_translate h hi, translate_initialForest hi hv]

/-! ## After `init_virtual_memory` -/

/-- Every table array is zero, as static storage is at start-up. -/
def ZeroedTables (L : TableLayout shipped) (m : Mem) : Prop :=
  ∀ T, T.Valid shipped → ∀ b < pageLen, m (L.addr T + b) = 0

theorem ZeroedTables.bytes {L : TableLayout shipped} {m : Mem} (h : ZeroedTables L m) :
    ∀ x ∈ L.bytes, m x = 0 := by
  rintro x ⟨T, hT, hlo, hhi⟩
  rw [← Nat.add_sub_cancel' hlo]
  exact h T hT (x - L.addr T) (by omega)

/-- `init_virtual_memory` succeeds, and the walk from each task's `cr3` is given by its windows. -/
theorem initVirtualMemory_windows {L : TableLayout shipped} {m : Mem} (hzero : ZeroedTables L m)
    (cr3 : Nat) :
    ∃ s, initVirtualMemory L m cr3 = .ok s ∧ Represents L s.mem initialForest
      ∧ ∀ i < nTasks, s.taskCr3s i = L.addr (.PML4s i) := by
  obtain ⟨s, hok, hrep, _, hroots⟩ := initVirtualMemory_represents shipped_fits hzero.bytes cr3
  exact ⟨s, hok, hrep, hroots⟩

/-- **Address spaces are exactly as designed.** After `init_virtual_memory` the walk from the `cr3` of
    task `i` gives the task's private memory, the frame buffer, the LAPIC page and the kernel, each at
    its intended address, and no other address is present. -/
theorem address_spaces_as_designed (L : TableLayout shipped) (m : Mem) (cr3 : Nat)
    (hzero : ZeroedTables L m) :
    ∃ s, initVirtualMemory L m cr3 = .ok s ∧
      ∀ i < nTasks, ∀ v < 2 ^ 48,
        walk s.mem (s.taskCr3s i) v =
          if 0x40000000 ≤ v ∧ v < 0x41000000 then some (getTaskPhysAddr i + (v - 0x40000000))
          else if (0xc0000000 ≤ v ∧ v < 0xc0200000) ∨ (0xfee00000 ≤ v ∧ v < 0xfee01000)
            ∨ (0x100000000 ≤ v ∧ v < 0x101000000) then some v
          else none := by
  obtain ⟨s, hok, hrep, hroots⟩ := initVirtualMemory_windows hzero cr3
  refine ⟨s, hok, fun i hi v hv => ?_⟩
  rw [hroots i hi, walk_eq_lookup hrep hi hv, lookup_taskWindows]

/-! ## A concrete placement -/

/-- Consecutive numbering of the tables of the shipped layout. -/
def TableId.number : TableId → Nat
  | .PML4s i => i
  | .PDPs i => 3 + i
  | .PDs i => 6 + i
  | .PTs i j => 9 + 8 * i + j
  | .kernelPD => 33
  | .kernelPTs i => 34 + i
  | .ioPD => 42
  | .fbPT => 43
  | .lapicPT => 44
  | .additionalPT => 45
  | .additionalPD => 46

theorem TableId.number_lt {T : TableId} (hT : T.Valid shipped) : T.number < 47 := by
  have htask : shipped.nTaskPTs = 8 := by decide
  have hkernel : shipped.nKernelPTs = 8 := by decide
  cases T <;> simp only [TableId.Valid, htask, hkernel, nTasks] at hT <;>
    simp only [TableId.number] <;> omega

theorem TableId.number_inj {T T' : TableId} (hT : T.Valid shipped) (hT' : T'.Valid shipped)
    (h : T.number = T'.number) : T = T' := by
  have htask : shipped.nTaskPTs = 8 := by decide
  have hkernel : shipped.nKernelPTs = 8 := by decide
  cases T <;> cases T' <;>
    simp only [TableId.Valid, TableId.number, htask, hkernel, nTasks] at hT hT' h <;>
    first | omega | (congr 1 <;> omega)

theorem packed_aligned (T : TableId) : (0x100000000 + 0x1000 * T.number) % pageLen = 0 := by
  simp only [pageLen]
  omega

theorem packed_below {T : TableId} (hT : T.Valid shipped) :
    0x100000000 + 0x1000 * T.number + pageLen ≤ 0x10002f000 := by
  have h := T.number_lt hT
  simp only [pageLen]
  omega

theorem packed_distinct {T T' : TableId} (hT : T.Valid shipped) (hT' : T'.Valid shipped)
    (h : 0x100000000 + 0x1000 * T.number = 0x100000000 + 0x1000 * T'.number) : T = T' :=
  TableId.number_inj hT hT' (by omega)

/-- The tables back to back from the start of the kernel window. -/
def packedLayout : TableLayout shipped where
  addr T := 0x100000000 + 0x1000 * T.number
  aligned T _ := packed_aligned T
  below _ hT := Nat.le_trans (packed_below hT) (by decide)
  distinct _ _ hT hT' := packed_distinct hT hT'

theorem packedLayout_bytes_lt : ∀ x ∈ packedLayout.bytes, x < 0x10002f000 := by
  rintro x ⟨T, hT, -, hhi⟩
  exact Nat.lt_of_lt_of_le hhi (packed_below hT)

theorem zeroedTables_zero (L : TableLayout shipped) : ZeroedTables L (fun _ => 0) :=
  fun _ _ _ _ => rfl

/-- The address spaces of a machine with zeroed memory and packed tables. -/
theorem address_spaces_packed :
    ∃ s, initVirtualMemory packedLayout (fun _ => 0) 0 = .ok s ∧
      ∀ i < nTasks, ∀ v < 2 ^ 48,
        walk s.mem (s.taskCr3s i) v =
          if 0x40000000 ≤ v ∧ v < 0x41000000 then some (getTaskPhysAddr i + (v - 0x40000000))
          else if (0xc0000000 ≤ v ∧ v < 0xc0200000) ∨ (0xfee00000 ≤ v ∧ v < 0xfee01000)
            ∨ (0x100000000 ≤ v ∧ v < 0x101000000) then some v
          else none :=
  address_spaces_as_designed packedLayout (fun _ => 0) 0 (zeroedTables_zero packedLayout)

end Memory
end SysproKernel

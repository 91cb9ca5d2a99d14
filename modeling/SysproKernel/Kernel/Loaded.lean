import SysproKernel.Boot.Load
import SysproKernel.Kernel.Multitasking

/-!
# `Kernel.Loaded` — from the files to the console

The boot loader puts each application to the physical memory that the kernel's tables show the task at
`0x40000000`, and clears the `.bss` in which the tables lie. Between the two and up to `init_tasks` the
rest of the kernel runs; all that matters of it is that it leaves the tables and the applications alone.
-/

namespace SysproKernel
namespace Kernel

open Lib.ByteMem Lib.Loop Lib.X86 Lib.Handlers Memory Sched Boot

variable {L : TableLayout shipped} {V : SchedVars L} {files : Files} {head mem head₁ mem₁ : Mem}
  {l : Locals}

/-! ## The image -/

/-- The applications in the order of their tasks. -/
def app (files : Files) (i : Nat) : File :=
  if i = 0 then files.app1 else if i = 1 then files.app2 else files.app3

/-- The physical memory of the applications. -/
def appBytes : Set Nat := Set.Ico 0x104000000 0x107000000

/-- Memory after the applications have been loaded over `mem`. -/
def appImage (files : Files) (mem : Mem) : Mem :=
  let mem := writeBytes mem app1Start (files.app1.data.drop 16)
  let mem := writeBytes mem app2Start (files.app2.data.drop 16)
  writeBytes mem app3Start (files.app3.data.drop 16)

theorem appImage_byte (happs : ∀ i < nTasks, FlatFile (app files i)) (mem : Mem) {i k : Nat}
    (hi : i < nTasks) (hk : 16 + k < (app files i).data.length) :
    appImage files mem (getTaskPhysAddr i + k) = (app files i).data[16 + k] := by
  have hfits := (happs i hi).fits
  unfold nTasks at hi
  unfold appImage
  obtain rfl | rfl | rfl : i = 0 ∨ i = 1 ∨ i = 2 := by omega
  · have haddr : getTaskPhysAddr 0 = app1Start := rfl
    have hbelow : app1Start + k < app2Start ∧ app1Start + k < app3Start := by
      unfold app1Start app2Start app3Start
      omega
    rw [haddr, writeBytes_outside (Or.inl hbelow.2), writeBytes_outside (Or.inl hbelow.1)]
    exact loaded_byte hk
  · have haddr : getTaskPhysAddr 1 = app2Start := rfl
    have hbelow : app2Start + k < app3Start := by
      unfold app2Start app3Start
      omega
    rw [haddr, writeBytes_outside (Or.inl hbelow)]
    exact loaded_byte hk
  · exact loaded_byte hk

theorem loadSequence_of_kernel {fuel : Nat} (happs : ∀ i < nTasks, FlatFile (app files i))
    (hfuel : 0x1000010 < fuel) (hkernel : loadKernel fuel files l head mem = .ok (head₁, mem₁)) :
    loadSequence fuel files l head mem
      = .ok (clearBss (load head₁ 0 8) (load head₁ 8 8) (appImage files mem₁)) := by
  have hloaded : ∀ i < nTasks, ∀ start head mem, loadFlat fuel (app files i) start head mem =
      .ok (writeBytes head 0 ((app files i).data.take 16),
        writeBytes mem start ((app files i).data.drop 16)) :=
    fun i hi start head mem =>
      (happs i hi).loaded (Nat.lt_of_le_of_lt (happs i hi).fits hfuel) start head mem
  unfold loadSequence
  rw [hkernel, ok_bind]
  show (loadFlat fuel files.app1 app1Start _ _ >>= _) = _
  rw [show files.app1 = app files 0 from rfl, hloaded 0 (by decide), ok_bind]
  show (loadFlat fuel files.app2 app2Start _ _ >>= _) = _
  rw [show files.app2 = app files 1 from rfl, hloaded 1 (by decide), ok_bind]
  show (loadFlat fuel files.app3 app3Start _ _ >>= _) = _
  rw [show files.app3 = app files 2 from rfl, hloaded 2 (by decide), ok_bind]
  rfl

/-- The cleared `.bss` with the tables, below the applications. -/
structure TablesInBss (L : TableLayout shipped) (bssStart bssSize : Nat) : Prop where
  tables : ∀ x ∈ L.bytes, bssStart ≤ x ∧ x < bssStart + bssSize
  start : bssStart ≠ 0
  below : bssStart + bssSize ≤ kernelStart + 0x1000000

theorem TablesInBss.zeroed {start size : Nat} (h : TablesInBss L start size) (m : Mem) :
    ZeroedTables L (clearBss start size m) := by
  intro T hT b hb
  obtain ⟨hlo, hhi⟩ := h.tables _ (show L.addr T + b ∈ L.bytes from ⟨T, hT, by omega, by omega⟩)
  rw [clearBss_apply, if_pos ⟨h.start, hlo, hhi⟩]

theorem TablesInBss.apps {start size : Nat} (h : TablesInBss L start size) (m : Mem) :
    Set.EqOn (clearBss start size m) m appBytes := by
  rintro x ⟨hlo, -⟩
  have hbelow := h.below
  have hkernel : kernelStart = 0x100000000 := rfl
  rw [clearBss_apply, if_neg (by omega)]

/-! ## The kernel before the applications -/

theorem written_valid {K : VmConsts} {T : TableId} {k : Nat} (h : Written K T k) : T.Valid K := by
  cases h with
  | lapicPT => trivial
  | fbPT => trivial
  | ioLapic => trivial
  | ioFb => trivial
  | kernelPTs i j hi => exact hi
  | kernelPD => trivial
  | PTs i j k hi hj => exact ⟨hi, hj⟩
  | PDs i j hi => exact hi
  | pdpTask i hi => exact hi
  | pdpIo i hi => exact hi
  | pdpKernel i hi => exact hi
  | PML4s i hi => exact hi

/-- `init_virtual_memory` writes nothing but the tables. -/
theorem initVirtualMemory_outside {m : Mem} {kernelCr3 x : Nat} {vm : VmState}
    (hvm : initVirtualMemory L m kernelCr3 = .ok vm) (hx : x ∉ L.bytes) : vm.mem x = m x := by
  have hin := inTables_of_sound shipped_fits.asserted shipped_sound
  refine initVirtualMemory_writesOnly hvm x (fun T k hwritten => ?_)
  by_contra hslot
  exact hx (slot_range (written_valid hwritten) (hin T k hwritten) ⟨by omega, by omega⟩)

theorem appBytes_notMem_tables (V : SchedVars L) {x : Nat} (hx : x ∈ appBytes) : x ∉ L.bytes := by
  intro hin
  have hkernel := V.inKernel_bytes hin
  have hlo := hx.1
  omega

theorem belowFrame_subset {i : Nat} (hi : i < nTasks) : belowFrame i ⊆ appBytes := by
  have hphys := getTaskPhysAddr_eq hi
  unfold nTasks at hi
  rintro x ⟨hlo, hhi⟩
  exact ⟨by omega, by omega⟩

/-! ## The applications -/

/-- An application about to run its file: at its entry point, with an empty stack, and its memory is its
    file without the header, up to the frame at the top of its stack. -/
structure Starts (f : File) (x : Task) : Prop where
  rip : x.cpu.rip = 0x40000000
  rsp : x.cpu.gpr .rsp = 0x41000000
  mem : ∀ k (hk : 16 + k < f.data.length), k < 0xffff60 → x.mem (0x40000000 + k) = f.data[16 + k]

/-- Every application at the jump to task 0. -/
theorem starts_atStart {s : Machine} (happs : ∀ i < nTasks, FlatFile (app files i))
    (hrip : s.cpu.rip = 0x40000000) (hrsp : s.cpu.gpr .rsp = 0x41000000)
    (hframes : ∀ i < nTasks, i ≠ 0 → EntryFrame V i s.mem)
    (hmem : ∀ i < nTasks, Set.EqOn s.mem (appImage files mem) (belowFrame i)) {i : Nat} (hi : i < nTasks) :
    Starts (app files i) ((appsAtStart L s).task i) := by
  have hbyte : ∀ k (hk : 16 + k < (app files i).data.length), k < 0xffff60 →
      ((appsAtStart L s).task i).mem (0x40000000 + k) = (app files i).data[16 + k] := by
    intro k hk hbelow
    have hv : InWindow (0x40000000 + k) := ⟨by omega, by omega⟩
    refine (ownMem_own (Or.inl hv)).trans ?_
    rw [place_window hv, Nat.add_sub_cancel_left, hmem i hi ⟨by omega, by omega⟩]
    exact appImage_byte happs mem hi hk
  by_cases hi0 : i = 0
  · subst hi0
    exact ⟨hrip, hrsp, hbyte⟩
  · have hcpu : ((appsAtStart L s).task i).cpu = savedCpu s.mem (getTaskPhysAddr i + 0xffff60)
        (UInt64.ofNat (L.addr (.PML4s i))) := by
      simp only [appsAtStart, tasksAtStart, if_neg hi0]
    obtain ⟨hrip, hrsp⟩ := (hframes i hi hi0).enters (UInt64.ofNat (L.addr (.PML4s i)))
    exact ⟨by rw [hcpu, hrip], by rw [hcpu, hrsp], hbyte⟩

/-- A flat kernel that is nothing but the header of a `.bss` with the packed tables. -/
def packedFiles : Files :=
  { smallFiles with
    kernel := slowFile (leBytes 8 0x100000000 ++ leBytes 8 0x2f000) (by decide), kernelElf := none }

theorem packedFiles_apps : ∀ i < nTasks, FlatFile (app packedFiles i) := by
  intro i hi
  unfold nTasks at hi
  obtain rfl | rfl | rfl : i = 0 ∨ i = 1 ∨ i = 2 := by omega
  all_goals exact slowFile_flat _ (by decide) (by decide)

theorem packed_inBss : TablesInBss packedLayout 0x100000000 0x2f000 where
  tables x hx := ⟨(packedVars.inKernel_bytes hx).1, packedLayout_bytes_lt x hx⟩
  start := by decide
  below := by decide

end Kernel
end SysproKernel

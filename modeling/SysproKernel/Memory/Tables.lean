import SysproKernel.Console
import SysproKernel.Lib.Loop
import SysproKernel.Memory.PageWalk

/-!
# `Memory.Tables` — the page tables and `init_virtual_memory`

The C side of paging, translated from memory.c. The layout constants are a record (`VmConsts`), so the
code is one definition for every choice of them; `shipped` holds the values of the source. Tables are
named by `TableId` and placed by a `TableLayout`, which carries what the linker guarantees: page
alignment and distinctness. Every table write goes through `initEntry` at a computed byte address,
exactly as `&table[index]` does.
-/

namespace SysproKernel
namespace Memory

open Lib.ByteMem Lib.Loop

/-! ## Constants -/

def nTasks : Nat := 3

/-- The layout constants of memory.c. -/
structure VmConsts where
  taskVaddrStart : Nat
  taskMemLen : Nat
  frameBufAddr : Nat
  frameBufLen : Nat
  lapicBufAddr : Nat
  kernelMemAddr : Nat
  kernelMemLen : Nat

/-- The values in the source. -/
def shipped : VmConsts :=
  { taskVaddrStart := 0x40000000
    taskMemLen := 0x1000000
    frameBufAddr := 0xc0000000
    frameBufLen := 0x200000
    lapicBufAddr := 0xfee00000
    kernelMemAddr := 0x100000000
    kernelMemLen := 0x1000000 }

/-- `N_TASK_PTs`. -/
def VmConsts.nTaskPTs (K : VmConsts) : Nat := K.taskMemLen / ptLen

/-- `N_KERNEL_PTs`. -/
def VmConsts.nKernelPTs (K : VmConsts) : Nat := K.kernelMemLen / ptLen

def task0PhysAddrStart : Nat := 0x104000000
def task1PhysAddrStart : Nat := 0x105000000
def task2PhysAddrStart : Nat := 0x106000000
def additionalPageStart : Nat := 0x300000000
def additionalPhysAddrStart : Nat := 0x101000000

/-! ## The table arrays -/

/-- The 512-entry tables declared in memory.c, `PML4s[i]`, …, `additional_PD`. -/
inductive TableId where
  | PML4s (i : Nat)
  | PDPs (i : Nat)
  | PDs (i : Nat)
  | PTs (i j : Nat)
  | kernelPD
  | kernelPTs (i : Nat)
  | ioPD
  | fbPT
  | lapicPT
  | additionalPT
  | additionalPD
  deriving DecidableEq, Repr

/-- The table exists: its array subscripts are in bounds. -/
def TableId.Valid (K : VmConsts) : TableId → Prop
  | .PML4s i | .PDPs i | .PDs i => i < nTasks
  | .PTs i j => i < nTasks ∧ j < K.nTaskPTs
  | .kernelPTs i => i < K.nKernelPTs
  | _ => True

/-- A placement of the tables: page-aligned, pairwise distinct, below the limit of physical addresses. -/
structure TableLayout (K : VmConsts) where
  addr : TableId → Nat
  aligned : ∀ T, T.Valid K → addr T % pageLen = 0
  below : ∀ T, T.Valid K → addr T + pageLen ≤ 2 ^ 52
  distinct : ∀ T T', T.Valid K → T'.Valid K → addr T = addr T' → T = T'

/-- `&table[index]`. -/
def TableLayout.slot {K : VmConsts} (L : TableLayout K) (T : TableId) (index : Nat) : Nat :=
  L.addr T + 8 * index

/-! ## The functions of memory.c -/

def addr2page (addr : Nat) : Except String Nat := do
  assert (addr % pageLen == 0) "addr % PAGE_LEN == 0"
  return addr / 2 ^ 12

def getCr3Value (pml4eAddr : Nat) : Except String Nat := do
  let page ← addr2page pml4eAddr
  return page * 2 ^ 12

def getTaskPhysAddr (taskId : Nat) : Nat :=
  if taskId = 0 then task0PhysAddrStart
  else if taskId = 1 then task1PhysAddrStart
  else if taskId = 2 then task2PhysAddrStart
  else 0

/-- `init_entry(entry, addr)`: the other bit-fields of the entry keep their values. -/
def initEntry (m : Mem) (entry addr : Nat) : Except String Mem := do
  let page ← addr2page addr
  return writeEntry m entry
    { readEntry m entry with
      present := true, writable := true, physicalAddress := BitVec.ofNat 40 page }

/-! ### `init_virtual_memory`, region by region -/

variable (K : VmConsts)

def lapicPageIndex : Nat := K.lapicBufAddr % ptLen / pageLen
def lapicPtIndex : Nat := K.lapicBufAddr % pdLen / ptLen
def fbPageBase : Nat := K.frameBufAddr % ptLen / pageLen
def nFbPages : Int := toInt32 (K.frameBufLen / pageLen)
def fbPtIndex : Nat := K.frameBufAddr % pdLen / ptLen
def ioPdIndex : Nat := K.lapicBufAddr % pdpLen / pdLen
def kernelPtBase : Nat := K.kernelMemAddr % pdLen / ptLen
/-- `kernel_pd_index`; the quotient fits the `int` wherever `pdp_index` is inside its table. -/
def kernelPdIndex : Nat := K.kernelMemAddr / pdLen
def pdpIndex : Nat := K.taskVaddrStart / pdpLen
def pdIndex : Nat := K.taskVaddrStart % pdpLen / pdLen
def ptIndexBase : Nat := K.taskVaddrStart % pdLen / pageLen

variable {K}
variable (L : TableLayout K)

/-- `// lapic PT`. -/
def initLapicPT (m : Mem) : Except String Mem := do
  assert (K.lapicBufAddr % pageLen == 0) "LAPIC_BUF_ADDR % PAGE_LEN == 0"
  initEntry m (L.slot .lapicPT (lapicPageIndex K)) K.lapicBufAddr

/-- `// fb PT`. -/
def initFbPT (m : Mem) : Except String Mem := do
  assert (K.frameBufAddr % pageLen == 0) "FRAME_BUF_ADDR % PAGE_LEN == 0"
  assert (K.frameBufLen % pageLen == 0) "FRAME_BUF_LEN % PAGE_LEN == 0"
  forLoop (nFbPages K).toNat
    (fun i m => initEntry m (L.slot .fbPT (fbPageBase K + i)) (K.frameBufAddr + i * pageLen)) m

/-- `// lapic + fb PD`. -/
def initIoPD (m : Mem) : Except String Mem := do
  assert (K.lapicBufAddr / pdLen == K.frameBufAddr / pdLen)
    "LAPIC_BUF_ADDR / PD_LEN == FRAME_BUF_ADDR / PD_LEN"
  let m ← initEntry m (L.slot .ioPD (lapicPtIndex K)) (L.addr .lapicPT)
  initEntry m (L.slot .ioPD (fbPtIndex K)) (L.addr .fbPT)

/-- `// kernel PD/PT`. -/
def initKernelTables (m : Mem) : Except String Mem := do
  assert (K.kernelMemAddr % ptLen == 0) "KERNEL_MEM_ADDR % PT_LEN == 0"
  assert (kernelPtBase K + K.nKernelPTs ≤ nPagesInTable)
    "kernel_pt_base + N_KERNEL_PTs <= N_PAGES_IN_TABLE"
  forLoop K.nKernelPTs (fun i m => do
    let m ← forLoop nPagesInTable (fun j m =>
      initEntry m (L.slot (.kernelPTs i) j)
        (K.kernelMemAddr + (i * nPagesInTable + j) * pageLen)) m
    initEntry m (L.slot .kernelPD (i + kernelPtBase K)) (L.addr (.kernelPTs i))) m

/-- `// init PML4s, PDPs, PDs, PTs` of task `i`. -/
def initTaskTables (i : Nat) (m : Mem) : Except String Mem := do
  assert (ptIndexBase K + K.nTaskPTs ≤ nPagesInTable)
    "pt_index_base + N_TASK_PTs <= N_PAGES_IN_TABLE"
  assert (K.taskVaddrStart % pageLen == 0) "TASK_VADDR_START % PAGE_LEN == 0"
  assert (K.lapicBufAddr / pdpLen == K.taskVaddrStart / pdpLen)
    "LAPIC_BUF_ADDR / PDP_LEN == TASK_VADDR_START / PDP_LEN"
  assert (K.kernelMemAddr / pdpLen == K.taskVaddrStart / pdpLen)
    "KERNEL_MEM_ADDR / PDP_LEN == TASK_VADDR_START / PDP_LEN"
  let m ← forLoop K.nTaskPTs (fun j m => do
    let m ← forLoop nPagesInTable (fun k m =>
      initEntry m (L.slot (.PTs i j) k)
        (getTaskPhysAddr i + (j * nPagesInTable + k) * pageLen)) m
    initEntry m (L.slot (.PDs i) (j + ptIndexBase K)) (L.addr (.PTs i j))) m
  -- add lapic/fb to the same PDP
  let m ← initEntry m (L.slot (.PDPs i) (pdIndex K)) (L.addr (.PDs i))
  let m ← initEntry m (L.slot (.PDPs i) (ioPdIndex K)) (L.addr .ioPD)
  let m ← initEntry m (L.slot (.PDPs i) (kernelPdIndex K)) (L.addr .kernelPD)
  initEntry m (L.slot (.PML4s i) (pdpIndex K)) (L.addr (.PDPs i))

/-- What `init_virtual_memory` leaves behind: memory and the globals `kernel_cr3`, `task_cr3s`. -/
structure VmState where
  mem : Mem
  kernelCr3 : Nat
  taskCr3s : Nat → Nat

/-- `init_virtual_memory`, entered with the given `cr3` register. -/
def initVirtualMemory (m : Mem) (cr3 : Nat) : Except String VmState := do
  let m ← initLapicPT L m
  let m ← initFbPT L m
  let m ← initIoPD L m
  let m ← initKernelTables L m
  forLoop nTasks (fun i s => do
    let m ← initTaskTables L i s.mem
    let taskCr3 ← getCr3Value (L.addr (.PML4s i))
    return { s with mem := m, taskCr3s := Function.update s.taskCr3s i taskCr3 })
    { mem := m, kernelCr3 := cr3, taskCr3s := fun _ => 0 }

end Memory
end SysproKernel

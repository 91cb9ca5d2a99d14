import SysproKernel.Lib.X86
import SysproKernel.Memory.AddressSpaces

/-!
# `Sched.Handler` — `sched.c` and the timer interrupt

The scheduler's globals `tasks[]` and `cur_task` in kernel memory, `init_tasks`/`prepare_stack`/
`start_task0`, `schedule`, and `lapic_intr_handler` instruction by instruction (interrupt_handler.S).
Everything after `mov %cr3` goes through `translate`, the four-level walk from the current `cr3`; while
the kernel's own `cr3` is loaded memory is identity mapped.

A C call leaves its return address and stack frames below the stack pointer and clobbers the
caller-saved registers. What it leaves there is the compiler's choice, so it is a parameter
(`CallNoise`).
-/

namespace SysproKernel
namespace Sched

open Lib.ByteMem Lib.Loop Lib.X86 Memory

/-! ## Virtual memory -/

/-- The processor's translation: a non-canonical address faults, any other is walked. -/
def translate (m : Mem) (cr3 v : Nat) : Option Nat := if Canonical v then walk m cr3 v else none

/-! ## The globals of sched.c -/

/-- Where `tasks` and `cur_task` lie: in the kernel window like the page tables, clear of each other and
    of these. -/
structure SchedVars (L : TableLayout shipped) where
  tasks : Nat
  curTask : Nat
  tablesIn : ∀ T, T.Valid shipped →
    shipped.kernelMemAddr ≤ L.addr T ∧ L.addr T + pageLen ≤ shipped.kernelMemAddr + shipped.kernelMemLen
  tasksIn : shipped.kernelMemAddr ≤ tasks ∧
    tasks + 16 * nTasks ≤ shipped.kernelMemAddr + shipped.kernelMemLen
  curIn : shipped.kernelMemAddr ≤ curTask ∧
    curTask + 4 ≤ shipped.kernelMemAddr + shipped.kernelMemLen
  apart : curTask + 4 ≤ tasks ∨ tasks + 16 * nTasks ≤ curTask
  tasksOff : ∀ x ∈ L.bytes, x < tasks ∨ tasks + 16 * nTasks ≤ x
  curOff : ∀ x ∈ L.bytes, x < curTask ∨ curTask + 4 ≤ x

variable {L : TableLayout shipped} (V : SchedVars L)

/-- `&tasks[id].sp`, which is also `&tasks[id]`. -/
def SchedVars.sp (id : Nat) : Nat := V.tasks + 16 * id

/-- `&tasks[id].cr3`. -/
def SchedVars.cr3 (id : Nat) : Nat := V.tasks + 16 * id + 8

/-! ## Preparing the tasks -/

def getEntrypoint (_taskId : Nat) : Nat := 0x40000000

def getStackStart (taskId : Nat) : Nat := getEntrypoint taskId + 0x1000000

/-- What `prepare_stack` reads from the processor while the kernel runs. -/
structure KernelRegs where
  ss : UInt16
  cs : UInt16
  rflags : UInt64

/-- `tasks[id].sp -= n`. -/
def decSp (cr3 id n : Nat) (m : Mem) : Option Mem := do
  let sp ← vload translate m cr3 (V.sp id) 8
  vstore translate m cr3 (V.sp id) 8 ((sp + (2 ^ 64 - n)) % 2 ^ 64)

/-- `*(type *) tasks[id].sp = x`, where the type has `n` bytes. -/
def storeAtSp (cr3 id n x : Nat) (m : Mem) : Option Mem := do
  let sp ← vload translate m cr3 (V.sp id) 8
  vstore translate m cr3 sp n x

/-- `prepare_stack(id, rip)`, which runs with `app_cr3` loaded. -/
def prepareStack (regs : KernelRegs) (appCr3 id rip : Nat) (m : Mem) : Option Mem := do
  let initialSp ← vload translate m appCr3 (V.sp id) 8
  -- push SS
  let m ← decSp V appCr3 id 8 m
  let m ← storeAtSp V appCr3 id 2 regs.ss.toNat m
  -- push RSP
  let m ← decSp V appCr3 id 8 m
  let m ← storeAtSp V appCr3 id 8 initialSp m
  -- push RFLAGS: `pushfq` with the stack pointer at `tmp_sp`
  let tmpSp ← vload translate m appCr3 (V.sp id) 8
  let m ← vstore translate m appCr3 (tmpSp - 8) 8 regs.rflags.toNat
  let m ← decSp V appCr3 id 8 m
  -- push CS
  let m ← decSp V appCr3 id 8 m
  let m ← storeAtSp V appCr3 id 2 regs.cs.toNat m
  -- push RIP
  let m ← decSp V appCr3 id 8 m
  let m ← storeAtSp V appCr3 id 8 rip m
  -- push RAX-RDX, RDI, RSI, RBP, +8 registers
  decSp V appCr3 id (8 * 15) m

/-- The body of the loop of `init_tasks`. -/
def initTask (taskCr3s : Nat → Nat) (regs : Nat → KernelRegs) (i : Nat) (m : Mem) : Option Mem :=
  let m := store m (V.sp i) 8 (getStackStart i)
  let m := store m (V.cr3 i) 8 (taskCr3s i)
  if i ≠ 0 then prepareStack V (regs i) (taskCr3s i) i (getEntrypoint i) m else some m

def initTasks (taskCr3s : Nat → Nat) (regs : Nat → KernelRegs) (m : Mem) : Option Mem := do
  let m ← forLoop nTasks (initTask V taskCr3s regs) m
  return store m V.curTask 4 0

/-- `start_task0`, from the kernel's registers `c` to the jump. The call of `get_entrypoint` is already
    made on the task's stack and leaves `frame` there. -/
def startTask0 (frame : List UInt8) (c : Cpu) (m : Mem) : Option Machine := do
  let m := store m V.curTask 4 0
  let cur := load m V.curTask 4
  let sp := load m (V.sp cur) 8
  let cr3 := load m (V.cr3 cur) 8
  let cur ← vload translate m cr3 V.curTask 4
  let m ← vwrite translate m cr3 (sp - frame.length) frame m
  let c := { c with cr3 := UInt64.ofNat cr3, rip := UInt64.ofNat (getEntrypoint cur) }
  return { cpu := c.set .rsp (UInt64.ofNat sp), mem := m }

/-! ## The timer interrupt -/

/-- `schedule(sp)`, with `cr3` loaded; the result is `&tasks[next_task]`. -/
def schedule (cr3 : Nat) (sp : UInt64) (m : Mem) : Option (UInt64 × Mem) := do
  let cur ← vload translate m cr3 V.curTask 4
  let m ← vstore translate m cr3 (V.sp cur) 8 sp.toNat
  let cur ← vload translate m cr3 V.curTask 4
  let nextTask := (cur + 1) % 2 ^ 32 % nTasks
  let m ← vstore translate m cr3 V.curTask 4 nextTask
  return (UInt64.ofNat (V.sp nextTask), m)

def lapicEoi : Nat := 0xfee000b0

/-- `lapic_intr_handler_internal(sp)`. -/
def lapicIntrHandlerInternal (reservedCallback : Nat → UInt64 → Mem → Option (UInt64 × Mem))
    (cr3 : Nat) (sp : UInt64) (m : Mem) : Option (UInt64 × Mem) := do
  let (res, m) ← reservedCallback cr3 sp m
  let m ← vstore translate m cr3 lapicEoi 4 0
  return (res, m)

/-- What a C call leaves behind: the bytes below the stack pointer, the caller-saved registers and the
    flags. -/
structure CallNoise where
  frame : List UInt8
  regs : Reg → UInt64
  rflags : UInt64

/-- The registers a C function need not preserve. -/
def callerSaved : List Reg := [.rax, .rcx, .rdx, .rsi, .rdi, .r8, .r9, .r10, .r11]

/-- A call of the C function `f` with its argument in `rdi` and its result in `rax`. -/
def callC (noise : CallNoise) (f : Nat → UInt64 → Mem → Option (UInt64 × Mem)) (s : Machine) :
    Option Machine := do
  let cr3 := s.cpu.cr3.toNat
  let m ← vwrite translate s.mem cr3 ((s.cpu.gpr .rsp).toNat - noise.frame.length) noise.frame s.mem
  let (res, m) ← f cr3 (s.cpu.gpr .rdi) m
  let gpr := fun r => if r ∈ callerSaved then noise.regs r else s.cpu.gpr r
  return { cpu := { s.cpu with gpr := Function.update gpr .rax res, rflags := noise.rflags }, mem := m }

/-- `lapic_intr_handler`. -/
def lapicIntrHandler : List Instr :=
  [ .push .rax, .push .rbx, .push .rcx, .push .rdx, .push .rdi, .push .rsi, .push .rbp,
    .push .r8, .push .r9, .push .r10, .push .r11, .push .r12, .push .r13, .push .r14, .push .r15,
    .mov .rsp .rdi,
    .call,
    .load 0x0 .rax .rsp,
    .load 0x8 .rax .rbx,
    .movCr3 .rbx,
    .pop .r15, .pop .r14, .pop .r13, .pop .r12, .pop .r11, .pop .r10, .pop .r9, .pop .r8,
    .pop .rbp, .pop .rsi, .pop .rdi, .pop .rdx, .pop .rcx, .pop .rbx, .pop .rax,
    .iretq ]

/-- **A timer interrupt**, with `schedule` as the timer callback. -/
def timerInterrupt (noise : CallNoise) (s : Machine) : Option Machine :=
  (interrupt translate s).bind
    (run translate (callC noise (lapicIntrHandlerInternal (schedule V))) lapicIntrHandler)

end Sched
end SysproKernel

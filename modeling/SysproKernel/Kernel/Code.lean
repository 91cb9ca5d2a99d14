import SysproKernel.Lib.Handlers
import SysproKernel.Interrupt.Stubs
import SysproKernel.Memory.PageFault
import SysproKernel.Sched.Tasks
import SysproKernel.Terminal.Hex

/-!
# `Kernel.Code` — the kernel under its applications, step by step

The three interrupt handlers while applications run, one instruction of a stub and one printed character
at a time: the timer interrupt, `int 0x80` with `syscall_handler_internal` (syscall.c), and the page fault.
A timer interrupt is possible between any two of these steps at which the interrupt flag is set.

The terminal is the subject of `Terminal`; here its variables and the frame buffer are a part of memory
that printing may change in any way (`consoleBytes`), and what is printed are the characters passed to
`putc`.

Applications are arbitrary (`Program`): each computes on the registers and the memory it sees, calls the
kernel and touches addresses as its program has it. What the results assume of them is that they write to
their own memory only (`Computes`), and `Behaves`: room on the stack for the frames, and strings that
`puts` can read. An access of a handler that hits an unmapped address enters the page fault handler as
well (`Faults`).
-/

namespace SysproKernel
namespace Kernel

open Lib.ByteMem Lib.X86 Memory Sched Interrupt Terminal

/-! ## C functions -/

/-- What is left to do in a C function called from a stub. -/
inductive Code where
  /-- `for (; *str; str++) putc(*str);` -/
  | puts (str : Nat) (next : Code)
  | print (text : List Int8) (next : Code)
  /-- The result and the memory a function returns with, computed with `cr3` loaded. -/
  | ret (f : Nat → Mem → Option (UInt64 × Mem))
  | spin

/-- The characters of several console calls. -/
def outsText (outs : List Out) : List Int8 := outs.flatMap outText

/-- `SYSCALL_PUTS`, of `syscall_id_t`. -/
def syscallIdPuts : UInt64 := 1

/-- `syscall_puts(str)`. -/
def syscallPuts (str : UInt64) : Code := .puts str.toNat (.ret fun _ m => some (0, m))

/-- What an unknown system call prints. -/
def unknownSyscall (syscallId : UInt64) : List Out :=
  [.puts "unknown syscall: ", .puth syscallId.toNat 4, .puts "\n"]

/-- `syscall_handler_internal(syscall_id, arg1, arg2, arg3)`. In the default branch `ret` is returned
    without ever having been assigned. -/
def syscallHandlerInternal (ret syscallId arg1 : UInt64) : Code :=
  if syscallId = syscallIdPuts then syscallPuts arg1
  else .print (outsText (unknownSyscall syscallId)) (.ret fun _ m => some (ret, m))

/-- `page_fault_handler_internal(sp)` with the faulting address in `cr2`. -/
def pageFaultCode (L : TableLayout shipped) (sp : Nat → Nat) (cr2 : Nat) (ret : UInt64) (m : Mem) : Code :=
  match pageFaultHandlerInternal L m sp cr2 with
  | .ok o =>
      .print (outsText o.out) <| if o.returns then
        .ret fun _ m => (pageFaultHandlerInternal L m sp cr2).toOption.map fun o => (ret, o.mem)
      else .spin
  | .error text => .print (literal text) .spin

/-! ## Handlers -/

/-- RFLAGS.IF. -/
def interruptFlag : UInt64 := 0x200

/-- Interrupts are taken. -/
def Enabled (s : Machine) : Prop := s.cpu.rflags &&& interruptFlag ≠ 0

/-- A handler: the C function its stub calls, and what this call leaves behind. The C code of the kernel
    has no `sti`. -/
structure Handler where
  noise : CallNoise
  callee : Machine → Code
  quiet : noise.rflags &&& interruptFlag = 0

/-- Where a handler is: before the next instruction of its stub, or in the C function. -/
inductive Point where
  | stub (h : Handler) (todo : List Instr)
  | code (h : Handler) (todo : Code) (after : List Instr)

variable {L : TableLayout shipped} (V : SchedVars L)

/-- What printing may change: kernel memory that the tables and the scheduler do not use, and the frame
    buffer. -/
def consoleBytes : Set Nat :=
  {x | (0x100000000 ≤ x ∧ x < 0x101000000 ∧ x ∉ V.bytes) ∨ (0xc0000000 ≤ x ∧ x < 0xc0200000)}

/-- The character at virtual address `v`. -/
def charAt (s : Machine) (v : Nat) : Option Int8 :=
  (translate s.mem s.cpu.cr3.toNat v).map fun p => (s.mem p).toInt8

/-- The machine after the C function has returned to its stub. -/
def returned (noise : CallNoise) (res : UInt64) (m : Mem) (s : Machine) : Machine :=
  let gpr := fun r => if r ∈ callerSaved then noise.regs r else s.cpu.gpr r
  { cpu := { s.cpu with gpr := Function.update gpr .rax res, rflags := noise.rflags }, mem := m }

/-- One step inside a handler, with the characters it prints. -/
inductive Step : Point → Machine → List Int8 → Point → Machine → Prop
  | instr {h : Handler} {i : Instr} {is : List Instr} {s s' : Machine} :
      i ≠ .iretq → exec translate (fun _ => none) s i = some s' →
      Step (.stub h (i :: is)) s [] (.stub h is) s'
  | call {h : Handler} {is : List Instr} {s : Machine} {m : Mem} :
      vwrite translate s.mem s.cpu.cr3.toNat ((s.cpu.gpr .rsp).toNat - h.noise.frame.length)
        h.noise.frame s.mem = some m →
      Step (.stub h (.call :: is)) s [] (.code h (h.callee { s with mem := m }) is) { s with mem := m }
  | putc {h : Handler} {str : Nat} {next : Code} {is : List Instr} {s : Machine} {c : Int8} {m : Mem} :
      charAt s str = some c → c ≠ 0 → (∀ x, x ∉ consoleBytes V → m x = s.mem x) →
      Step (.code h (.puts str next) is) s [c] (.code h (.puts (str + 1) next) is) { s with mem := m }
  | nul {h : Handler} {str : Nat} {next : Code} {is : List Instr} {s : Machine} :
      charAt s str = some 0 → Step (.code h (.puts str next) is) s [] (.code h next is) s
  | print {h : Handler} {c : Int8} {cs : List Int8} {next : Code} {is : List Instr} {s : Machine}
      {m : Mem} : (∀ x, x ∉ consoleBytes V → m x = s.mem x) →
      Step (.code h (.print (c :: cs) next) is) s [c] (.code h (.print cs next) is) { s with mem := m }
  | printed {h : Handler} {next : Code} {is : List Instr} {s : Machine} :
      Step (.code h (.print [] next) is) s [] (.code h next is) s
  | ret {h : Handler} {f : Nat → Mem → Option (UInt64 × Mem)} {is : List Instr} {s : Machine}
      {res : UInt64} {m : Mem} :
      f s.cpu.cr3.toNat s.mem = some (res, m) →
      Step (.code h (.ret f) is) s [] (.stub h is) (returned h.noise res m s)
  | spin {h : Handler} {is : List Instr} {s : Machine} :
      Step (.code h .spin is) s [] (.code h .spin is) s

/-! ## Applications -/

/-- The page that is mapped on demand. -/
def OnPage (v : Nat) : Prop := additionalPageStart ≤ v ∧ v < additionalPageStart + pageLen

/-- The memory of task `t`: its window and, for task 0, the additional page. -/
def Owns (t v : Nat) : Prop := InWindow v ∨ (t = 0 ∧ OnPage v)

instance (v : Nat) : Decidable (InWindow v) := inferInstanceAs (Decidable (_ ∧ _))

instance (v : Nat) : Decidable (OnPage v) := inferInstanceAs (Decidable (_ ∧ _))

instance (t v : Nat) : Decidable (Owns t v) := inferInstanceAs (Decidable (_ ∨ _))

/-- Where it lies in physical memory. -/
def place (t v : Nat) : Nat :=
  if v < 0x41000000 then getTaskPhysAddr t + (v - 0x40000000)
  else additionalPhysAddrStart + (v - additionalPageStart)

/-- The memory of task `t` by virtual address, and nothing else. -/
def ownMem (t : Nat) (m : Mem) (v : Nat) : UInt8 := if Owns t v then m (place t v) else 0

/-- Task `t` while it runs: the registers of the processor, and its memory. -/
def displayed (t : Nat) (s : Machine) : Task := ⟨s.cpu, ownMem t s.mem⟩

/-- The program of an application. -/
structure Program where
  /-- What it does to its registers and its memory between two calls. -/
  computes : Task → Task → Prop
  /-- It executes `int 0x80`. -/
  calls : Task → Prop
  /-- It accesses an address. -/
  touches : Task → Nat → Prop

/-- The physical addresses behind what the running application may use: its window and, once that is
    mapped, the additional page. -/
def ownBytes (s : Machine) : Set Nat :=
  {x | ∃ v, (InWindow v ∨ OnPage v) ∧ translate s.mem s.cpu.cr3.toNat v = some x}

/-- What an application may change: its registers, but not `cr3`, and its own memory. Nothing protects the
    kernel, which is mapped into every address space; that applications leave it alone is assumed. -/
structure Computes (s s' : Machine) : Prop where
  cr3 : s'.cpu.cr3 = s.cpu.cr3
  mem : ∀ x, x ∉ ownBytes s → s'.mem x = s.mem x

/-- The processor is in the address space of task `t`. -/
structure Runs (L : TableLayout shipped) (s : Machine) (t : Nat) : Prop where
  lt : t < nTasks
  root : s.cpu.cr3.toNat = L.addr (.PML4s t)

theorem Runs.unique {s : Machine} {t t' : Nat} (h : Runs L s t) (h' : Runs L s t') : t = t' := by
  have hsame := L.distinct (.PML4s t) (.PML4s t') h.lt h'.lt (h.root.symm.trans h'.root)
  exact TableId.PML4s.inj hsame

/-- The running application computes as its program has it. -/
structure Proceeds (L : TableLayout shipped) (progs : Nat → Program) (s s' : Machine) : Prop where
  own : Computes s s'
  program : ∃ t, Runs L s t ∧ (progs t).computes (displayed t s) (displayed t s')

/-! ## Entering a handler -/

/-- The words the pointer in `rdi` points to. -/
def argument (s : Machine) (i : Nat) : Nat :=
  (vload translate s.mem s.cpu.cr3.toNat (s.cpu.gpr .rdi + 8 * UInt64.ofNat i).toNat 8).getD 0

inductive Cause where
  | timer
  | syscall
  | pageFault (addr : Nat)
  deriving DecidableEq

/-- The processor enters a handler, whose C function has a frame of at most `depth` bytes. -/
inductive Enter (depth : Nat) : Cause → Machine → Point → Machine → Prop
  | timer {h : Handler} {s s' : Machine} :
      h.noise.frame.length ≤ depth →
      (h.callee = fun s => .ret fun cr3 m =>
        lapicIntrHandlerInternal (schedule V) cr3 (s.cpu.gpr .rdi) m) →
      interrupt translate s = some s' → Enter depth .timer s (.stub h lapicIntrHandler) s'
  | syscall {h : Handler} {s s' : Machine} :
      h.noise.frame.length ≤ depth →
      (h.callee = fun s =>
        syscallHandlerInternal (h.noise.regs .rax) (s.cpu.gpr .rdi) (s.cpu.gpr .rsi)) →
      interrupt translate s = some s' → Enter depth .syscall s (.stub h syscallHandler) s'
  | pageFault {h : Handler} {s s' : Machine} {addr : Nat} (error : UInt64) :
      h.noise.frame.length ≤ depth →
      Canonical addr → translate s.mem s.cpu.cr3.toNat addr = none →
      (h.callee = fun s => pageFaultCode L (argument s) addr (h.noise.regs .rax) s.mem) →
      interruptWithError translate error s = some s' →
      Enter depth (.pageFault addr) s (.stub h pageFaultHandler) s'

/-- The running application brings a system call or a page fault about; a timer interrupt needs no-one. -/
inductive Wants (L : TableLayout shipped) (progs : Nat → Program) : Cause → Machine → Prop
  | timer {s : Machine} : Wants L progs .timer s
  | syscall {s : Machine} {t : Nat} :
      Runs L s t → (progs t).calls (displayed t s) → Wants L progs .syscall s
  | pageFault {s : Machine} {t addr : Nat} :
      Runs L s t → (progs t).touches (displayed t s) addr → Wants L progs (.pageFault addr) s

/-- With C frames of at most `depth` bytes, a handler uses less than this below the aligned stack
    pointer. -/
def reach (depth : Nat) : Nat := 168 + depth

/-- The application's stack has room for the frames. -/
def HasRoom (depth : Nat) (s : Machine) : Prop :=
  0x40000000 + reach depth ≤ (align16 (s.cpu.gpr .rsp)).toNat
    ∧ (align16 (s.cpu.gpr .rsp)).toNat ≤ 0x41000000

/-- What lies below the stack pointer within the reach of the frames. -/
def Dead (depth : Nat) (c : Cpu) (v : Nat) : Prop :=
  (align16 (c.gpr .rsp)).toNat ≤ v + reach depth ∧ v < (c.gpr .rsp).toNat

/-- The string passed in `rsi`: in the window of the application, and not where the frames go. -/
structure Passes (depth : Nat) (s : Machine) (text : List Int8) : Prop where
  chars : ∀ j (h : j < text.length), charAt s ((s.cpu.gpr .rsi).toNat + j) = some text[j]
  nonzero : ∀ c ∈ text, c ≠ 0
  nul : charAt s ((s.cpu.gpr .rsi).toNat + text.length) = some 0
  own : ∀ j ≤ text.length, InWindow ((s.cpu.gpr .rsi).toNat + j)
    ∧ ¬ Dead depth s.cpu ((s.cpu.gpr .rsi).toNat + j)

/-- What applications are assumed to keep to. The kernel checks neither: without room on the stack the
    frame itself faults, and `puts` of an unmapped address faults inside the handler. -/
structure Behaves (depth : Nat) (e : Cause) (s : Machine) : Prop where
  room : HasRoom depth s
  string : e = .syscall → s.cpu.gpr .rdi = syscallIdPuts → ∃ text, Passes depth s text

/-! ## Exceptions inside a handler -/

/-- The bytes of the word at `a`. -/
def wordAt (a : UInt64) : Set Nat := Set.Ico a.toNat (a.toNat + 8)

/-- The bytes of `n` words from `a` on. -/
def wordsAt : Nat → UInt64 → Set Nat
  | 0, _ => ∅
  | n + 1, a => wordAt a ∪ wordsAt n (a + 8)

/-- The virtual addresses the next step of a handler accesses. -/
def accesses (s : Machine) : Point → Set Nat
  | .stub _ (.push _ :: _) => wordAt (s.cpu.gpr .rsp - 8)
  | .stub _ (.pop _ :: _) => wordAt (s.cpu.gpr .rsp)
  | .stub _ (.load disp base _ :: _) => wordAt (s.cpu.gpr base + disp)
  | .stub _ (.iretq :: _) => wordsAt 5 (s.cpu.gpr .rsp)
  | .stub h (.call :: _) =>
      let bottom := (s.cpu.gpr .rsp).toNat - h.noise.frame.length
      Set.Ico bottom (bottom + h.noise.frame.length)
  | .code _ (.puts str _) _ => {str}
  | _ => ∅

/-- The next step of a handler accesses `addr`, which is not mapped. A C function that only returns a
    result does not say which of its accesses fails. -/
inductive Faults (s : Machine) : Point → Nat → Prop
  | access {p : Point} {addr : Nat} :
      addr ∈ accesses s p → translate s.mem s.cpu.cr3.toNat addr = none → Faults s p addr
  | ret {h : Handler} {f : Nat → Mem → Option (UInt64 × Mem)} {is : List Instr} {addr : Nat} :
      f s.cpu.cr3.toNat s.mem = none → Faults s (.code h (.ret f) is) addr

/-! ## The system -/

/-- The end of a stub. -/
def Leaves (p : Point) (s s' : Machine) : Prop := ∃ h, p = .stub h [.iretq] ∧ iretq translate s = some s'

/-- **The system**: applications that compute, and the handlers they are interrupted by. -/
def system (progs : Nat → Program) (depth : Nat) : Lib.Handlers.System Machine Point Cause Int8 where
  work := Proceeds L progs
  enabled := Enabled
  maskable e := e = .timer
  enter e s p s' := Wants L progs e s ∧ Behaves depth e s ∧ Enter V depth e s p s'
  raise p s p' s' := ∃ addr, Faults s p addr ∧ Enter V depth (.pageFault addr) s p' s'
  step := Step V
  leave := Leaves

end Kernel
end SysproKernel

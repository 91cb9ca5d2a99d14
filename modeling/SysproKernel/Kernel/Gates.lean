import SysproKernel.Kernel.Loaded
import SysproKernel.Interrupt.Gate
import SysproKernel.Timer.LapicTimer

/-!
# `Kernel.Gates` — how a vector finds its handler (`segmentation.c`, `load_gdt.s`, `interrupt.c`)

`Kernel.Code` enters the three stubs by their cause. Here is what the processor does with the vector of
that cause: it reads the tables that `init_segmentation` and `init_intr` have left in memory, through the
address space of whichever task runs.

The kernel boots in the address space of the firmware, which maps it to itself (`flat`). What is fixed for
a whole run are the bytes of the two tables, and the task tables' windows onto them.
-/

namespace SysproKernel
namespace Kernel

open Lib.ByteMem Lib.X86 Memory Sched Interrupt Terminal

variable {L : TableLayout shipped} {V : SchedVars L}

/-! ## The tables -/

/-- `const unsigned long long GDT[]`. -/
def gdtWords : List Nat := [0x0000000000000000, 0x00af9a000000ffff, 0x00cf93000000ffff]

/-- Where `GDT` and `IDT` lie. -/
structure Descriptors (L : TableLayout shipped) where
  gdt : Nat
  idt : Nat
  gdtIn : 0x100000000 ≤ gdt ∧ gdt + 24 ≤ 0x101000000
  idtIn : 0x100000000 ≤ idt ∧ idt + 4096 ≤ 0x101000000
  apart : gdt + 24 ≤ idt ∨ idt + 4096 ≤ gdt
  tablesOff : ∀ x ∈ L.bytes, (x < gdt ∨ gdt + 24 ≤ x) ∧ (x < idt ∨ idt + 4096 ≤ x)

/-- The bytes of both tables. -/
def Descriptors.bytes (D : Descriptors L) : Set Nat :=
  Set.Ico D.gdt (D.gdt + 24) ∪ Set.Ico D.idt (D.idt + 4096)

/-! ## `interrupt.c` -/

def syscallInterruptId : Nat := 0x80
def pageFaultInterruptId : Nat := 14

/-- The vector a cause is delivered with. -/
def Cause.vector : Cause → Nat
  | .timer => Timer.lapicInterruptId.toNatClampNeg
  | .syscall => syscallInterruptId
  | .pageFault _ => pageFaultInterruptId

/-- The error codes that the processor pushes with a cause. -/
def Cause.Pushes : Cause → Option UInt64 → Prop
  | .timer, error => error = none
  | .syscall, error => error = none
  | .pageFault _, error => ∃ code, error = some code

/-- Where the stubs lie, as `GET_FUNC_ADDRESS` finds them. -/
structure StubAddresses where
  lapicIntrHandler : UInt64
  syscallHandler : UInt64
  pageFaultHandler : UInt64

/-- The stub of a cause. -/
def StubAddresses.entry (A : StubAddresses) : Cause → UInt64
  | .timer => A.lapicIntrHandler
  | .syscall => A.syscallHandler
  | .pageFault _ => A.pageFaultHandler

/-- `init_intr()`. -/
def initIntr (D : Descriptors L) (A : StubAddresses) (p : Processor) : Processor :=
  let cs := p.machine.cpu.cs
  let m := p.machine.mem
  let m := setInterrupt D.idt Timer.lapicInterruptId.toNatClampNeg A.lapicIntrHandler cs m
  let m := setInterrupt D.idt syscallInterruptId A.syscallHandler cs m
  let m := setInterrupt D.idt pageFaultInterruptId A.pageFaultHandler cs m
  let p := { p with machine := { p.machine with mem := m } }
  sti (lidt { limit := 4096, base := UInt64.ofNat D.idt } p)

/-! ## `segmentation.c` -/

/-- The address space the kernel boots in. -/
def flat : Mem → Nat → Nat → Option Nat := fun _ _ v => some v

/-- `load_gdt(addr)`, up to the stack segment. -/
def loadSegments (sel : UInt16) (p : Processor) : Option Processor := do
  let p ← movSeg flat .ds sel p
  let p ← movSeg flat .es sel p
  let p ← movSeg flat .fs sel p
  let p ← movSeg flat .gs sel p
  movSs flat sel p

/-- `load_gdt(addr)`, the far return; `next` is the address of its label. -/
def reloadCs (next : UInt64) (p : Processor) : Option Processor := do
  let s := p.machine
  let sp := s.cpu.gpr .rsp - 16
  let m ← vstore flat s.mem s.cpu.cr3.toNat (sp + 8).toNat 8 0x08
  let m ← vstore flat m s.cpu.cr3.toNat sp.toNat 8 next.toNat
  lretq flat { p with machine := { cpu := (s.cpu.set .rsp sp).set .rax next, mem := m } }

/-- `load_gdt(addr)` for the table register at `addr`. -/
def loadGdt (next : UInt64) (r : TableRegister) (p : Processor) : Option Processor :=
  (loadSegments 0x10 (lgdt r p)).bind (reloadCs next)

/-- `init_segmentation()`. -/
def initSegmentation (D : Descriptors L) (next : UInt64) (p : Processor) : Option Processor :=
  loadGdt next { limit := UInt16.ofNat (8 * gdtWords.length), base := UInt64.ofNat D.gdt } p

/-! ## Delivery -/

/-- The selector that `load_gdt` loads into `cs`. -/
def kernelCs : UInt16 := 0x08

/-- The code segment's descriptor, once it is marked as accessed. -/
def codeDescriptor : Nat := 0x00af9b000000ffff

/-- A memory with both tables as the processor uses them. -/
structure Installed (D : Descriptors L) (A : StubAddresses) (m : Mem) : Prop where
  code : load m (D.gdt + 8) 8 = codeDescriptor
  gate : ∀ c : Cause, HoldsGate m (D.idt + 16 * c.vector) (A.entry c) kernelCs
  absent : ∀ v < 256, (∀ c : Cause, c.vector ≠ v) → load m (D.idt + 16 * v) 16 = 0

theorem Cause.vector_cases (c : Cause) : c.vector = 140 ∨ c.vector = 128 ∨ c.vector = 14 := by
  cases c with
  | timer => exact Or.inl rfl
  | syscall => exact Or.inr (Or.inl rfl)
  | pageFault addr => exact Or.inr (Or.inr rfl)

theorem Cause.vector_lt (c : Cause) : c.vector < 256 := by
  have hcases := c.vector_cases
  omega

theorem Descriptors.gdt_toNat (D : Descriptors L) : (UInt64.ofNat D.gdt).toNat = D.gdt := by
  have hin := D.gdtIn
  rw [UInt64.toNat_ofNat', Nat.mod_eq_of_lt (by omega)]

theorem Descriptors.idt_toNat (D : Descriptors L) : (UInt64.ofNat D.idt).toNat = D.idt := by
  have hin := D.idtIn
  rw [UInt64.toNat_ofNat', Nat.mod_eq_of_lt (by omega)]

variable {D : Descriptors L} {A : StubAddresses}

theorem Installed.congr {m m' : Mem} (h : Installed D A m) (heq : Set.EqOn m' m D.bytes) :
    Installed D A m' := by
  have hgdt : Set.EqOn m' m (Set.Ico D.gdt (D.gdt + 24)) := heq.mono Set.subset_union_left
  have hidt : Set.EqOn m' m (Set.Ico D.idt (D.idt + 4096)) := heq.mono Set.subset_union_right
  have hgate : ∀ v < 256, Set.EqOn m' m (Set.Ico (D.idt + 16 * v) (D.idt + 16 * v + 16)) :=
    fun v hv => hidt.mono (Set.Ico_subset_Ico (by omega) (by omega))
  refine ⟨?_, fun c => (h.gate c).congr (hgate _ c.vector_lt), fun v hv hne => ?_⟩
  · rw [load_congr (hgdt.mono (Set.Ico_subset_Ico (by omega) (by omega))), h.code]
  · rw [load_congr (hgate v hv), h.absent v hv hne]

/-- The processor after `init_intr`, with a machine whose memory still holds the tables and whose address
    space shows them. -/
structure Dispatching (D : Descriptors L) (A : StubAddresses) (p : Processor) : Prop where
  gdtr : p.gdtr = { limit := 24, base := UInt64.ofNat D.gdt }
  idtr : p.idtr = { limit := 4096, base := UInt64.ofNat D.idt }
  ring : p.machine.cpu.cs = kernelCs
  installed : Installed D A p.machine.mem
  mapsGdt : Maps translate p.machine.mem p.machine.cpu.cr3.toNat D.gdt D.gdt 24
  mapsIdt : Maps translate p.machine.mem p.machine.cpu.cr3.toNat D.idt D.idt 4096

variable {p : Processor} {ist codes : Nat → UInt64} {origin : Origin} {error : Option UInt64} {v : Nat}

/-- The 16 bytes behind a vector. -/
theorem Dispatching.entry (h : Dispatching D A p) (hv : v < 256) :
    p.idtr.entry translate (16 * v) 16 p.machine = .ok (load p.machine.mem (D.idt + 16 * v) 16) := by
  rw [h.idtr]
  apply TableRegister.entry_ok
  · show 16 * v + 16 ≤ 4097
    omega
  · show Maps translate _ _ ((UInt64.ofNat D.idt).toNat + 16 * v) _ _
    rw [D.idt_toNat]
    exact h.mapsIdt.part (by omega)

/-- A vector without a gate raises a general protection fault. -/
theorem Dispatching.attempt_absent (h : Dispatching D A p) (hv : ∀ c : Cause, c.vector ≠ v) :
    p.attempt translate ist origin v error = .error generalProtection := by
  have hgate : p.idtr.gate translate origin v p.machine = .error generalProtection := by
    by_cases hlimit : v < 256
    · apply TableRegister.gate_zero
      rw [h.entry hlimit, h.installed.absent v hlimit hv]
    · have hbeyond : p.idtr.entry translate (16 * v) 16 p.machine = .error generalProtection := by
        rw [h.idtr]
        apply TableRegister.entry_beyond
        show 4097 < 16 * v + 16
        omega
      rw [TableRegister.gate, hbeyond]
      rfl
  rw [Processor.attempt, hgate]
  rfl

/-- The gate of a cause passes every check. -/
theorem Dispatching.gate (h : Dispatching D A p) (c : Cause) :
    p.idtr.gate translate origin c.vector p.machine =
      .ok { offset := A.entry c, selector := kernelCs, ist := 0, cleared := gateFlags } := by
  have hholds := h.installed.gate c
  have hzero : gateZero.get (load p.machine.mem (D.idt + 16 * c.vector) 16) = 0 :=
    (hholds.attribute (by decide) (by decide)).trans (by decide)
  have htype : gateType.get (load p.machine.mem (D.idt + 16 * c.vector) 16) = interruptGate :=
    (hholds.attribute (by decide) (by decide)).trans (by decide)
  have hpresent : gatePresent.get (load p.machine.mem (D.idt + 16 * c.vector) 16) = 1 :=
    (hholds.attribute (by decide) (by decide)).trans (by decide)
  have hring : p.machine.cpu.cs.toNat % 4 = 0 := by
    rw [h.ring]
    decide
  rw [TableRegister.gate_ok (h.entry c.vector_lt) hzero htype hpresent hring, hholds.decode]

/-- The code segment passes every check, and is left as it is. -/
theorem Dispatching.segment (h : Dispatching D A p) :
    p.gdtr.segment translate segmentNotPresent isCode kernelCs p.machine = .ok p.machine := by
  apply TableRegister.segment_accessed (d := codeDescriptor) _ (by decide) (by decide)
  refine ⟨by decide, by decide, ?_, by decide⟩
  rw [h.gdtr, ← h.installed.code]
  apply TableRegister.entry_ok
  · show 8 + 8 ≤ 25
    decide
  · show Maps translate _ _ ((UInt64.ofNat D.gdt).toNat + 8) _ _
    rw [D.gdt_toNat]
    exact h.mapsGdt.part (by decide)

/-- **The vector of a cause enters its stub**, behind the frame of an interrupt on the running stack. -/
theorem Dispatching.raise_cause (h : Dispatching D A p) (c : Cause) (error : Option UInt64)
    (hcanon : Canonical (A.entry c).toNat) {s : Machine}
    (hframe : interruptFrame translate error p.machine = some s) :
    p.raise translate ist codes origin c.vector error = .entered c.vector (s.jump kernelCs (A.entry c)) := by
  apply Processor.raise_entered
  unfold Processor.attempt
  rw [h.gate c]
  show (p.gdtr.segment translate segmentNotPresent isCode kernelCs p.machine).bind _ = _
  rw [h.segment]
  show (if ¬ Canonical (A.entry c).toNat then _ else _) = _
  rw [if_neg (not_not.mpr hcanon)]
  rw [Gate.enter_interrupt rfl rfl, hframe]
  rfl

/-- **Any other vector stops the processor**: its exception has no gate either, nor has the double fault. -/
theorem Dispatching.raise_other (h : Dispatching D A p) (hv : ∀ c : Cause, c.vector ≠ v) :
    p.raise translate ist codes origin v error = .shutdown := by
  have hprotection : ∀ c : Cause, c.vector ≠ generalProtection := by
    intro c
    have hcases := c.vector_cases
    unfold generalProtection
    omega
  have hdouble : ∀ c : Cause, c.vector ≠ doubleFault := by
    intro c
    have hcases := c.vector_cases
    unfold doubleFault
    omega
  apply Processor.raise_shutdown
  simp only [List.forall_mem_cons, List.not_mem_nil, false_imp_iff, implies_true, and_true]
  exact ⟨fun _ _ => h.attempt_absent hv, fun _ _ => h.attempt_absent hprotection,
    fun _ _ => h.attempt_absent hdouble⟩

/-! ## Boot -/

/-- The slot of the far return address. -/
def farReturn (p : Processor) : Set Nat :=
  Set.Ico ((p.machine.cpu.gpr .rsp).toNat - 16) (p.machine.cpu.gpr .rsp).toNat

/-- What `init_segmentation` leaves of `p`. -/
structure Segmented (D : Descriptors L) (p p' : Processor) : Prop where
  gdtr : p'.gdtr = { limit := 24, base := UInt64.ofNat D.gdt }
  cs : p'.machine.cpu.cs = kernelCs
  ss : p'.machine.cpu.ss = 0x10
  data : ∀ r, p'.data r = 0x10
  sp : p'.machine.cpu.gpr .rsp = p.machine.cpu.gpr .rsp
  code : load p'.machine.mem (D.gdt + 8) 8 = codeDescriptor
  outside : ∀ x, x ∉ farReturn p → x ∉ Set.Ico (D.gdt + 8) (D.gdt + 16) →
    p'.machine.mem x = p.machine.mem x

theorem maps_flat {m : Mem} {cr3 a n : Nat} : Maps flat m cr3 a a n := fun _ _ => rfl

theorem pop_flat (s : Machine) :
    pop flat s = some (UInt64.ofNat (load s.mem (s.cpu.gpr .rsp).toNat 8),
      { s with cpu := s.cpu.set .rsp (s.cpu.gpr .rsp + 8) }) := by
  rw [pop, vload_eq maps_flat]
  rfl

/-- The descriptor at an index of the table. -/
theorem selects_flat {r : TableRegister} {s : Machine} {sel : UInt16} {d : Nat} (hnull : 4 ≤ sel.toNat)
    (hglobal : sel.toNat / 4 % 2 ≠ 1) (hlimit : sel.toNat / 8 * 8 + 8 ≤ r.limit.toNat + 1)
    (hword : load s.mem (r.base.toNat + sel.toNat / 8 * 8) 8 = d) (hpresent : segmentPresent.get d ≠ 0) :
    r.Selects flat sel s d := by
  refine ⟨hnull, hglobal, ?_, hpresent⟩
  rw [← hword]
  exact TableRegister.entry_ok hlimit maps_flat

/-- The descriptor of the data segments, and of the code segment before it is used. -/
def dataDescriptor : Nat := 0x00cf93000000ffff
def freshCodeDescriptor : Nat := 0x00af9a000000ffff

theorem loadSegments_spec {p : Processor} (hsel : p.gdtr.Selects flat 0x10 p.machine dataDescriptor) :
    loadSegments 0x10 p = some { p with
      data := fun _ => 0x10
      machine := { p.machine with cpu := { p.machine.cpu with ss := 0x10 } } } := by
  have hload : ∀ (q : DataSeg) (data : DataSeg → UInt16),
      movSeg flat q 0x10 { p with data } = some { p with data := Function.update data q 0x10 } :=
    fun q data => movSeg_accessed (p := { p with data }) hsel (by decide) (by decide)
  have hstack : ∀ data : DataSeg → UInt16, movSs flat 0x10 { p with data } = some { p with
      data
      machine := { p.machine with cpu := { p.machine.cpu with ss := 0x10 } } } :=
    fun data => movSs_accessed (p := { p with data }) hsel (by decide) (by decide) (by decide)
  have hfirst : movSeg flat .ds 0x10 p = some { p with data := Function.update p.data .ds 0x10 } :=
    hload .ds p.data
  have hall : Function.update (Function.update (Function.update (Function.update p.data .ds 0x10) .es 0x10)
      .fs 0x10) .gs 0x10 = fun _ => 0x10 := by
    funext q
    cases q <;> rfl
  simp only [loadSegments, hfirst, hload, hstack, hall, Option.bind_eq_bind, Option.bind_some]

/-- The far return: back to the label, with the stack pointer where it was. -/
theorem lretq_spec {p : Processor} {next sp : UInt64}
    (hnext : load p.machine.mem (p.machine.cpu.gpr .rsp).toNat 8 = next.toNat)
    (hcs : load p.machine.mem (p.machine.cpu.gpr .rsp + 8).toNat 8 = 8)
    (hsp : p.machine.cpu.gpr .rsp + 8 + 8 = sp)
    (hsel : p.gdtr.Selects flat kernelCs p.machine freshCodeDescriptor) :
    lretq flat p = some { p with machine :=
      { cpu := { p.machine.cpu.set .rsp sp with rip := next, cs := kernelCs }
        mem := store p.machine.mem (p.gdtr.base.toNat + 8) 8 codeDescriptor } } := by
  let s₁ : Machine := { p.machine with cpu := p.machine.cpu.set .rsp (p.machine.cpu.gpr .rsp + 8) }
  let s₂ : Machine := { p.machine with cpu := p.machine.cpu.set .rsp sp }
  have hfirst : pop flat p.machine = some (next, s₁) := by
    rw [pop_flat, hnext, UInt64.ofNat_toNat]
  have hsecond : pop flat s₁ = some (8, s₂) := by
    rw [pop_flat]
    have hptr : s₁.cpu.gpr .rsp = p.machine.cpu.gpr .rsp + 8 := Cpu.set_gpr_self ..
    have hmem : s₁.mem = p.machine.mem := rfl
    have hcpu : s₁.cpu.set .rsp (p.machine.cpu.gpr .rsp + 8 + 8) = s₂.cpu := by
      rw [hsp]
      exact Cpu.set_set ..
    rw [hptr, hmem, hcs, hcpu]
    rfl
  have hmark : p.gdtr.segment flat segmentNotPresent isCode kernelCs s₂ =
      .ok { s₂ with mem := store p.machine.mem (p.gdtr.base.toNat + 8) 8 codeDescriptor } := by
    have hsel₂ : p.gdtr.Selects flat kernelCs s₂ freshCodeDescriptor :=
      ⟨hsel.notNull, hsel.global, hsel.entry, hsel.present⟩
    have hset : accessed.set freshCodeDescriptor 1 = codeDescriptor := by decide
    rw [← hset]
    exact TableRegister.segment_mark hsel₂ (by decide) (by decide) maps_flat
  have hcs' : (8 : UInt64).toUInt16 = kernelCs := by decide
  have hring : kernelCs.toNat % 4 = 0 := by decide
  simp only [lretq, hfirst, hsecond, Option.bind_eq_bind, Option.bind_some, hcs', guard, if_pos hring, hmark,
    Except.toOption]
  rfl

/-- `cs` is reloaded through two words below the stack pointer. -/
theorem reloadCs_spec (next sp : UInt64) {p : Processor} (hptr : p.machine.cpu.gpr .rsp = sp)
    (hroom : 16 ≤ sp.toNat)
    (hoff : sp.toNat ≤ p.gdtr.base.toNat ∨ p.gdtr.base.toNat + 24 + 16 ≤ sp.toNat)
    (hlimit : p.gdtr.limit = 24)
    (hcode : load p.machine.mem (p.gdtr.base.toNat + 8) 8 = freshCodeDescriptor) :
    reloadCs next p = some { p with machine :=
      { cpu := { p.machine.cpu.set .rax next with rip := next, cs := kernelCs }
        mem := store (store (store p.machine.mem (sp.toNat - 8) 8 8) (sp.toNat - 16) 8 next.toNat)
          (p.gdtr.base.toNat + 8) 8 codeDescriptor } } := by
  have hlow : (sp - 16).toNat = sp.toNat - 16 := UInt64.toNat_sub_of_le _ _ hroom
  have hhigh : (sp - 16 + 8).toNat = sp.toNat - 8 := by
    have hlt := sp.toNat_lt
    rw [UInt64.toNat_add, hlow]
    show (sp.toNat - 16 + 8) % 2 ^ 64 = _
    omega
  have hback : sp - 16 + 8 + 8 = sp := by
    rw [UInt64.add_assoc]
    exact UInt64.sub_add_cancel sp 16
  generalize hm : store (store p.machine.mem (sp.toNat - 8) 8 8) (sp.toNat - 16) 8 next.toNat = m
  have hnext : load m (sp.toNat - 16) 8 = next.toNat := by
    rw [← hm, load_store_self]
    exact Nat.mod_eq_of_lt next.toNat_lt
  have hcs : load m (sp.toNat - 8) 8 = 8 := by
    rw [← hm, load_store_disjoint (by omega), load_store_self]
    decide
  have hkeep : load m (p.gdtr.base.toNat + 8) 8 = freshCodeDescriptor := by
    rw [← hm, load_store_disjoint (by omega), load_store_disjoint (by omega), hcode]
  let q : Processor :=
    { p with machine := { cpu := (p.machine.cpu.set .rsp (sp - 16)).set .rax next, mem := m } }
  have hq : q.machine.cpu.gpr .rsp = sp - 16 := by
    show ((p.machine.cpu.set _ _).set _ _).gpr .rsp = _
    rw [Cpu.set_gpr_ne _ (by decide), Cpu.set_gpr_self]
  have hsel : q.gdtr.Selects flat kernelCs q.machine freshCodeDescriptor :=
    selects_flat (by decide) (by decide) (by rw [hlimit]; decide) hkeep (by decide)
  have hrun : reloadCs next p = lretq flat q := by
    unfold reloadCs
    simp only [hptr, hlow, hhigh, vstore_eq maps_flat, Option.bind_eq_bind, Option.bind_some, hm]
    rfl
  have hrestored : q.machine.cpu.set .rsp sp = p.machine.cpu.set .rax next := by
    apply Cpu.ext <;> try rfl
    funext q
    rw [← hptr]
    cases q <;> rfl
  have hret : load q.machine.mem (q.machine.cpu.gpr .rsp).toNat 8 = next.toNat := by
    rw [hq, hlow]
    exact hnext
  rw [hrun, lretq_spec hret (by rw [hq, hhigh]; exact hcs) (by rw [hq, hback]) hsel, hrestored]

/-- **`init_segmentation` succeeds** with the table as it is in `segmentation.c`. The processor marks the
    code segment as accessed. -/
theorem initSegmentation_spec (next : UInt64) (p : Processor)
    (hgdt : ∀ i (h : i < gdtWords.length), load p.machine.mem (D.gdt + 8 * i) 8 = gdtWords[i])
    (hroom : 16 ≤ (p.machine.cpu.gpr .rsp).toNat)
    (hoff : (p.machine.cpu.gpr .rsp).toNat ≤ D.gdt ∨
      D.gdt + 24 + 16 ≤ (p.machine.cpu.gpr .rsp).toNat) :
    ∃ p', initSegmentation D next p = some p' ∧ Segmented D p p' := by
  have hcode : load p.machine.mem (D.gdt + 8) 8 = freshCodeDescriptor := hgdt 1 (by decide)
  have hdata : load p.machine.mem (D.gdt + 16) 8 = dataDescriptor := hgdt 2 (by decide)
  obtain ⟨r, hr⟩ : ∃ r : TableRegister, r = { limit := 24, base := UInt64.ofNat D.gdt } := ⟨_, rfl⟩
  have hlimit : r.limit = 24 := by rw [hr]
  have hbase : r.base.toNat = D.gdt := by
    rw [hr]
    exact D.gdt_toNat
  have hsel : r.Selects flat 0x10 p.machine dataDescriptor :=
    selects_flat (by decide) (by decide) (by rw [hlimit]; decide) (by rw [hbase]; exact hdata)
      (by decide)
  have hsegments := loadSegments_spec (p := lgdt r p) hsel
  have hreload := reloadCs_spec next (p.machine.cpu.gpr .rsp) (p := { lgdt r p with
      data := fun _ => 0x10
      machine := { p.machine with cpu := { p.machine.cpu with ss := 0x10 } } })
    rfl hroom (by rw [show (lgdt r p).gdtr = r from rfl, hbase]; exact hoff)
    hlimit (by rw [show (lgdt r p).gdtr = r from rfl, hbase]; exact hcode)
  have hrun : initSegmentation D next p = (loadSegments 0x10 (lgdt r p)).bind (reloadCs next) := by
    rw [hr]
    rfl
  rw [hsegments, Option.bind_some] at hrun
  refine ⟨_, hrun.trans hreload, hr, rfl, rfl, fun _ => rfl, rfl, ?_, ?_⟩
  · show load (store _ (r.base.toNat + 8) 8 codeDescriptor) (D.gdt + 8) 8 = _
    rw [hbase, load_store_self]
    decide
  · intro x hslot hmark
    show store _ (r.base.toNat + 8) 8 codeDescriptor x = _
    simp only [farReturn, Set.mem_Ico, not_and, not_lt] at hslot hmark
    rw [hbase, store_outside (by omega), store_outside (by omega), store_outside (by omega)]

/-- **`init_intr` installs the gates**: one for each cause, in a table that is zero otherwise. -/
theorem initIntr_installed (hcs : p.machine.cpu.cs = kernelCs)
    (hcode : load p.machine.mem (D.gdt + 8) 8 = codeDescriptor)
    (hzero : ∀ i < 4096, p.machine.mem (D.idt + i) = 0) :
    Installed D A (initIntr D A p).machine.mem := by
  have hapart := D.apart
  have htimer : Timer.lapicInterruptId.toNatClampNeg = 140 := rfl
  generalize hm : p.machine.mem = m at *
  -- the three gates, in the order they are written
  let m₁ := setInterrupt D.idt 140 A.lapicIntrHandler kernelCs m
  let m₂ := setInterrupt D.idt 128 A.syscallHandler kernelCs m₁
  let m₃ := setInterrupt D.idt 14 A.pageFaultHandler kernelCs m₂
  have hmem : (initIntr D A p).machine.mem = m₃ := by
    show setInterrupt D.idt pageFaultInterruptId _ p.machine.cpu.cs
      (setInterrupt D.idt syscallInterruptId _ p.machine.cpu.cs
        (setInterrupt D.idt _ _ p.machine.cpu.cs p.machine.mem)) = _
    rw [htimer, hcs, hm]
    rfl
  have hblank : ∀ v n, v < 256 → n ≤ 16 → load m (D.idt + 16 * v) n = 0 := fun v n hv hn =>
    load_zero (fun i hi => by rw [Nat.add_assoc]; exact hzero _ (by omega))
  have hword : ∀ v < 256, load m (D.idt + 16 * v + 4) 2 = 0 := fun v hv =>
    load_zero (fun i hi => by rw [Nat.add_assoc, Nat.add_assoc]; exact hzero _ (by omega))
  have hone : HoldsGate m₁ (D.idt + 16 * 140) A.lapicIntrHandler kernelCs :=
    setInterrupt_holds (hword 140 (by decide))
  have htwo : HoldsGate m₂ (D.idt + 16 * 128) A.syscallHandler kernelCs := by
    refine setInterrupt_holds ?_
    rw [load_congr (fun x hx => setInterrupt_outside (by have h := hx.1; have h' := hx.2; omega))]
    exact hword 128 (by decide)
  have hthree : HoldsGate m₃ (D.idt + 16 * 14) A.pageFaultHandler kernelCs := by
    refine setInterrupt_holds ?_
    rw [load_congr (fun x hx => setInterrupt_outside (by have h := hx.1; have h' := hx.2; omega)),
      load_congr (fun x hx => setInterrupt_outside (by have h := hx.1; have h' := hx.2; omega))]
    exact hword 14 (by decide)
  rw [hmem]
  refine ⟨?_, fun c => ?_, fun v hv hne => ?_⟩
  · rw [← hcode]
    refine load_congr (fun x hx => ?_)
    have hlo := hx.1
    have hhi := hx.2
    exact (setInterrupt_outside (by omega)).trans ((setInterrupt_outside (by omega)).trans
      (setInterrupt_outside (by omega)))
  · cases c with
    | timer =>
        refine hone.congr (fun x hx => ?_)
        have hlo : D.idt + 16 * 140 ≤ x := hx.1
        exact (setInterrupt_outside (by omega)).trans (setInterrupt_outside (by omega))
    | syscall =>
        refine htwo.congr (fun x hx => ?_)
        have hlo : D.idt + 16 * 128 ≤ x := hx.1
        exact setInterrupt_outside (by omega)
    | pageFault addr => exact hthree
  · have h₁ : v ≠ 140 := (hne .timer).symm
    have h₂ : v ≠ 128 := (hne .syscall).symm
    have h₃ : v ≠ 14 := (hne (.pageFault 0)).symm
    rw [← hblank v 16 hv (Nat.le_refl _)]
    refine load_congr (fun x hx => ?_)
    have hlo := hx.1
    have hhi := hx.2
    exact (setInterrupt_outside (by omega)).trans ((setInterrupt_outside (by omega)).trans
      (setInterrupt_outside (by omega)))

/-! ## From boot to the stubs -/

/-- The firmware's stack has room for the far return address, away from the kernel's data. -/
structure BootStack (D : Descriptors L) (p : Processor) : Prop where
  room : 16 ≤ (p.machine.cpu.gpr .rsp).toNat
  gdtOff : (p.machine.cpu.gpr .rsp).toNat ≤ D.gdt ∨ D.gdt + 24 + 16 ≤ (p.machine.cpu.gpr .rsp).toNat
  idtOff : (p.machine.cpu.gpr .rsp).toNat ≤ D.idt ∨ D.idt + 4096 + 16 ≤ (p.machine.cpu.gpr .rsp).toNat
  tablesOff : ∀ x ∈ L.bytes, x ∉ farReturn p

/-- The kernel as it is loaded: its constants in place, its other data zero. -/
structure KernelImage (D : Descriptors L) (m : Mem) : Prop where
  gdt : ∀ i (h : i < gdtWords.length), load m (D.gdt + 8 * i) 8 = gdtWords[i]
  idt : ∀ i < 4096, m (D.idt + i) = 0
  tables : ZeroedTables L m

/-- The address space of some task, whatever has been mapped on demand. -/
def OnTask (L : TableLayout shipped) (s : Machine) : Prop :=
  ∃ τ t, Gives τ ∧ t < nTasks ∧ Represents L s.mem τ ∧ s.cpu.cr3.toNat = L.addr (.PML4s t)

/-- The causes enter their stubs, as `Enter` has it, and nothing else is delivered. -/
structure Dispatches (V : SchedVars L) (A : StubAddresses) (p : Processor) : Prop where
  causes : ∀ {depth : Nat} {c : Cause} {h : Handler} {stub : List Instr} {s : Machine},
    Enter V depth c p.machine (.stub h stub) s → ∃ error, c.Pushes error ∧ ∀ ist codes origin,
      p.raise translate ist codes origin c.vector error =
        .entered c.vector (s.jump kernelCs (A.entry c))
  others : ∀ v, (∀ c : Cause, c.vector ≠ v) → ∀ ist codes origin error,
    p.raise translate ist codes origin v error = .shutdown

theorem Dispatching.dispatches (h : Dispatching D A p) (hcanon : ∀ c, Canonical (A.entry c).toNat) :
    Dispatches V A p where
  causes henter := by
    cases henter with
    | timer _ _ hframe => exact ⟨none, rfl, fun _ _ _ => h.raise_cause .timer none (hcanon _) hframe⟩
    | syscall _ _ hframe => exact ⟨none, rfl, fun _ _ _ => h.raise_cause .syscall none (hcanon _) hframe⟩
    | pageFault error _ _ _ _ hframe =>
        exact ⟨some error, ⟨error, rfl⟩,
          fun _ _ _ => h.raise_cause (.pageFault _) (some error) (hcanon _) hframe⟩
  others v hv _ _ _ _ := h.raise_other hv

theorem enabled_or (flags : UInt64) : (flags ||| interruptFlag) &&& interruptFlag ≠ 0 := by
  have hself : (flags ||| interruptFlag) &&& interruptFlag = interruptFlag := by
    apply UInt64.toBitVec_inj.mp
    ext i hi
    simpa using Or.inr
  rw [hself]
  decide

/-- The bit of the delivery status, in or out. -/
theorem deliveryStatus_cases (regs : Nat → UInt32) :
    regs Timer.lvtTimer &&& (1 : UInt32) <<< 12 = 0 ∨
      regs Timer.lvtTimer &&& (1 : UInt32) <<< 12 = 0x1000 := by
  have hbit := Nat.and_two_pow (regs Timer.lvtTimer).toNat 12
  cases htest : (regs Timer.lvtTimer).toNat.testBit 12 with
  | false =>
      rw [htest] at hbit
      exact Or.inl (UInt32.toNat_inj.mp hbit)
  | true =>
      rw [htest] at hbit
      exact Or.inr (UInt32.toNat_inj.mp hbit)

/-- The timer is armed with the vector of its cause, and is not masked. -/
theorem lvt_vector (regs : Nat → UInt32) :
    let w := Timer.setLvlTimerValue regs Timer.modePeriodic Timer.lapicInterruptId
    w.value.toNat % 256 = Cause.timer.vector ∧ w.value.toNat / 2 ^ 16 % 2 = 0 := by
  have hid : ¬ Timer.lapicInterruptId = -1 := by decide
  simp only [Timer.setLvlTimerValue, if_neg hid]
  rcases deliveryStatus_cases regs with hstatus | hstatus <;> rw [hstatus] <;> decide

/-- While its frequency is measured it is masked. -/
theorem lvt_masked (regs : Nat → UInt32) :
    (Timer.setLvlTimerValue regs Timer.modeOneshot (-1)).value.toNat / 2 ^ 16 % 2 = 1 := by
  simp only [Timer.setLvlTimerValue, if_pos]
  rcases deliveryStatus_cases regs with hstatus | hstatus <;> rw [hstatus] <;> decide

/-- The writes of a call that set the timer's vector and its mask. -/
def lvtWrites (r : Timer.LapicRun) : List UInt32 :=
  (r.writes.filter fun w => w.address = Timer.lvtTimer).map Timer.RegWrite.value

/-- **The LAPIC timer interrupts with its own vector only**: it is masked while its frequency is measured,
    and armed, unmasked, with the vector of its cause. -/
structure TimerVectored : Prop where
  measured : ∀ {pm io fuel regs g r}, Timer.measureLapicFreqKhz pm io fuel regs g = some r →
    ∀ w ∈ lvtWrites r.2, w.toNat / 2 ^ 16 % 2 = 1
  armed : ∀ regs g msec callback, ∀ w ∈ lvtWrites (Timer.lapicPeriodicExec regs g msec callback),
    w.toNat % 256 = Cause.timer.vector ∧ w.toNat / 2 ^ 16 % 2 = 0

/-- Of the three registers a call writes, the first is the one with the vector. -/
theorem lvtWrites_three {r : Timer.LapicRun} {first second third : Timer.RegWrite}
    (hwrites : r.writes = [first, second, third]) (hsecond : second.address = Timer.divideConfig)
    (hthird : third.address = Timer.initialCount) {w : UInt32} (hw : w ∈ lvtWrites r) :
    w = first.value := by
  have hdivide : Timer.divideConfig ≠ Timer.lvtTimer := by decide
  have hcount : Timer.initialCount ≠ Timer.lvtTimer := by decide
  obtain ⟨x, hx, rfl⟩ := List.mem_map.mp hw
  obtain ⟨hmem, haddress⟩ := List.mem_filter.mp hx
  rw [decide_eq_true_eq] at haddress
  rw [hwrites] at hmem
  simp only [List.mem_cons, List.not_mem_nil, or_false] at hmem
  rcases hmem with rfl | rfl | rfl
  · rfl
  · exact absurd (hsecond.symm.trans haddress) hdivide
  · exact absurd (hthird.symm.trans haddress) hcount

theorem timerVectored : TimerVectored where
  measured := by
    intro pm io fuel regs g r hrun w hw
    obtain ⟨k, -, hr⟩ := Option.map_eq_some_iff.mp hrun
    have hwrites : r.2.writes = [Timer.setLvlTimerValue regs Timer.modeOneshot (-1),
        Timer.setDivideConfig regs 1, { address := Timer.initialCount, value := 0x80000000 }] := by
      by_cases hzero : regs Timer.currentCount = 0
      · rw [if_pos hzero] at hr
        subst hr
        rfl
      · rw [if_neg hzero] at hr
        subst hr
        rfl
    rw [lvtWrites_three hwrites rfl rfl hw]
    exact lvt_masked regs
  armed := by
    intro regs g msec callback w hw
    by_cases hzero : g.lapicTimerFreqKhz = 0
    · rw [lvtWrites, Timer.lapicPeriodicExec, if_pos hzero] at hw
      cases hw
    · have hwrites : (Timer.lapicPeriodicExec regs g msec callback).writes =
          [Timer.setLvlTimerValue regs Timer.modePeriodic Timer.lapicInterruptId,
            Timer.setDivideConfig regs 1,
            { address := Timer.initialCount, value := msec * g.lapicTimerFreqKhz }] := by
        rw [Timer.lapicPeriodicExec, if_neg hzero]
      rw [lvtWrites_three hwrites rfl rfl hw]
      exact lvt_vector regs

/-- **Every vector goes where it belongs.** With stubs at canonical addresses and a boot stack away from the
    tables: after `init_segmentation`, `init_virtual_memory` and `init_intr` interrupts are enabled, and
    whichever task runs later, with the kernel's `cs` and as long as the bytes of the two tables are kept,
    the vectors of the timer, of `int 0x80` and of page faults enter their stubs, and any other vector shuts
    the processor down. The timer interrupts with its own vector only. -/
theorem vectors_find_handlers (V : SchedVars L) (D : Descriptors L) (A : StubAddresses)
    (hcanon : ∀ c, Canonical (A.entry c).toNat) (next : UInt64) (p : Processor)
    (himage : KernelImage D p.machine.mem) (hstack : BootStack D p) :
    ∃ p₁ vm, initSegmentation D next p = some p₁
      ∧ initVirtualMemory L p₁.machine.mem p₁.machine.cpu.cr3.toNat = .ok vm
      ∧ let p₂ := initIntr D A { p₁ with machine := { p₁.machine with mem := vm.mem } }
        Enabled p₂.machine
        ∧ (∀ s, s.cpu.cs = kernelCs → OnTask L s → Set.EqOn s.mem p₂.machine.mem D.bytes →
            Dispatches V A { p₂ with machine := s })
        ∧ TimerVectored := by
  obtain ⟨p₁, hrun, hp₁⟩ := initSegmentation_spec next p himage.gdt hstack.room hstack.gdtOff
  have htables : ZeroedTables L p₁.machine.mem := by
    intro T hT b hb
    have hin : L.addr T + b ∈ L.bytes := ⟨T, hT, by omega, by omega⟩
    have hoff := (D.tablesOff _ hin).1
    rw [hp₁.outside _ (hstack.tablesOff _ hin) (fun h => by have hlo := h.1; have hhi := h.2; omega)]
    exact himage.tables T hT b hb
  obtain ⟨vm, hvm, -, -⟩ := initVirtualMemory_windows htables p₁.machine.cpu.cr3.toNat
  have hgdt : load vm.mem (D.gdt + 8) 8 = codeDescriptor := by
    rw [← hp₁.code]
    refine load_congr (fun x hx => initVirtualMemory_outside hvm (fun hin => ?_))
    have hoff := (D.tablesOff _ hin).1
    have hlo := hx.1
    have hhi := hx.2
    omega
  have hidt : ∀ i < 4096, vm.mem (D.idt + i) = 0 := by
    intro i hi
    have hapart := D.apart
    have hslot := hstack.idtOff
    have hnot : D.idt + i ∉ L.bytes := fun hin => by
      have hoff := (D.tablesOff _ hin).2
      omega
    rw [initVirtualMemory_outside hvm hnot, hp₁.outside]
    · exact himage.idt i hi
    · rintro ⟨hlo, hhi⟩
      omega
    · rintro ⟨hlo, hhi⟩
      omega
  have hinstalled := initIntr_installed (A := A)
    (p := { p₁ with machine := { p₁.machine with mem := vm.mem } }) hp₁.cs hgdt hidt
  refine ⟨p₁, vm, hrun, hvm, ?_, ?_, ?_⟩
  · exact enabled_or _
  · rintro s hcs ⟨τ, t, hgives, ht, hrep, hroot⟩ hkept
    have hmaps : ∀ {a n}, 0x100000000 ≤ a ∧ a + n ≤ 0x101000000 →
        Maps translate s.mem s.cpu.cr3.toNat a a n := fun hin => by
      rw [hroot]
      exact hgives.maps_shared hrep ht (Or.inl hin)
    have hdispatching : Dispatching D A
        { initIntr D A { p₁ with machine := { p₁.machine with mem := vm.mem } } with machine := s } :=
      ⟨hp₁.gdtr, rfl, hcs, hinstalled.congr hkept, hmaps D.gdtIn, hmaps D.idtIn⟩
    exact hdispatching.dispatches hcanon
  · exact timerVectored

/-! ## A concrete boot -/

/-- Both tables, behind the page tables of `packedLayout`. -/
def packedDescriptors : Descriptors packedLayout where
  gdt := 0x100040000
  idt := 0x100041000
  gdtIn := by decide
  idtIn := by decide
  apart := .inl (by decide)
  tablesOff x hx := by
    have hlt := packedLayout_bytes_lt x hx
    omega

/-- Zeros, but for the constants. -/
def packedImage : Mem :=
  store (store (fun _ => 0) 0x100040008 8 freshCodeDescriptor) 0x100040010 8 dataDescriptor

theorem packedImage_loaded : KernelImage packedDescriptors packedImage where
  gdt i hi := by
    have hcases : i = 0 ∨ i = 1 ∨ i = 2 := by
      have hlen : gdtWords.length = 3 := rfl
      omega
    rcases hcases with rfl | rfl | rfl
    · show load packedImage 0x100040000 8 = 0
      rw [packedImage, load_store_disjoint (by decide), load_store_disjoint (by decide)]
      exact load_zero (fun _ _ => rfl)
    · show load packedImage 0x100040008 8 = freshCodeDescriptor
      rw [packedImage, load_store_disjoint (by decide), load_store_self]
      decide
    · show load packedImage 0x100040010 8 = dataDescriptor
      rw [packedImage, load_store_self]
      decide
  idt i hi := by
    have hlo : 0x100040018 ≤ packedDescriptors.idt + i := Nat.le_trans (by decide) (Nat.le_add_right _ i)
    rw [packedImage, store_outside (by omega), store_outside (by omega)]
  tables T hT b hb := by
    have hlt := packedLayout_bytes_lt _ ⟨T, hT, Nat.le_add_right _ b, Nat.add_lt_add_left hb _⟩
    rw [packedImage, store_outside (by omega), store_outside (by omega)]

/-- A processor at the kernel's entry, with a stack below 2 GiB. -/
def packedBoot : Processor where
  machine := { cpu := ⟨fun _ => 0x7f000000, 0, 2, 0x38, 0x30, 0⟩, mem := packedImage }
  gdtr := { limit := 0, base := 0 }
  idtr := { limit := 0, base := 0 }
  data _ := 0x30

theorem packedBoot_stack : BootStack packedDescriptors packedBoot where
  room := by decide
  gdtOff := .inl (by decide)
  idtOff := .inl (by decide)
  tablesOff x hx hslot := by
    have hin := packedVars.inKernel_bytes hx
    have hptr : (packedBoot.machine.cpu.gpr .rsp).toNat = 0x7f000000 := by decide
    rw [farReturn, hptr] at hslot
    have hhi : x < 0x7f000000 := hslot.2
    omega

/-- The stubs one after the other. -/
def packedStubs : StubAddresses := ⟨0x100001000, 0x100001100, 0x100001200⟩

theorem packedStubs_canonical (c : Cause) : Canonical (packedStubs.entry c).toNat := by
  cases c with
  | timer => exact Or.inl (by decide)
  | syscall => exact Or.inl (by decide)
  | pageFault addr =>
      have hentry : (packedStubs.entry (.pageFault addr)).toNat = 0x100001200 := rfl
      rw [hentry]
      exact Or.inl (by decide)

theorem vectors_find_handlers_packed :
    ∃ p₁ vm, initSegmentation packedDescriptors 0x100002000 packedBoot = some p₁
      ∧ initVirtualMemory packedLayout p₁.machine.mem p₁.machine.cpu.cr3.toNat = .ok vm
      ∧ let p₂ := initIntr packedDescriptors packedStubs
          { p₁ with machine := { p₁.machine with mem := vm.mem } }
        Enabled p₂.machine
        ∧ (∀ s, s.cpu.cs = kernelCs → OnTask packedLayout s →
            Set.EqOn s.mem p₂.machine.mem packedDescriptors.bytes →
            Dispatches packedVars packedStubs { p₂ with machine := s })
        ∧ TimerVectored :=
  vectors_find_handlers packedVars packedDescriptors packedStubs
    packedStubs_canonical 0x100002000 packedBoot packedImage_loaded
    packedBoot_stack

end Kernel
end SysproKernel

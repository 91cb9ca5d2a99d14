import Mathlib.Data.Nat.Bitwise
import Mathlib.Tactic.Ring
import SysproKernel.Lib.X86

/-!
# `Lib.Gates` — segments and interrupt gates of a 64-bit x86 processor

How a vector becomes an instruction address: `raise` looks the vector up in the table behind IDTR, checks
the gate and the code segment behind GDTR, pushes the frame and enters the handler. What cannot be
delivered raises an exception of its own, up to the double fault and the shutdown of the processor. All
code runs in ring 0, so no gate changes the stack for a change of ring.

The tables lie in memory and are read through the address translation in force at the time.
-/

namespace Lib.X86

open Lib.ByteMem

/-! ## Bit-fields -/

/-- The `width` bits of a word from bit `lo` on. -/
structure BitField where
  lo : Nat
  width : Nat

namespace BitField

def get (f : BitField) (w : Nat) : Nat := w / 2 ^ f.lo % 2 ^ f.width

/-- The word with `x` in the bit-field. -/
def set (f : BitField) (w x : Nat) : Nat :=
  w % 2 ^ f.lo + 2 ^ f.lo * (x % 2 ^ f.width + 2 ^ f.width * (w / 2 ^ (f.lo + f.width)))

/-- A bit-field of a number in memory lies in a part of its bytes. -/
theorem get_load {f : BitField} {m : Mem} {a k i n : Nat} (hlo : 8 * i ≤ f.lo)
    (hhi : f.lo + f.width ≤ 8 * (i + n)) (hk : i + n ≤ k) :
    f.get (load m a k) = get ⟨f.lo - 8 * i, f.width⟩ (load m (a + i) n) := by
  have hpow : ∀ j, 256 ^ j = 2 ^ (8 * j) := fun j => (Nat.pow_mul 2 8 j).symm
  have hsplit : load m a k = 2 ^ (8 * i) * (2 ^ (8 * n) * load m (a + i + n) (k - (i + n))
      + load m (a + i) n) + load m a i := by
    conv_lhs => rw [← Nat.add_sub_cancel' hk]
    rw [load_add, load_add, hpow, hpow, Nat.mul_add 8 i n, Nat.pow_add, ← Nat.add_assoc a]
    ring
  have hlow : load m a i < 2 ^ (8 * i) := hpow i ▸ load_lt m a i
  have hmid : load m (a + i) n < 2 ^ (8 * n) := hpow n ▸ load_lt m (a + i) n
  apply Nat.eq_of_testBit_eq
  intro j
  simp only [get, Nat.testBit_mod_two_pow, Nat.testBit_div_two_pow]
  by_cases hj : j < f.width
  · rw [hsplit, Nat.testBit_two_pow_mul_add _ hlow, if_neg (by omega),
      Nat.testBit_two_pow_mul_add _ hmid, if_pos (by omega)]
    congr 2
    omega
  · simp [hj]

end BitField

/-! ## Descriptor tables -/

/-- What `lgdt` and `lidt` load. -/
structure TableRegister where
  limit : UInt16
  base : UInt64

inductive DataSeg where
  | ds | es | fs | gs
  deriving DecidableEq

/-- The machine with the registers that only the system code of a boot touches. -/
structure Processor where
  machine : Machine
  gdtr : TableRegister
  idtr : TableRegister
  data : DataSeg → UInt16

/-! The vectors of the exceptions that a delivery can raise. -/

def doubleFault : Nat := 8
def segmentNotPresent : Nat := 11
def stackFault : Nat := 12
def generalProtection : Nat := 13
def pageFault : Nat := 14

/-! The fields of a segment descriptor. -/

def accessed : BitField := ⟨40, 1⟩
def readable : BitField := ⟨41, 1⟩
def conforming : BitField := ⟨42, 1⟩
def executable : BitField := ⟨43, 1⟩
def codeOrData : BitField := ⟨44, 1⟩
def segmentDpl : BitField := ⟨45, 2⟩
def segmentPresent : BitField := ⟨47, 1⟩
def longMode : BitField := ⟨53, 1⟩
def default32 : BitField := ⟨54, 1⟩

/-- A 64-bit code segment of ring 0. -/
def isCode (d : Nat) : Bool :=
  codeOrData.get d == 1 && executable.get d == 1 && conforming.get d == 0 && segmentDpl.get d == 0
    && longMode.get d == 1 && default32.get d == 0

/-- A segment that a selector of privilege `rpl` may load into `ds`, `es`, `fs` or `gs`. -/
def isData (rpl d : Nat) : Bool :=
  codeOrData.get d == 1 && (executable.get d == 0 || readable.get d == 1)
    && (rpl ≤ segmentDpl.get d || executable.get d == 1 && conforming.get d == 1)

/-- A writable data segment of ring 0. In a data segment the bit of `readable` says writable. -/
def isStack (d : Nat) : Bool :=
  codeOrData.get d == 1 && executable.get d == 0 && readable.get d == 1 && segmentDpl.get d == 0

section Delivery

variable (tr : Mem → Nat → Nat → Option Nat)

/-- An access that may fail, and the exception it raises then. -/
def orFault {α : Type} (access : Option α) (fault : Nat) : Except Nat α := access.elim (.error fault) .ok

/-- The `n` bytes at offset `off` of a table, as a number. -/
def TableRegister.entry (r : TableRegister) (off n : Nat) (s : Machine) : Except Nat Nat :=
  if off + n ≤ r.limit.toNat + 1 then
    orFault (vload tr s.mem s.cpu.cr3.toNat (r.base.toNat + off) n) pageFault
  else .error generalProtection

/-- Look up the descriptor of a selector, check it and mark it as accessed. `absent` is the exception
    for a segment that is not present. -/
def TableRegister.segment (r : TableRegister) (absent : Nat) (check : Nat → Bool) (sel : UInt16)
    (s : Machine) : Except Nat Machine := do
  -- the null selector, and selectors of a local table
  if sel.toNat < 4 ∨ sel.toNat / 4 % 2 = 1 then throw generalProtection
  let off := sel.toNat / 8 * 8
  let d ← r.entry tr off 8 s
  if !check d then throw generalProtection
  if segmentPresent.get d = 0 then throw absent
  if accessed.get d = 1 then return s
  let m ← orFault (vstore tr s.mem s.cpu.cr3.toNat (r.base.toNat + off) 8 (accessed.set d 1)) pageFault
  return { s with mem := m }

/-! ## System instructions -/

def lgdt (r : TableRegister) (p : Processor) : Processor := { p with gdtr := r }

def lidt (r : TableRegister) (p : Processor) : Processor := { p with idtr := r }

/-- `mov sel, %ds` and its like. -/
def movSeg (r : DataSeg) (sel : UInt16) (p : Processor) : Option Processor := do
  let s ← if sel.toNat < 4 then some p.machine
    else (p.gdtr.segment tr segmentNotPresent (isData (sel.toNat % 4)) sel p.machine).toOption
  return { p with machine := s, data := Function.update p.data r sel }

/-- `mov sel, %ss`. -/
def movSs (sel : UInt16) (p : Processor) : Option Processor := do
  guard (sel.toNat % 4 = 0)
  let s ← (p.gdtr.segment tr stackFault isStack sel p.machine).toOption
  return { p with machine := { s with cpu := { s.cpu with ss := sel } } }

/-- `lretq` to the same ring: pop RIP and CS. -/
def lretq (p : Processor) : Option Processor := do
  let (rip, s) ← pop tr p.machine
  let (cs, s) ← pop tr s
  let sel := cs.toUInt16
  guard (sel.toNat % 4 = 0)
  let s ← (p.gdtr.segment tr segmentNotPresent isCode sel s).toOption
  return { p with machine := { s with cpu := { s.cpu with rip, cs := sel } } }

/-- `sti`. -/
def sti (p : Processor) : Processor :=
  { p with machine := { p.machine with
      cpu := { p.machine.cpu with rflags := p.machine.cpu.rflags ||| 0x200 } } }

/-! ## Interrupt gates -/

/-! The fields of a gate. -/

def gateOffsetLo : BitField := ⟨0, 16⟩
def gateSelector : BitField := ⟨16, 16⟩
def gateIst : BitField := ⟨32, 3⟩
def gateType : BitField := ⟨40, 4⟩
def gateZero : BitField := ⟨44, 1⟩
def gateDpl : BitField := ⟨45, 2⟩
def gatePresent : BitField := ⟨47, 1⟩
def gateOffsetMid : BitField := ⟨48, 16⟩
def gateOffsetHi : BitField := ⟨64, 32⟩

def interruptGate : Nat := 0xe
def trapGate : Nat := 0xf

/-- What asks for a vector. -/
inductive Origin where
  | external
  | software
  | exception
  deriving DecidableEq

structure Gate where
  offset : UInt64
  selector : UInt16
  ist : Nat
  /-- The flags that are cleared on entry. -/
  cleared : UInt64

/-- Decode a gate. A trap gate leaves IF as it is. -/
def Gate.decode (w : Nat) : Gate where
  offset := UInt64.ofNat (gateOffsetLo.get w + 2 ^ 16 * gateOffsetMid.get w + 2 ^ 32 * gateOffsetHi.get w)
  selector := UInt16.ofNat (gateSelector.get w)
  ist := gateIst.get w
  cleared := if gateType.get w = interruptGate then gateFlags else gateFlags &&& ~~~0x200

/-- The gate of a vector. -/
def TableRegister.gate (r : TableRegister) (origin : Origin) (v : Nat) (s : Machine) :
    Except Nat Gate := do
  let w ← r.entry tr (16 * v) 16 s
  if gateZero.get w = 1 ∨ (gateType.get w ≠ interruptGate ∧ gateType.get w ≠ trapGate) then
    throw generalProtection
  -- an `int` instruction needs the privilege of the gate
  if origin = .software ∧ gateDpl.get w < s.cpu.cs.toNat % 4 then throw generalProtection
  if gatePresent.get w = 0 then throw segmentNotPresent
  return .decode w

/-- Where the frame goes. `ist` is the interrupt stack table. -/
def Gate.top (g : Gate) (ist : Nat → UInt64) (sp : UInt64) : UInt64 :=
  align16 (if g.ist = 0 then sp else ist g.ist)

/-- Push the frame and enter the handler. -/
def Gate.enter (g : Gate) (ist : Nat → UInt64) (error : Option UInt64) (s : Machine) :
    Option Machine := do
  let c := s.cpu
  let s ← pushAll tr [c.ss.toUInt64, c.gpr .rsp, c.rflags, c.cs.toUInt64, c.rip]
    { s with cpu := c.set .rsp (g.top ist (c.gpr .rsp)) }
  let s ← pushAll tr error.toList s
  return { s with cpu := { s.cpu with
    rip := g.offset, cs := g.selector, rflags := c.rflags &&& ~~~g.cleared } }

/-- Try to deliver a vector; an error is the vector of the exception that this raises. -/
def Processor.attempt (p : Processor) (ist : Nat → UInt64) (origin : Origin) (v : Nat)
    (error : Option UInt64) : Except Nat Machine := do
  let g ← p.idtr.gate tr origin v p.machine
  let s ← p.gdtr.segment tr segmentNotPresent isCode g.selector p.machine
  if ¬ Canonical g.offset.toNat then throw generalProtection
  orFault (g.enter tr ist error s) pageFault

inductive Delivery where
  | entered (v : Nat) (s : Machine)
  /-- The processor stops, or resets. -/
  | shutdown

/-- The exceptions of which two in a row are a double fault. -/
def contributory (v : Nat) : Bool := v == 0 || 10 ≤ v && v ≤ 13

/-- An exception raised while another event is delivered makes a double fault of the two, or is delivered
    instead. -/
def escalate (origin : Origin) (v e : Nat) : Nat :=
  if origin = .exception ∧ (contributory v && contributory e
      || v == pageFault && (contributory e || e == pageFault)) then doubleFault
  else e

/-- Deliver a vector, or what becomes of it within `n` attempts. `codes` are the error codes that the
    processor pushes with the exceptions it raises itself. -/
def Processor.raiseWithin (p : Processor) (ist codes : Nat → UInt64) :
    Nat → Origin → Nat → Option UInt64 → Delivery
  | 0, _, _, _ => .shutdown
  | n + 1, origin, v, error =>
      match p.attempt tr ist origin v error with
      | .ok s => .entered v s
      | .error e =>
          if origin = .exception ∧ v = doubleFault then .shutdown
          else
            let e := escalate origin v e
            p.raiseWithin ist codes n .exception e (some (codes e))

/-- **Deliver a vector.** Four attempts are the most there can be: the event, a contributory exception, a
    page fault and the double fault. -/
def Processor.raise (p : Processor) (ist codes : Nat → UInt64) (origin : Origin) (v : Nat)
    (error : Option UInt64) : Delivery :=
  p.raiseWithin tr ist codes 4 origin v error

/-! ## What a delivery comes to -/

/-- The frame of an interrupt, with its error code. -/
def interruptFrame : Option UInt64 → Machine → Option Machine
  | none => interrupt tr
  | some e => interruptWithError tr e

/-- The machine at another place in the code. -/
def Machine.jump (s : Machine) (cs : UInt16) (rip : UInt64) : Machine :=
  { s with cpu := { s.cpu with rip, cs } }

theorem push_flags (w flags : UInt64) (s : Machine) :
    push tr w { s with cpu := { s.cpu with rflags := flags } } =
      (push tr w s).map fun s => { s with cpu := { s.cpu with rflags := flags } } := by
  show (vstore tr s.mem s.cpu.cr3.toNat (s.cpu.gpr .rsp - 8).toNat 8 w.toNat).bind _ =
    Option.map _ ((vstore tr s.mem s.cpu.cr3.toNat (s.cpu.gpr .rsp - 8).toNat 8 w.toNat).bind _)
  cases vstore tr s.mem s.cpu.cr3.toNat (s.cpu.gpr .rsp - 8).toNat 8 w.toNat <;> rfl

theorem push_jump (w : UInt64) (cs : UInt16) (rip : UInt64) (s : Machine) :
    push tr w (s.jump cs rip) = (push tr w s).map (·.jump cs rip) := by
  show (vstore tr s.mem s.cpu.cr3.toNat (s.cpu.gpr .rsp - 8).toNat 8 w.toNat).bind _ =
    Option.map _ ((vstore tr s.mem s.cpu.cr3.toNat (s.cpu.gpr .rsp - 8).toNat 8 w.toNat).bind _)
  cases vstore tr s.mem s.cpu.cr3.toNat (s.cpu.gpr .rsp - 8).toNat 8 w.toNat <;> rfl

theorem pop_jump (cs : UInt16) (rip : UInt64) (s : Machine) :
    pop tr (s.jump cs rip) = (pop tr s).map fun x => (x.1, x.2.jump cs rip) := by
  show (vload tr s.mem s.cpu.cr3.toNat (s.cpu.gpr .rsp).toNat 8).bind _ =
    Option.map _ ((vload tr s.mem s.cpu.cr3.toNat (s.cpu.gpr .rsp).toNat 8).bind _)
  cases vload tr s.mem s.cpu.cr3.toNat (s.cpu.gpr .rsp).toNat 8 <;> rfl

/-- Where the code lies is no matter to an instruction. -/
theorem exec_jump {callee : Machine → Option Machine} {cs : UInt16} {rip : UInt64}
    (hcallee : ∀ s, callee (s.jump cs rip) = (callee s).map (·.jump cs rip)) {i : Instr} (hi : i ≠ .iretq)
    (s : Machine) : exec tr callee (s.jump cs rip) i = (exec tr callee s i).map (·.jump cs rip) := by
  cases i with
  | push r => exact push_jump tr _ cs rip s
  | pop r =>
      show (pop tr (s.jump cs rip)).bind _ = Option.map _ ((pop tr s).bind _)
      rw [pop_jump]
      cases pop tr s <;> rfl
  | load disp base dst =>
      show (vload tr s.mem s.cpu.cr3.toNat (s.cpu.gpr base + disp).toNat 8).bind _ =
        Option.map _ ((vload tr s.mem s.cpu.cr3.toNat (s.cpu.gpr base + disp).toNat 8).bind _)
      cases vload tr s.mem s.cpu.cr3.toNat (s.cpu.gpr base + disp).toNat 8 <;> rfl
  | call => exact hcallee s
  | iretq => exact absurd rfl hi
  | mov src dst => rfl
  | movCr3 src => rfl
  | add imm dst => rfl

/-- `iretq` goes where the frame says. -/
theorem iretq_jump (cs : UInt16) (rip : UInt64) (s : Machine) :
    iretq tr (s.jump cs rip) = iretq tr s := by
  have hstep : ∀ (s : Machine) (f : UInt64 × Machine → Option Machine),
      (∀ x, f (x.1, x.2.jump cs rip) = f x) → (pop tr (s.jump cs rip)).bind f = (pop tr s).bind f := by
    intro s f hf
    rw [pop_jump, Option.bind_map]
    exact congrArg _ (funext hf)
  refine hstep s _ (fun ⟨_, s₁⟩ => ?_)
  refine hstep s₁ _ (fun ⟨_, s₂⟩ => ?_)
  refine hstep s₂ _ (fun ⟨_, s₃⟩ => ?_)
  refine hstep s₃ _ (fun ⟨_, s₄⟩ => ?_)
  exact hstep s₄ _ (fun _ => rfl)

/-- **A handler does the same wherever it lies.** -/
theorem run_jump {callee : Machine → Option Machine} {cs : UInt16} {rip : UInt64}
    (hcallee : ∀ s, callee (s.jump cs rip) = (callee s).map (·.jump cs rip)) {is : List Instr}
    (his : .iretq ∉ is) (s : Machine) :
    run tr callee (is ++ [.iretq]) (s.jump cs rip) = run tr callee (is ++ [.iretq]) s := by
  induction is generalizing s with
  | nil =>
      rw [List.nil_append, run, run, exec, exec, iretq_jump]
  | cons i is ih =>
      rw [List.mem_cons, not_or] at his
      rw [List.cons_append, run, run, exec_jump tr hcallee (Ne.symm his.1), Option.bind_map]
      exact congrArg _ (funext (ih his.2))

variable {tr} {r : TableRegister} {s s' : Machine} {p : Processor} {ist codes : Nat → UInt64}
  {origin : Origin} {v : Nat} {error : Option UInt64}

theorem TableRegister.entry_ok {off n a : Nat} (hlimit : off + n ≤ r.limit.toNat + 1)
    (hmaps : Maps tr s.mem s.cpu.cr3.toNat (r.base.toNat + off) a n) :
    r.entry tr off n s = .ok (load s.mem a n) := by
  rw [entry, if_pos hlimit, vload_eq hmaps]
  rfl

theorem TableRegister.entry_beyond {off n : Nat} (hlimit : r.limit.toNat + 1 < off + n) :
    r.entry tr off n s = .error generalProtection := by
  rw [entry, if_neg (by omega)]

/-- A selector of the global table, and the descriptor it selects. -/
structure TableRegister.Selects (r : TableRegister) (tr : Mem → Nat → Nat → Option Nat) (sel : UInt16)
    (s : Machine) (d : Nat) : Prop where
  notNull : 4 ≤ sel.toNat
  global : sel.toNat / 4 % 2 ≠ 1
  entry : r.entry tr (sel.toNat / 8 * 8) 8 s = .ok d
  present : segmentPresent.get d ≠ 0

theorem TableRegister.segment_accessed {absent d : Nat} {check : Nat → Bool} {sel : UInt16}
    (h : r.Selects tr sel s d) (hcheck : check d = true) (haccessed : accessed.get d = 1) :
    r.segment tr absent check sel s = .ok s := by
  have hsel : ¬ (sel.toNat < 4 ∨ sel.toNat / 4 % 2 = 1) := by
    have hnull := h.notNull
    have hglobal := h.global
    omega
  simp only [segment, hsel, h.entry, hcheck, h.present, haccessed, bind, Except.bind, pure, Except.pure,
    Bool.not_true, Bool.false_eq_true, if_true, if_false]

theorem TableRegister.segment_mark {absent d a : Nat} {check : Nat → Bool} {sel : UInt16}
    (h : r.Selects tr sel s d) (hcheck : check d = true) (haccessed : accessed.get d ≠ 1)
    (hmaps : Maps tr s.mem s.cpu.cr3.toNat (r.base.toNat + sel.toNat / 8 * 8) a 8) :
    r.segment tr absent check sel s = .ok { s with mem := store s.mem a 8 (accessed.set d 1) } := by
  have hsel : ¬ (sel.toNat < 4 ∨ sel.toNat / 4 % 2 = 1) := by
    have hnull := h.notNull
    have hglobal := h.global
    omega
  simp only [segment, hsel, h.entry, hcheck, h.present, haccessed, bind, Except.bind, pure, Except.pure,
    Bool.not_true, Bool.false_eq_true, if_false, vstore_eq hmaps, orFault, Option.elim]

/-- Loading a data segment that is marked as accessed changes nothing but the register. -/
theorem movSeg_accessed {q : DataSeg} {sel : UInt16} {d : Nat} (h : p.gdtr.Selects tr sel p.machine d)
    (hcheck : isData (sel.toNat % 4) d = true) (haccessed : accessed.get d = 1) :
    movSeg tr q sel p = some { p with data := Function.update p.data q sel } := by
  have hnull : ¬ sel.toNat < 4 := by
    have hle := h.notNull
    omega
  rw [movSeg, if_neg hnull, TableRegister.segment_accessed h hcheck haccessed]
  rfl

theorem movSs_accessed {sel : UInt16} {d : Nat} (h : p.gdtr.Selects tr sel p.machine d)
    (hring : sel.toNat % 4 = 0) (hcheck : isStack d = true) (haccessed : accessed.get d = 1) :
    movSs tr sel p =
      some { p with machine := { p.machine with cpu := { p.machine.cpu with ss := sel } } } := by
  rw [movSs, TableRegister.segment_accessed h hcheck haccessed]
  simp only [guard, if_pos hring]
  rfl

/-- A present interrupt gate passes for code of ring 0. -/
theorem TableRegister.gate_ok {w : Nat} (hentry : r.entry tr (16 * v) 16 s = .ok w)
    (hzero : gateZero.get w = 0) (htype : gateType.get w = interruptGate) (hpresent : gatePresent.get w = 1)
    (hring : s.cpu.cs.toNat % 4 = 0) : r.gate tr origin v s = .ok (.decode w) := by
  have hkind : ¬ (gateZero.get w = 1 ∨ gateType.get w ≠ interruptGate ∧ gateType.get w ≠ trapGate) := by
    rw [hzero, htype]
    decide
  have hprivilege : ¬ (origin = .software ∧ gateDpl.get w < s.cpu.cs.toNat % 4) := by
    rw [hring]
    exact fun h => Nat.not_lt_zero _ h.2
  have hthere : ¬ gatePresent.get w = 0 := by omega
  simp only [gate, hentry, bind, Except.bind, pure, Except.pure, if_neg hkind, if_neg hprivilege,
    if_neg hthere]

/-- A descriptor of zeros is no gate. -/
theorem TableRegister.gate_zero (hentry : r.entry tr (16 * v) 16 s = .ok 0) :
    r.gate tr origin v s = .error generalProtection := by
  have hkind : gateZero.get 0 = 1 ∨ gateType.get 0 ≠ interruptGate ∧ gateType.get 0 ≠ trapGate := by decide
  simp only [gate, hentry, bind, Except.bind, if_pos hkind]
  rfl

/-- **An interrupt gate without a stack of its own** pushes the frame on the interrupted stack. -/
theorem Gate.enter_interrupt {g : Gate} (hist : g.ist = 0) (hcleared : g.cleared = gateFlags) :
    g.enter tr ist error s =
      (interruptFrame tr error s).map fun s => s.jump g.selector g.offset := by
  have htop : g.top ist (s.cpu.gpr .rsp) = align16 (s.cpu.gpr .rsp) := by rw [Gate.top, if_pos hist]
  -- what both sides push first
  let frame := pushAll tr
    [s.cpu.ss.toUInt64, s.cpu.gpr .rsp, s.cpu.rflags, s.cpu.cs.toUInt64, s.cpu.rip]
    { s with cpu := s.cpu.set .rsp (align16 (s.cpu.gpr .rsp)) }
  have hinterrupt : interrupt tr s = frame.map fun s₁ =>
      { s₁ with cpu := { s₁.cpu with rflags := s.cpu.rflags &&& ~~~gateFlags } } := by
    show frame.bind _ = _
    cases frame <;> rfl
  have henter : g.enter tr ist error s = (frame.bind (pushAll tr error.toList)).map fun s₁ =>
      { s₁ with cpu := { s₁.cpu with
        rip := g.offset, cs := g.selector, rflags := s.cpu.rflags &&& ~~~gateFlags } } := by
    simp only [Gate.enter, htop, hcleared]
    show frame.bind _ = _
    cases frame with
    | none => rfl
    | some s₁ =>
        show (pushAll tr error.toList s₁).bind _ = (pushAll tr error.toList s₁).map _
        cases pushAll tr error.toList s₁ <;> rfl
  rw [henter]
  cases error with
  | none =>
      rw [interruptFrame, hinterrupt]
      cases frame <;> rfl
  | some e =>
      rw [interruptFrame, interruptWithError, hinterrupt]
      cases frame with
      | none => rfl
      | some s₁ =>
          have hflags := push_flags tr e (s.cpu.rflags &&& ~~~gateFlags) s₁
          refine Eq.trans ?_ (congrArg (Option.map _) hflags.symm)
          show ((push tr e s₁).bind some).map _ = _
          cases push tr e s₁ <;> rfl

/-- **A delivery that succeeds.** -/
theorem Processor.raise_entered (h : p.attempt tr ist origin v error = .ok s') :
    p.raise tr ist codes origin v error = .entered v s' := by
  rw [raise, raiseWithin, h]

/-- **No gate, and none for the exceptions that follow**: the processor shuts down. -/
theorem Processor.raise_shutdown
    (h : ∀ u ∈ [v, generalProtection, doubleFault], ∀ origin error,
      p.attempt tr ist origin u error = .error generalProtection) :
    p.raise tr ist codes origin v error = .shutdown := by
  have hdouble : ∀ n error, p.raiseWithin tr ist codes n .exception doubleFault error = .shutdown := by
    intro n error
    cases n with
    | zero => rfl
    | succ n => rw [raiseWithin, h doubleFault (by simp)]; rfl
  have hprotection : ∀ n error,
      p.raiseWithin tr ist codes n .exception generalProtection error = .shutdown := by
    intro n error
    cases n with
    | zero => rfl
    | succ n =>
        rw [raiseWithin, h generalProtection (by simp)]
        exact hdouble ..
  have hescalate : escalate origin v generalProtection = doubleFault
      ∨ escalate origin v generalProtection = generalProtection := by
    unfold escalate
    split <;> simp
  rw [raise, raiseWithin, h v (by simp)]
  dsimp only
  split
  · rfl
  · rcases hescalate with hnext | hnext <;> rw [hnext]
    · exact hdouble ..
    · exact hprotection ..

end Delivery

end Lib.X86

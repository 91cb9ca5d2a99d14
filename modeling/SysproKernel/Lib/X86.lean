import Mathlib.Data.List.Nodup
import SysproKernel.Lib.ByteMem

/-!
# `Lib.X86` — the part of a 64-bit x86 processor an interrupt gate runs on

Registers, memory reached through an address translation `tr` (of a memory, a `cr3` and a virtual
address), the stack instructions, the same-privilege interrupt and `iretq`. `none` is a fault. A
`Stack` is a virtual interval that the translation maps linearly however the interval's own bytes
change; on it the stack instructions are physical loads and stores (`push_spec`, `pop_spec`).

The results are the two halves of a context switch: `suspend_spec` (interrupt, then push the general
registers) leaves a frame that decodes to the interrupted registers, and `resume_spec` (pop them, then
`iretq`) loads exactly the registers the frame decodes to.
-/

namespace Lib.X86

open Lib.ByteMem

/-! ## State -/

inductive Reg where
  | rax | rbx | rcx | rdx | rdi | rsi | rbp | rsp
  | r8 | r9 | r10 | r11 | r12 | r13 | r14 | r15
  deriving DecidableEq, Repr

/-- The registers a context switch has to save. -/
@[ext] structure Cpu where
  gpr : Reg → UInt64
  rip : UInt64
  rflags : UInt64
  cs : UInt16
  ss : UInt16
  cr3 : UInt64

structure Machine where
  cpu : Cpu
  mem : Mem

/-- Load a general register. -/
def Cpu.set (c : Cpu) (r : Reg) (v : UInt64) : Cpu := { c with gpr := Function.update c.gpr r v }

/-- The 64-bit word at a physical address. -/
def word (m : Mem) (a : Nat) : UInt64 := UInt64.ofNat (load m a 8)

theorem toNat_word (m : Mem) (a : Nat) : (word m a).toNat = load m a 8 := by
  have h : load m a 8 < 2 ^ 64 := load_lt m a 8
  rw [word, UInt64.toNat_ofNat', Nat.mod_eq_of_lt h]

theorem word_eq {m : Mem} {a : Nat} {v : UInt64} (h : load m a 8 = v.toNat) : word m a = v := by
  rw [word, h, UInt64.ofNat_toNat]

theorem word_store_self (m : Mem) (a : Nat) (v : UInt64) : word (store m a 8 v.toNat) a = v := by
  apply word_eq
  rw [load_store_self]
  exact Nat.mod_eq_of_lt v.toNat_lt

theorem word_congr {m m' : Mem} {a : Nat} (h : Set.EqOn m m' (Set.Ico a (a + 8))) :
    word m a = word m' a := by
  rw [word, load_congr h, word]

/-! ## Virtual memory -/

/-- Bits 63:47 of the address are equal. -/
def Canonical (v : Nat) : Prop := v < 2 ^ 47 ∨ 2 ^ 64 - 2 ^ 47 ≤ v

instance (v : Nat) : Decidable (Canonical v) := inferInstanceAs (Decidable (_ ∨ _))

section Translation

variable (tr : Mem → Nat → Nat → Option Nat)

/-- The `n` bytes from virtual address `v`. -/
def vread (m : Mem) (cr3 v : Nat) : Nat → Option (List UInt8)
  | 0 => some []
  | n + 1 => do
      let p ← tr m cr3 v
      let bs ← vread m cr3 (v + 1) n
      return m p :: bs

/-- Write bytes from virtual address `v`, translated by the tables as they are in `tables`. -/
def vwrite (tables : Mem) (cr3 v : Nat) : List UInt8 → Mem → Option Mem
  | [], m => some m
  | b :: bs, m => do
      let p ← tr tables cr3 v
      vwrite tables cr3 (v + 1) bs (Function.update m p b)

/-- The `n`-byte little-endian number at virtual address `v`. -/
def vload (m : Mem) (cr3 v n : Nat) : Option Nat := (vread tr m cr3 v n).map leNat

/-- Store the `n` low bytes of `x` at virtual address `v`. -/
def vstore (m : Mem) (cr3 v n x : Nat) : Option Mem := vwrite tr m cr3 v (leBytes n x) m

/-- The virtual interval `[v, v + n)` is mapped linearly onto `[p, p + n)`. -/
def Maps (m : Mem) (cr3 v p n : Nat) : Prop := ∀ i < n, tr m cr3 (v + i) = some (p + i)

variable {tr} {m tables : Mem} {cr3 v p n k : Nat}

theorem Maps.tail (h : Maps tr m cr3 v p (n + 1)) : Maps tr m cr3 (v + 1) (p + 1) n := by
  intro i hi
  rw [Nat.add_right_comm v, Nat.add_right_comm p]
  exact h (i + 1) (by omega)

theorem Maps.part (h : Maps tr m cr3 v p n) (hk : k + i ≤ n) : Maps tr m cr3 (v + k) (p + k) i := by
  intro j hj
  rw [Nat.add_assoc, Nat.add_assoc]
  exact h (k + j) (by omega)

theorem vread_eq (h : Maps tr m cr3 v p n) : vread tr m cr3 v n = some (readBytes m p n) := by
  induction n generalizing v p with
  | zero => rfl
  | succ n ih =>
      have hhead : tr m cr3 v = some p := h 0 (Nat.succ_pos n)
      simp only [vread, hhead, ih h.tail]
      rfl

theorem vwrite_eq {bs : List UInt8} (h : Maps tr tables cr3 v p bs.length) :
    vwrite tr tables cr3 v bs m = some (writeBytes m p bs) := by
  induction bs generalizing v p m with
  | nil => rfl
  | cons b bs ih =>
      have hhead : tr tables cr3 v = some p := h 0 (Nat.succ_pos _)
      simp only [vwrite, hhead]
      exact ih h.tail

theorem vload_eq (h : Maps tr m cr3 v p n) : vload tr m cr3 v n = some (load m p n) := by
  rw [vload, vread_eq h, Option.map_some, load]

theorem vstore_eq {x : Nat} (h : Maps tr m cr3 v p n) :
    vstore tr m cr3 v n x = some (store m p n x) := by
  apply vwrite_eq
  rwa [leBytes_length]

/-- What has been read was mapped. -/
theorem translated_of_vread {bs : List UInt8} (h : vread tr m cr3 v n = some bs) {x : Nat} (hlo : v ≤ x)
    (hhi : x < v + n) : tr m cr3 x ≠ none := by
  induction n generalizing v bs with
  | zero => omega
  | succ n ih =>
      obtain ⟨p, hp, h⟩ := Option.bind_eq_some_iff.mp h
      obtain ⟨bs', hrest, -⟩ := Option.bind_eq_some_iff.mp h
      by_cases hx : x = v
      · rw [hx, hp]
        exact Option.some_ne_none p
      · exact ih hrest (by omega) (by omega)

theorem translated_of_vload {w : Nat} (h : vload tr m cr3 v n = some w) {x : Nat} (hlo : v ≤ x)
    (hhi : x < v + n) : tr m cr3 x ≠ none := by
  obtain ⟨bs, hread, -⟩ := Option.map_eq_some_iff.mp h
  exact translated_of_vread hread hlo hhi

/-- What has been written was mapped. -/
theorem translated_of_vwrite {bs : List UInt8} {m' : Mem} (h : vwrite tr tables cr3 v bs m = some m')
    {x : Nat} (hlo : v ≤ x) (hhi : x < v + bs.length) : tr tables cr3 x ≠ none := by
  induction bs generalizing v m with
  | nil =>
      rw [List.length_nil] at hhi
      omega
  | cons b bs ih =>
      rw [List.length_cons] at hhi
      obtain ⟨p, hp, hrest⟩ := Option.bind_eq_some_iff.mp h
      by_cases hx : x = v
      · rw [hx, hp]
        exact Option.some_ne_none p
      · exact ih hrest (by omega) (by omega)

end Translation

/-! ## Instructions -/

section Instructions

variable (tr : Mem → Nat → Nat → Option Nat)

/-- `rsp -= 8; *rsp = w`. -/
def push (w : UInt64) (s : Machine) : Option Machine := do
  let sp := s.cpu.gpr .rsp - 8
  let m ← vstore tr s.mem s.cpu.cr3.toNat sp.toNat 8 w.toNat
  return { cpu := s.cpu.set .rsp sp, mem := m }

/-- Push the words, the first one first. -/
def pushAll : List UInt64 → Machine → Option Machine
  | [], s => some s
  | w :: ws, s => (push tr w s).bind (pushAll ws)

/-- `w = *rsp; rsp += 8`. -/
def pop (s : Machine) : Option (UInt64 × Machine) := do
  let w ← vload tr s.mem s.cpu.cr3.toNat (s.cpu.gpr .rsp).toNat 8
  return (UInt64.ofNat w, { s with cpu := s.cpu.set .rsp (s.cpu.gpr .rsp + 8) })

/-- The flags an interrupt gate clears: TF, IF, NT and RF. -/
def gateFlags : UInt64 := 0x14300

/-- The stack pointer aligned down to 16. -/
def align16 (sp : UInt64) : UInt64 := sp - sp % 16

theorem align16_le (sp : UInt64) : (align16 sp).toNat ≤ sp.toNat := by
  have hmod : (sp % 16).toNat ≤ sp.toNat := by
    rw [UInt64.toNat_mod]
    exact Nat.mod_le ..
  rw [align16, UInt64.toNat_sub_of_le _ _ hmod]
  exact Nat.sub_le ..

theorem lt_align16 (sp : UInt64) : sp.toNat < (align16 sp).toNat + 16 := by
  have hmod : (sp % 16).toNat ≤ sp.toNat := by
    rw [UInt64.toNat_mod]
    exact Nat.mod_le ..
  have hlt : (sp % 16).toNat < 16 := by
    rw [UInt64.toNat_mod]
    exact Nat.mod_lt _ (by decide)
  rw [align16, UInt64.toNat_sub_of_le _ _ hmod]
  omega

/-- **A same-privilege interrupt**: align the stack, push SS, RSP, RFLAGS, CS and RIP, mask interrupts. -/
def interrupt (s : Machine) : Option Machine := do
  let c := s.cpu
  let s ← pushAll tr [c.ss.toUInt64, c.gpr .rsp, c.rflags, c.cs.toUInt64, c.rip]
    { s with cpu := c.set .rsp (align16 (c.gpr .rsp)) }
  return { s with cpu := { s.cpu with rflags := c.rflags &&& ~~~gateFlags } }

/-- An exception that pushes an error code on top of its frame. -/
def interruptWithError (error : UInt64) (s : Machine) : Option Machine :=
  (interrupt tr s).bind (push tr error)

/-- **`iretq`**: pop RIP, CS, RFLAGS, RSP and SS; a selector is the low half-word of its slot. -/
def iretq (s : Machine) : Option Machine := do
  let (rip, s) ← pop tr s
  let (cs, s) ← pop tr s
  let (rflags, s) ← pop tr s
  let (rsp, s) ← pop tr s
  let (ss, s) ← pop tr s
  return { s with cpu := { s.cpu.set .rsp rsp with rip, rflags, cs := cs.toUInt16, ss := ss.toUInt16 } }

/-- The flags after `a + b`: CF, PF, AF, ZF, SF and OF are set by the sum. -/
def addFlags (flags a b : UInt64) : UInt64 :=
  let r := a + b
  let bit (c : Bool) (w : UInt64) : UInt64 := if c then w else 0
  let parity := (List.range 8).countP (fun i => r.toNat.testBit i)
  flags &&& ~~~0x8D5 ||| bit (r < a) 0x1 ||| bit (parity % 2 = 0) 0x4 |||
    bit (((a ^^^ b ^^^ r) &&& 0x10) != 0) 0x10 ||| bit (r == 0) 0x40 |||
    bit (r >>> 63 == 1) 0x80 ||| bit (((a ^^^ r) &&& (b ^^^ r)) >>> 63 == 1) 0x800

/-- The instructions of an interrupt handler. -/
inductive Instr where
  | push (r : Reg)
  | pop (r : Reg)
  | mov (src dst : Reg)
  | load (disp : UInt64) (base dst : Reg)
  | movCr3 (src : Reg)
  | add (imm : UInt64) (dst : Reg)
  | call
  | iretq
  deriving DecidableEq, Repr

/-- Execute an instruction; `callee` is what the handler's `call` does. -/
def exec (callee : Machine → Option Machine) (s : Machine) : Instr → Option Machine
  | .push r => push tr (s.cpu.gpr r) s
  | .pop r => do
      let (w, s) ← pop tr s
      return { s with cpu := s.cpu.set r w }
  | .mov src dst => some { s with cpu := s.cpu.set dst (s.cpu.gpr src) }
  | .load disp base dst => do
      let w ← vload tr s.mem s.cpu.cr3.toNat (s.cpu.gpr base + disp).toNat 8
      return { s with cpu := s.cpu.set dst (UInt64.ofNat w) }
  | .movCr3 src => some { s with cpu := { s.cpu with cr3 := s.cpu.gpr src } }
  | .add imm dst => some { s with cpu :=
      { s.cpu.set dst (s.cpu.gpr dst + imm) with
        rflags := addFlags s.cpu.rflags (s.cpu.gpr dst) imm } }
  | .call => callee s
  | .iretq => iretq tr s

/-- Execute a sequence of instructions. -/
def run (callee : Machine → Option Machine) : List Instr → Machine → Option Machine
  | [], s => some s
  | i :: is, s => (exec tr callee s i).bind (run callee is)

variable {tr} {callee : Machine → Option Machine}

theorem run_append (is js : List Instr) (s : Machine) :
    run tr callee (is ++ js) s = (run tr callee is s).bind (run tr callee js) := by
  induction is generalizing s with
  | nil => rfl
  | cons i is ih =>
      rw [List.cons_append, run, run, Option.bind_assoc]
      exact congrArg _ (funext ih)

/-- Pushing registers other than the stack pointer pushes the values they have at the start. -/
theorem run_push {rs : List Reg} (hsp : .rsp ∉ rs) (s : Machine) :
    run tr callee (rs.map .push) s = pushAll tr (rs.map s.cpu.gpr) s := by
  induction rs generalizing s with
  | nil => rfl
  | cons r rs ih =>
      rw [List.mem_cons, not_or] at hsp
      rw [List.map_cons, List.map_cons, run, pushAll, exec]
      cases hpush : push tr (s.cpu.gpr r) s with
      | none => rfl
      | some s₁ =>
          rw [Option.bind_some, Option.bind_some, ih hsp.2]
          congr 1
          apply List.map_congr_left
          intro q hq
          have hne : q ≠ .rsp := fun h => hsp.2 (h ▸ hq)
          obtain ⟨m, -, hs⟩ := Option.bind_eq_some_iff.mp hpush
          rw [← Option.some.inj hs]
          exact Function.update_of_ne hne ..

end Instructions

/-! ## Stacks -/

/-- The addresses outside `[a, a + n)`. -/
def outside (a n : Nat) : Set Nat := {x | x < a ∨ a + n ≤ x}

theorem outside_mono {a b n k : Nat} (hlo : a ≤ b) (hhi : b + k ≤ a + n) :
    outside a n ⊆ outside b k := by
  intro x hx
  have hx' : x < a ∨ a + n ≤ x := hx
  show x < b ∨ b + k ≤ x
  omega

/-- A stack area: a virtual interval mapped linearly, whatever its own bytes become. -/
structure Stack (tr : Mem → Nat → Nat → Option Nat) (cr3 : Nat) (Ok : Mem → Prop) where
  vbase : Nat
  pbase : Nat
  len : Nat
  below : vbase + len < 2 ^ 64
  maps : ∀ m, Ok m → Maps tr m cr3 vbase pbase len
  keeps : ∀ m m', Ok m → Set.EqOn m' m (outside pbase len) → Ok m'

section Stacks

variable {tr : Mem → Nat → Nat → Option Nat} {cr3 : Nat} {Ok : Mem → Prop}
  {callee : Machine → Option Machine} {s : Machine} {m : Mem} {k : Nat}

@[simp] theorem Cpu.set_set (c : Cpu) (r : Reg) (v w : UInt64) : (c.set r v).set r w = c.set r w := by
  unfold Cpu.set
  simp

theorem Cpu.set_self (c : Cpu) (r : Reg) : c.set r (c.gpr r) = c := by
  unfold Cpu.set
  simp

@[simp] theorem Cpu.set_cr3 (c : Cpu) (r : Reg) (v : UInt64) : (c.set r v).cr3 = c.cr3 := rfl

@[simp] theorem Cpu.set_gpr_self (c : Cpu) (r : Reg) (v : UInt64) : (c.set r v).gpr r = v :=
  Function.update_self ..

theorem Cpu.set_gpr_ne (c : Cpu) {r q : Reg} (h : q ≠ r) (v : UInt64) :
    (c.set r v).gpr q = c.gpr q :=
  Function.update_of_ne h ..

namespace Stack

variable (S : Stack tr cr3 Ok)

/-- The stack pointer `k` bytes above the bottom of the area. -/
def ptr (k : Nat) : UInt64 := UInt64.ofNat (S.vbase + k)

/-- The machine runs on the stack, with its pointer `k` bytes above the bottom. -/
structure At (s : Machine) (k : Nat) : Prop where
  root : s.cpu.cr3.toNat = cr3
  ok : Ok s.mem
  sp : s.cpu.gpr .rsp = S.ptr k
  le : k ≤ S.len

variable {S}

theorem ptr_toNat (h : k ≤ S.len) : (S.ptr k).toNat = S.vbase + k := by
  have hbelow := S.below
  rw [ptr, UInt64.toNat_ofNat', Nat.mod_eq_of_lt (by omega)]

theorem ptr_sub (h : k + 8 ≤ S.len) : S.ptr (k + 8) - 8 = S.ptr k := by
  have hbelow := S.below
  apply UInt64.toNat_inj.mp
  rw [UInt64.toNat_sub, ptr_toNat h, ptr_toNat (by omega), show (8 : UInt64).toNat = 8 from rfl]
  omega

theorem ptr_add (h : k + 8 ≤ S.len) : S.ptr k + 8 = S.ptr (k + 8) := by
  have hbelow := S.below
  apply UInt64.toNat_inj.mp
  rw [UInt64.toNat_add, ptr_toNat h, ptr_toNat (by omega), show (8 : UInt64).toNat = 8 from rfl]
  omega

/-- Moving the pointer and changing bytes of the area stays on the stack. -/
theorem At.move {k' : Nat} (h : S.At s k) (hle : k' ≤ S.len)
    (hm : Set.EqOn m s.mem (outside S.pbase S.len)) :
    S.At { cpu := s.cpu.set .rsp (S.ptr k'), mem := m } k' where
  root := h.root
  ok := S.keeps s.mem m h.ok hm
  sp := Cpu.set_gpr_self ..
  le := hle

theorem At.mapped {i n : Nat} (h : S.At s k) (hn : i + n ≤ S.len) :
    Maps tr s.mem s.cpu.cr3.toNat (S.vbase + i) (S.pbase + i) n := by
  rw [h.root]
  exact (S.maps s.mem h.ok).part hn

theorem push_spec (h : S.At s (k + 8)) (w : UInt64) :
    push tr w s
      = some { cpu := s.cpu.set .rsp (S.ptr k), mem := store s.mem (S.pbase + k) 8 w.toNat } := by
  have hle := h.le
  simp only [push, h.sp, ptr_sub hle, ptr_toNat (show k ≤ S.len by omega), vstore_eq (h.mapped hle)]
  rfl

theorem pop_spec (h : S.At s k) (hle : k + 8 ≤ S.len) :
    pop tr s = some (word s.mem (S.pbase + k), { s with cpu := s.cpu.set .rsp (S.ptr (k + 8)) }) := by
  unfold pop
  rw [h.sp, ptr_add hle, ptr_toNat (by omega), vload_eq (h.mapped hle)]
  rfl

end Stack

/-! ## Frames -/

/-- Consecutive words in memory. -/
def Words (m : Mem) (a : Nat) (ws : List UInt64) : Prop :=
  ∀ i (h : i < ws.length), word m (a + 8 * i) = ws[i]

theorem Words.congr {m m' : Mem} {a : Nat} {ws : List UInt64} (h : Words m a ws)
    (heq : Set.EqOn m' m (Set.Ico a (a + 8 * ws.length))) : Words m' a ws := by
  intro i hi
  rw [← h i hi]
  exact word_congr (heq.mono (Set.Ico_subset_Ico (by omega) (by omega)))

theorem Words.append {m : Mem} {a : Nat} {ws vs : List UInt64} (h : Words m a ws)
    (h' : Words m (a + 8 * ws.length) vs) : Words m a (ws ++ vs) := by
  intro i hi
  by_cases hlt : i < ws.length
  · rw [h i hlt, List.getElem_append_left hlt]
  · rw [List.length_append] at hi
    have hrest := h' (i - ws.length) (by omega)
    rw [List.getElem_append_right (by omega), ← hrest]
    exact congrArg (word m) (by omega)

/-- The bytes of consecutive words. -/
def wordBytes (ws : List UInt64) : List UInt8 := ws.flatMap (fun w => leBytes 8 w.toNat)

/-- Words in memory are their bytes in memory. -/
theorem Words.bytes {m : Mem} {a : Nat} {ws : List UInt64} (h : Words m a ws) :
    readBytes m a (8 * ws.length) = wordBytes ws := by
  induction ws generalizing a with
  | nil => rfl
  | cons w ws ih =>
      have hhead : word m a = w := h 0 (Nat.succ_pos _)
      have hbytes : readBytes m a 8 = leBytes 8 w.toNat := by
        have hle := leBytes_leNat (readBytes m a 8)
        rw [readBytes_length] at hle
        rw [← hhead, toNat_word, load, hle]
      have htail : Words m (a + 8) ws := by
        intro i hi
        have hword := h (i + 1) (Nat.succ_lt_succ hi)
        rw [List.getElem_cons_succ] at hword
        rw [← hword]
        exact congrArg (word m) (by omega)
      have hsplit : 8 * (w :: ws).length = 8 + 8 * ws.length := by
        rw [List.length_cons]
        omega
      rw [hsplit, readBytes_add, hbytes, ih htail]
      rfl

/-- **Pushing words.** The last one pushed ends up lowest, and only their slots change. -/
theorem Stack.pushAll_spec {S : Stack tr cr3 Ok} (ws : List UInt64)
    (h : S.At s (k + 8 * ws.length)) :
    ∃ m, pushAll tr ws s = some { cpu := s.cpu.set .rsp (S.ptr k), mem := m }
      ∧ Words m (S.pbase + k) ws.reverse
      ∧ Set.EqOn m s.mem (outside (S.pbase + k) (8 * ws.length)) := by
  induction ws generalizing s with
  | nil =>
      refine ⟨s.mem, ?_, ?_, Set.eqOn_refl ..⟩
      · have hsp : s.cpu.gpr .rsp = S.ptr k := h.sp
        rw [← hsp, Cpu.set_self]
        rfl
      · intro i hi
        simp at hi
  | cons w ws ih =>
      rw [List.length_cons, Nat.mul_succ, ← Nat.add_assoc] at h
      have hle := h.le
      have hslot : Set.EqOn (store s.mem (S.pbase + (k + 8 * ws.length)) 8 w.toNat) s.mem
          (outside (S.pbase + (k + 8 * ws.length)) 8) := store_eqOn (fun x hx => hx)
      obtain ⟨m, hrun, hwords, hrest⟩ :=
        ih (h.move (by omega) (hslot.mono (outside_mono (by omega) (by omega))))
      refine ⟨m, ?_, ?_, ?_⟩
      · rw [pushAll, push_spec h, Option.bind_some, hrun, Cpu.set_set]
      · -- the slot of `w` lies above the words pushed after it
        intro i hi
        rw [List.length_reverse, List.length_cons] at hi
        by_cases htop : i = ws.length
        · subst htop
          have hkeep : word m (S.pbase + (k + 8 * ws.length)) = w := by
            rw [← word_store_self s.mem (S.pbase + (k + 8 * ws.length)) w]
            refine word_congr (hrest.mono ?_)
            intro x hx
            exact Or.inr (by have := hx.1; omega)
          rw [Nat.add_assoc, hkeep]
          simp
        · rw [hwords i (by rw [List.length_reverse]; omega)]
          simp only [List.reverse_cons]
          rw [List.getElem_append_left]
      · rw [List.length_cons]
        exact (hrest.mono (outside_mono (by omega) (by omega))).trans
          (hslot.mono (outside_mono (by omega) (by omega)))

/-- The registers that popping `rs` and then `iretq` load from the frame at physical address `p`. -/
def frameCpu (rs : List Reg) (m : Mem) (p : Nat) (cr3 : UInt64) : Cpu where
  gpr r := if r = .rsp then word m (p + 8 * rs.length + 24) else word m (p + 8 * rs.idxOf r)
  rip := word m (p + 8 * rs.length)
  cs := (word m (p + 8 * rs.length + 8)).toUInt16
  rflags := word m (p + 8 * rs.length + 16)
  ss := (word m (p + 8 * rs.length + 32)).toUInt16
  cr3 := cr3

/-- A frame depends only on its own bytes. -/
theorem frameCpu_congr {m m' : Mem} {p : Nat} {rs : List Reg} {c : UInt64}
    (hall : ∀ r, r ≠ .rsp → r ∈ rs)
    (h : Set.EqOn m' m (Set.Ico p (p + 8 * rs.length + 40))) :
    frameCpu rs m' p c = frameCpu rs m p c := by
  have hslot : ∀ a, p ≤ a → a + 8 ≤ p + 8 * rs.length + 40 → word m' a = word m a :=
    fun a hlo hhi => word_congr (h.mono (Set.Ico_subset_Ico hlo hhi))
  apply Cpu.ext
  · funext r
    by_cases hr : r = .rsp
    · simp only [frameCpu, if_pos hr]
      exact hslot _ (by omega) (by omega)
    · have hidx := List.idxOf_lt_length_of_mem (hall r hr)
      simp only [frameCpu, if_neg hr]
      exact hslot _ (by omega) (by omega)
  · exact hslot _ (by omega) (by omega)
  · exact hslot _ (by omega) (by omega)
  · exact congrArg UInt64.toUInt16 (hslot _ (by omega) (by omega))
  · exact congrArg UInt64.toUInt16 (hslot _ (by omega) (by omega))
  · rfl

/-- The registers a frame of known words decodes to. -/
theorem frameCpu_of_words {m : Mem} {p : Nat} {rs : List Reg} {c : Cpu}
    (hall : ∀ r, r ≠ .rsp → r ∈ rs) (hregs : Words m p (rs.map c.gpr))
    (hiret : Words m (p + 8 * rs.length)
      [c.rip, c.cs.toUInt64, c.rflags, c.gpr .rsp, c.ss.toUInt64]) :
    frameCpu rs m p c.cr3 = c := by
  have hcs : word m (p + 8 * rs.length + 8) = c.cs.toUInt64 := hiret 1 (by simp)
  have hss : word m (p + 8 * rs.length + 32) = c.ss.toUInt64 := hiret 4 (by simp)
  apply Cpu.ext
  · funext r
    by_cases hr : r = .rsp
    · simp only [frameCpu, if_pos hr]
      rw [hr]
      exact hiret 3 (by simp)
    · have hidx : rs.idxOf r < rs.length := List.idxOf_lt_length_of_mem (hall r hr)
      have hword := hregs (rs.idxOf r) (by rwa [List.length_map])
      simp only [frameCpu, if_neg hr]
      rw [hword, List.getElem_map, List.getElem_idxOf]
  · exact hiret 0 (by simp)
  · exact hiret 2 (by simp)
  · simp only [frameCpu]
    rw [hcs, UInt16.toUInt16_toUInt64]
  · simp only [frameCpu]
    rw [hss, UInt16.toUInt16_toUInt64]
  · rfl

/-- The words an interrupt and pushing `rs` leave on the stack, the lowest first. -/
def frameWords (rs : List Reg) (c : Cpu) : List UInt64 :=
  rs.reverse.map c.gpr ++ [c.rip, c.cs.toUInt64, c.rflags, c.gpr .rsp, c.ss.toUInt64]

/-! ## Suspending and resuming -/

namespace Stack

variable {S : Stack tr cr3 Ok}

/-- **The interrupt frame.** -/
theorem interrupt_spec
    (h : S.At { s with cpu := s.cpu.set .rsp (align16 (s.cpu.gpr .rsp)) } (k + 40)) :
    ∃ s', interrupt tr s = some s' ∧ S.At s' k ∧ (∀ r, r ≠ .rsp → s'.cpu.gpr r = s.cpu.gpr r)
      ∧ s'.cpu.cr3 = s.cpu.cr3
      ∧ Words s'.mem (S.pbase + k)
          [s.cpu.rip, s.cpu.cs.toUInt64, s.cpu.rflags, s.cpu.gpr .rsp, s.cpu.ss.toUInt64]
      ∧ Set.EqOn s'.mem s.mem (outside (S.pbase + k) 40) := by
  have hle := h.le
  obtain ⟨m, hrun, hwords, hrest⟩ := pushAll_spec (k := k)
    [s.cpu.ss.toUInt64, s.cpu.gpr .rsp, s.cpu.rflags, s.cpu.cs.toUInt64, s.cpu.rip] h
  have hat := h.move (show k ≤ S.len by omega) (hrest.mono (outside_mono (by omega) (by simp; omega)))
  rw [Cpu.set_set] at hrun hat
  refine ⟨{ cpu := { s.cpu.set .rsp (S.ptr k) with rflags := s.cpu.rflags &&& ~~~gateFlags }, mem := m },
    ?_, ⟨hat.root, hat.ok, hat.sp, hat.le⟩, ?_, rfl, hwords, hrest⟩
  · simp only [interrupt, hrun]
    rfl
  · intro r hr
    exact Cpu.set_gpr_ne s.cpu hr _

/-- **Popping registers** loads each of them from its slot. -/
theorem run_pop (callee : Machine → Option Machine) {rs : List Reg} (hsp : .rsp ∉ rs)
    (hnodup : rs.Nodup) (h : S.At s k) (hle : k + 8 * rs.length ≤ S.len) :
    ∃ g, run tr callee (rs.map .pop) s = some { s with cpu := { s.cpu with gpr := g } }
      ∧ g .rsp = S.ptr (k + 8 * rs.length)
      ∧ (∀ r ∈ rs, g r = word s.mem (S.pbase + k + 8 * rs.idxOf r))
      ∧ ∀ r, r ∉ rs → r ≠ .rsp → g r = s.cpu.gpr r := by
  induction rs generalizing s k with
  | nil => exact ⟨s.cpu.gpr, rfl, h.sp, by simp, fun _ _ _ => rfl⟩
  | cons q rs ih =>
      rw [List.mem_cons, not_or] at hsp
      rw [List.nodup_cons] at hnodup
      rw [List.length_cons] at hle
      have hq : Reg.rsp ≠ q := hsp.1
      let w := word s.mem (S.pbase + k)
      have hnext : S.At { s with cpu := (s.cpu.set .rsp (S.ptr (k + 8))).set q w } (k + 8) :=
        ⟨h.root, h.ok, by rw [Cpu.set_gpr_ne _ hq, Cpu.set_gpr_self], by omega⟩
      obtain ⟨g, hrun, hgsp, hgin, hgout⟩ := ih hsp.2 hnodup.2 hnext (by omega)
      refine ⟨g, ?_, ?_, ?_, ?_⟩
      · have hexec : exec tr callee s (.pop q)
            = some { s with cpu := (s.cpu.set .rsp (S.ptr (k + 8))).set q w } := by
          simp only [exec, pop_spec h (show k + 8 ≤ S.len by omega)]
          rfl
        rw [List.map_cons, run, hexec, Option.bind_some, hrun]
        rfl
      · have hoff : k + 8 + 8 * rs.length = k + 8 * (rs.length + 1) := by omega
        rw [hgsp, List.length_cons, hoff]
      · intro r hr
        by_cases hrq : r = q
        · rw [hrq, hgout q hnodup.1 hq.symm, Cpu.set_gpr_self, List.idxOf_cons_self]
          rfl
        · have hmem : r ∈ rs := (List.mem_cons.mp hr).resolve_left hrq
          have haddr : S.pbase + (k + 8) + 8 * rs.idxOf r = S.pbase + k + 8 * (rs.idxOf r + 1) := by
            omega
          rw [hgin r hmem, List.idxOf_cons_ne _ (Ne.symm hrq), haddr]
      · intro r hr hrsp
        rw [List.mem_cons, not_or] at hr
        rw [hgout r hr.2 hrsp, Cpu.set_gpr_ne _ hr.1, Cpu.set_gpr_ne _ hrsp]

theorem iretq_spec (h : S.At s k) (hle : k + 40 ≤ S.len) :
    iretq tr s = some { s with cpu :=
      { s.cpu.set .rsp (word s.mem (S.pbase + (k + 24))) with
        rip := word s.mem (S.pbase + k)
        cs := (word s.mem (S.pbase + (k + 8))).toUInt16
        rflags := word s.mem (S.pbase + (k + 16))
        ss := (word s.mem (S.pbase + (k + 32))).toUInt16 } } := by
  have hmove : ∀ k', k' ≤ S.len → S.At { s with cpu := s.cpu.set .rsp (S.ptr k') } k' :=
    fun k' hk' => h.move hk' (Set.eqOn_refl ..)
  unfold iretq
  rw [pop_spec h (by omega), Option.bind_eq_bind, Option.bind_some]
  show (pop tr _ >>= _) = _
  rw [pop_spec (hmove (k + 8) (by omega)) (by omega), Option.bind_eq_bind, Option.bind_some]
  show (pop tr _ >>= _) = _
  rw [Cpu.set_set, pop_spec (hmove (k + 16) (by omega)) (by omega), Option.bind_eq_bind,
    Option.bind_some]
  show (pop tr _ >>= _) = _
  rw [Cpu.set_set, pop_spec (hmove (k + 24) (by omega)) (by omega), Option.bind_eq_bind,
    Option.bind_some]
  show (pop tr _ >>= _) = _
  rw [Cpu.set_set, pop_spec (hmove (k + 32) (by omega)) (by omega), Option.bind_eq_bind,
    Option.bind_some]
  simp only [Cpu.set_set]
  rfl

/-- **Resuming.** Popping the registers and `iretq` load exactly what the frame decodes to. -/
theorem resume_spec (callee : Machine → Option Machine) {rs : List Reg} (hsp : .rsp ∉ rs)
    (hall : ∀ r, r ≠ .rsp → r ∈ rs) (hnodup : rs.Nodup) (h : S.At s k) (hle : k + 8 * rs.length + 40 ≤ S.len) :
    run tr callee (rs.map .pop ++ [.iretq]) s
      = some { cpu := frameCpu rs s.mem (S.pbase + k) s.cpu.cr3, mem := s.mem } := by
  obtain ⟨g, hrun, hgsp, hgin, -⟩ := run_pop callee hsp hnodup h (by omega)
  have hat : S.At { s with cpu := { s.cpu with gpr := g } } (k + 8 * rs.length) :=
    ⟨h.root, h.ok, hgsp, by omega⟩
  rw [run_append, hrun, Option.bind_some, run, exec, iretq_spec hat hle, Option.bind_some, run]
  refine congrArg some (congrArg (Machine.mk · s.mem) ?_)
  apply Cpu.ext
  · funext r
    by_cases hr : r = .rsp
    · simp only [frameCpu, if_pos hr]
      rw [hr, Cpu.set_gpr_self]
      simp only [Nat.add_assoc]
    · simp only [frameCpu, if_neg hr]
      rw [← hgin r (hall r hr)]
      exact Cpu.set_gpr_ne _ hr _
  all_goals simp only [frameCpu, Nat.add_assoc]
  rfl

/-- **Suspending.** An interrupt followed by pushing the general registers leaves a frame that decodes
    to the interrupted registers, and changes nothing outside it. -/
theorem suspend_spec (callee : Machine → Option Machine) {rs : List Reg} (hsp : .rsp ∉ rs)
    (hall : ∀ r, r ≠ .rsp → r ∈ rs)
    (h : S.At { s with cpu := s.cpu.set .rsp (align16 (s.cpu.gpr .rsp)) }
      (k + 8 * rs.length + 40)) :
    ∃ s', (interrupt tr s).bind (run tr callee (rs.map .push)) = some s' ∧ S.At s' k
      ∧ s'.cpu.cr3 = s.cpu.cr3
      ∧ frameCpu rs.reverse s'.mem (S.pbase + k) s.cpu.cr3 = s.cpu
      ∧ Words s'.mem (S.pbase + k) (frameWords rs s.cpu)
      ∧ Set.EqOn s'.mem s.mem (outside (S.pbase + k) (8 * rs.length + 40)) := by
  have hle := h.le
  obtain ⟨s₁, hint, hat₁, hgpr₁, hcr3₁, hiret, hrest₁⟩ := interrupt_spec h
  obtain ⟨m, hrun, hregs, hrest⟩ := pushAll_spec (k := k) (rs.map s₁.cpu.gpr)
    (by rwa [List.length_map])
  rw [List.length_map] at hrest
  have hat := hat₁.move (show k ≤ S.len by omega) (hrest.mono (outside_mono (by omega) (by omega)))
  have hvalues : (rs.map s₁.cpu.gpr).reverse = rs.reverse.map s.cpu.gpr := by
    rw [← List.map_reverse]
    apply List.map_congr_left
    intro r hr
    exact hgpr₁ r (fun h => hsp (h ▸ List.mem_reverse.mp hr))
  rw [hvalues] at hregs
  have hiret' : Words m (S.pbase + k + 8 * rs.length)
      [s.cpu.rip, s.cpu.cs.toUInt64, s.cpu.rflags, s.cpu.gpr .rsp, s.cpu.ss.toUInt64] := by
    rw [Nat.add_assoc]
    refine hiret.congr (hrest.mono ?_)
    intro x hx
    exact Or.inr (by have := hx.1; omega)
  refine ⟨_, by rw [hint, Option.bind_some, run_push hsp, hrun], hat, hcr3₁, ?_, ?_, ?_⟩
  · apply frameCpu_of_words (fun r hr => List.mem_reverse.mpr (hall r hr)) hregs
    rw [List.length_reverse]
    exact hiret'
  · refine hregs.append ?_
    rw [List.length_map, List.length_reverse]
    exact hiret'
  · exact (hrest.mono (outside_mono (by omega) (by omega))).trans
      (hrest₁.mono (outside_mono (by omega) (by omega)))

/-! ## Calls from a handler -/

/-- What the System V ABI promises of a call made with the stack pointer `k` bytes above the bottom and
    `n` bytes of its callers' frames above that: the stack pointer and the callee-saved registers are as
    they were, and so are the frames. Below the stack pointer and anywhere else it may write. -/
structure Abi (S : Stack tr cr3 Ok) (k n : Nat) (s s' : Machine) : Prop where
  sp : s'.cpu.gpr .rsp = s.cpu.gpr .rsp
  saved : ∀ r ∈ [Reg.rbx, .rbp, .r12, .r13, .r14, .r15], s'.cpu.gpr r = s.cpu.gpr r
  root : s'.cpu.cr3 = s.cpu.cr3
  ok : Ok s'.mem
  frames : Set.EqOn s'.mem s.mem (Set.Ico (S.pbase + k) (S.pbase + k + n))

theorem Abi.at {n : Nat} {s' : Machine} (h : S.Abi k n s s') (hat : S.At s k) : S.At s' k where
  root := (congrArg UInt64.toNat h.root).trans hat.root
  ok := h.ok
  sp := h.sp.trans hat.sp
  le := hat.le

/-- **Saving registers.** -/
theorem save_spec (callee : Machine → Option Machine) {rs : List Reg} (hsp : .rsp ∉ rs)
    (h : S.At s (k + 8 * rs.length)) :
    ∃ s', run tr callee (rs.map .push) s = some s' ∧ S.At s' k
      ∧ s'.cpu = s.cpu.set .rsp (S.ptr k)
      ∧ Words s'.mem (S.pbase + k) (rs.reverse.map s.cpu.gpr)
      ∧ Set.EqOn s'.mem s.mem (outside (S.pbase + k) (8 * rs.length)) := by
  have hle := h.le
  obtain ⟨m, hrun, hregs, hrest⟩ := pushAll_spec (k := k) (rs.map s.cpu.gpr)
    (by rwa [List.length_map])
  rw [List.length_map] at hrest
  rw [← List.map_reverse] at hregs
  refine ⟨{ cpu := s.cpu.set .rsp (S.ptr k), mem := m }, (run_push hsp s).trans hrun, ?_, rfl, hregs,
    hrest⟩
  exact h.move (by omega) (hrest.mono (outside_mono (by omega) (by omega)))

/-- **Restoring registers.** Popping the saved registers, stepping over `gap` bytes and `iretq` give the
    registers whose words lie on the stack; those not saved stay. -/
theorem restore_spec (callee : Machine → Option Machine) {rs : List Reg} {post : List Instr} {gap : Nat}
    {c : Cpu} (hsp : .rsp ∉ rs) (hnodup : rs.Nodup) (h : S.At s k)
    (hle : k + 8 * rs.length + gap + 40 ≤ S.len)
    (hpost : ∀ s k, S.At s k → k + gap ≤ S.len → ∃ s', run tr callee post s = some s' ∧
      S.At s' (k + gap) ∧ s'.mem = s.mem ∧ s'.cpu.cr3 = s.cpu.cr3 ∧
      ∀ r, r ≠ .rsp → s'.cpu.gpr r = s.cpu.gpr r)
    (hregs : Words s.mem (S.pbase + k) (rs.map c.gpr))
    (hiret : Words s.mem (S.pbase + (k + 8 * rs.length + gap))
      [c.rip, c.cs.toUInt64, c.rflags, c.gpr .rsp, c.ss.toUInt64])
    (hother : ∀ r, r ∉ rs → r ≠ .rsp → c.gpr r = s.cpu.gpr r) (hroot : c.cr3 = s.cpu.cr3) :
    run tr callee (rs.map .pop ++ (post ++ [.iretq])) s = some { cpu := c, mem := s.mem } := by
  obtain ⟨g, hpop, hgsp, hgin, hgout⟩ := run_pop callee hsp hnodup h (by omega)
  have hat₁ : S.At { s with cpu := { s.cpu with gpr := g } } (k + 8 * rs.length) :=
    ⟨h.root, h.ok, hgsp, by omega⟩
  obtain ⟨s₂, hskip, hat₂, hmem₂, hcr3₂, hgpr₂⟩ := hpost _ _ hat₁ (by omega)
  have hslot : ∀ i (hi : i < 5), word s₂.mem (S.pbase + (k + 8 * rs.length + gap + 8 * i)) =
      [c.rip, c.cs.toUInt64, c.rflags, c.gpr .rsp, c.ss.toUInt64][i] := by
    intro i hi
    rw [← hiret i hi, Nat.add_assoc S.pbase, hmem₂]
  let top := k + 8 * rs.length + gap
  have hrip : word s₂.mem (S.pbase + top) = c.rip := hslot 0 (by decide)
  have hcs : word s₂.mem (S.pbase + (top + 8)) = c.cs.toUInt64 := hslot 1 (by decide)
  have hflags : word s₂.mem (S.pbase + (top + 16)) = c.rflags := hslot 2 (by decide)
  have hrsp : word s₂.mem (S.pbase + (top + 24)) = c.gpr .rsp := hslot 3 (by decide)
  have hss : word s₂.mem (S.pbase + (top + 32)) = c.ss.toUInt64 := hslot 4 (by decide)
  rw [run_append, hpop, Option.bind_some, run_append, hskip, Option.bind_some, run, exec,
    iretq_spec hat₂ (by omega), Option.bind_some, run, hrip, hcs, hflags, hrsp, hss,
    UInt16.toUInt16_toUInt64, UInt16.toUInt16_toUInt64, ← hmem₂]
  refine congrArg some (congrArg (Machine.mk · s₂.mem) ?_)
  apply Cpu.ext
  · funext r
    show (s₂.cpu.set .rsp (c.gpr .rsp)).gpr r = c.gpr r
    by_cases hr : r = .rsp
    · rw [hr, Cpu.set_gpr_self]
    · rw [Cpu.set_gpr_ne _ hr, hgpr₂ r hr]
      show g r = c.gpr r
      by_cases hmem : r ∈ rs
      · have hidx : rs.idxOf r < rs.length := List.idxOf_lt_length_of_mem hmem
        have hword := hregs (rs.idxOf r) (by rwa [List.length_map])
        rw [hgin r hmem, hword, List.getElem_map, List.getElem_idxOf]
      · exact (hgout r hmem hr).trans (hother r hmem hr).symm
  · rfl
  · rfl
  · rfl
  · rfl
  · exact hcr3₂.trans hroot.symm

end Stack

end Stacks

end Lib.X86

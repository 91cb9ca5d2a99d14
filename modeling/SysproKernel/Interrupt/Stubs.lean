import SysproKernel.Lib.X86

/-!
# `Interrupt.Stubs` — `syscall_handler` and `page_fault_handler`

The two stubs of interrupt_handler.S that return to the program they interrupted, instruction by
instruction, around an arbitrary C function. They save different registers: the system call leaves out
`rax`, which carries the result, and the page fault has the processor's error code below the `iretq`
frame, to be stepped over.

`interrupts_transparent` says what each gives the interrupted program back, on any mapped stack with
room for the frames and for any C function that obeys the System V ABI.
-/

namespace SysproKernel
namespace Interrupt

open Lib.ByteMem Lib.X86

/-! ## The stubs -/

/-- `syscall_handler`. -/
def syscallHandler : List Instr :=
  [ .push .rbx, .push .rcx, .push .rdx, .push .rdi, .push .rsi, .push .rbp,
    .push .r8, .push .r9, .push .r10, .push .r11, .push .r12, .push .r13, .push .r14, .push .r15,
    .call,
    .pop .r15, .pop .r14, .pop .r13, .pop .r12, .pop .r11, .pop .r10, .pop .r9, .pop .r8,
    .pop .rbp, .pop .rsi, .pop .rdi, .pop .rdx, .pop .rcx, .pop .rbx,
    .iretq ]

/-- `page_fault_handler`. -/
def pageFaultHandler : List Instr :=
  [ .push .rax, .push .rbx, .push .rcx, .push .rdx, .push .rdi, .push .rsi, .push .rbp,
    .push .r8, .push .r9, .push .r10, .push .r11, .push .r12, .push .r13, .push .r14, .push .r15,
    .mov .rsp .rdi,
    .call,
    .pop .r15, .pop .r14, .pop .r13, .pop .r12, .pop .r11, .pop .r10, .pop .r9, .pop .r8,
    .pop .rbp, .pop .rsi, .pop .rdi, .pop .rdx, .pop .rcx, .pop .rbx, .pop .rax,
    .add 0x8 .rsp,
    .iretq ]

/-- The registers `syscall_handler` pushes, in its order. -/
def syscallRegs : List Reg :=
  [.rbx, .rcx, .rdx, .rdi, .rsi, .rbp, .r8, .r9, .r10, .r11, .r12, .r13, .r14, .r15]

/-- The registers `page_fault_handler` pushes. -/
def faultRegs : List Reg := .rax :: syscallRegs

variable (tr : Mem → Nat → Nat → Option Nat) (callee : Machine → Option Machine)

/-- `int 0x80` up to the call of `syscall_handler_internal`. -/
def syscallEntry (s : Machine) : Option Machine :=
  (interrupt tr s).bind (run tr callee (syscallRegs.map .push))

/-- `int 0x80`, until the program continues. -/
def syscall (s : Machine) : Option Machine := (interrupt tr s).bind (run tr callee syscallHandler)

/-- A page fault up to the call of `page_fault_handler_internal`. -/
def pageFaultEntry (error : UInt64) (s : Machine) : Option Machine :=
  (interruptWithError tr error s).bind (run tr callee (faultRegs.map .push ++ [.mov .rsp .rdi]))

/-- A page fault, until the program continues. -/
def pageFault (error : UInt64) (s : Machine) : Option Machine :=
  (interruptWithError tr error s).bind (run tr callee pageFaultHandler)

variable {tr callee}

theorem syscallHandler_eq : syscallHandler =
    syscallRegs.map .push ++ (.call :: (syscallRegs.reverse.map .pop ++ ([] ++ [.iretq]))) := rfl

theorem pageFaultHandler_eq : pageFaultHandler =
    (faultRegs.map .push ++ [.mov .rsp .rdi]) ++
      (.call :: (faultRegs.reverse.map .pop ++ ([.add 0x8 .rsp] ++ [.iretq]))) := rfl

/-- The stub is what leads to the call, the call, and what follows it. -/
theorem run_call {s₁ s₂ : Machine} {before after : List Instr} {start : Option Machine}
    (hbefore : start.bind (run tr callee before) = some s₁) (hcall : callee s₁ = some s₂) :
    start.bind (run tr callee (before ++ (.call :: after))) = run tr callee after s₂ := by
  cases start with
  | none => cases hbefore
  | some s =>
      have hrun : run tr callee before s = some s₁ := hbefore
      rw [Option.bind_some, run_append, hrun, Option.bind_some, run, exec, hcall, Option.bind_some]

/-! ## What the program gets back -/

section Transparency

variable {cr3 : Nat} {Ok : Mem → Prop} {S : Stack tr cr3 Ok} {s : Machine} {k : Nat}

/-- The C function obeys the System V ABI when it is called `k` bytes above the bottom of the stack,
    below `n` bytes of frames. -/
def CalleeAbi (S : Stack tr cr3 Ok) (callee : Machine → Option Machine) (k n : Nat) : Prop :=
  ∀ s₁ s₂, S.At s₁ k → callee s₁ = some s₂ → S.Abi k n s₁ s₂

/-- The program is interrupted with its stack pointer, aligned down to 16, `k` bytes above the bottom of
    the stack. -/
def InterruptedAt (S : Stack tr cr3 Ok) (s : Machine) (k : Nat) : Prop :=
  S.At { s with cpu := s.cpu.set .rsp (align16 (s.cpu.gpr .rsp)) } k

/-- Everything an interrupt with `n` bytes of frames writes before the call lies below the interrupted
    stack pointer. -/
structure FramesBelow (S : Stack tr cr3 Ok) (k n : Nat) (s s₁ : Machine) : Prop where
  below : S.vbase + (k + n) ≤ (s.cpu.gpr .rsp).toNat
  rest : Set.EqOn s₁.mem s.mem (outside (S.pbase + k) n)

theorem InterruptedAt.le_sp {n : Nat} (h : InterruptedAt S s n) :
    S.vbase + n ≤ (s.cpu.gpr .rsp).toNat := by
  have hsp : align16 (s.cpu.gpr .rsp) = S.ptr n := h.sp
  have hle := align16_le (s.cpu.gpr .rsp)
  rwa [hsp, Stack.ptr_toNat (Stack.At.le h)] at hle

/-- **Behind the call.** The words saved before it survive it, and become the registers again. -/
theorem resumed_spec (gap : Nat) {rs : List Reg} {post : List Instr} {c : Cpu} {s₁ s₂ : Machine}
    (hsp : .rsp ∉ rs) (hnodup : rs.Nodup) (hat : S.At s₁ k)
    (habi : S.Abi k (8 * rs.length + gap + 40) s₁ s₂) (hle : k + 8 * rs.length + gap + 40 ≤ S.len)
    (hpost : ∀ s k, S.At s k → k + gap ≤ S.len → ∃ s', run tr callee post s = some s' ∧
      S.At s' (k + gap) ∧ s'.mem = s.mem ∧ s'.cpu.cr3 = s.cpu.cr3 ∧
      ∀ r, r ≠ .rsp → s'.cpu.gpr r = s.cpu.gpr r)
    (hregs : Words s₁.mem (S.pbase + k) (rs.map c.gpr))
    (hiret : Words s₁.mem (S.pbase + (k + 8 * rs.length + gap))
      [c.rip, c.cs.toUInt64, c.rflags, c.gpr .rsp, c.ss.toUInt64])
    (hother : ∀ r, r ∉ rs → r ≠ .rsp → c.gpr r = s₂.cpu.gpr r) (hroot : c.cr3 = s₁.cpu.cr3) :
    run tr callee (rs.map .pop ++ (post ++ [.iretq])) s₂ = some { cpu := c, mem := s₂.mem } := by
  refine Stack.restore_spec callee hsp hnodup (habi.at hat) hle hpost ?_ ?_ hother
    (hroot.trans habi.root.symm)
  · refine hregs.congr (habi.frames.mono (Set.Ico_subset_Ico (Nat.le_refl _) ?_))
    rw [List.length_map]
    omega
  · refine hiret.congr (habi.frames.mono (Set.Ico_subset_Ico (by omega) ?_))
    show S.pbase + (k + 8 * rs.length + gap) + 8 * 5 ≤ _
    omega

/-- **A system call.** -/
theorem syscall_spec (hat : InterruptedAt S s (k + 152)) (habi : CalleeAbi S callee k 152) :
    ∃ s₁, syscallEntry tr callee s = some s₁ ∧ FramesBelow S k 152 s s₁ ∧
      (∀ r, r ≠ .rsp → s₁.cpu.gpr r = s.cpu.gpr r) ∧
      ∀ s₂, callee s₁ = some s₂ → syscall tr callee s =
        some { cpu := s.cpu.set .rax (s₂.cpu.gpr .rax), mem := s₂.mem } := by
  have hle : k + 152 ≤ S.len := hat.le
  obtain ⟨s₀, hint, hat₀, hgpr₀, hcr3₀, hiret₀, hrest₀⟩ :=
    Stack.interrupt_spec (k := k + 112) hat
  obtain ⟨s₁, hpush, hat₁, hcpu₁, hregs₁, hrest₁⟩ :=
    Stack.save_spec callee (k := k) (by decide : .rsp ∉ syscallRegs) hat₀
  have hentry : (interrupt tr s).bind (run tr callee (syscallRegs.map .push)) = some s₁ := by
    rw [hint, Option.bind_some, hpush]
  have hgpr₁ : ∀ r, r ≠ .rsp → s₁.cpu.gpr r = s.cpu.gpr r := by
    intro r hr
    rw [hcpu₁, Cpu.set_gpr_ne _ hr, hgpr₀ r hr]
  refine ⟨s₁, hentry, ⟨hat.le_sp, ?_⟩, hgpr₁, ?_⟩
  · have hpushed : Set.EqOn s₁.mem s₀.mem (outside (S.pbase + k) 112) := hrest₁
    exact (hpushed.mono (outside_mono (by omega) (by omega))).trans
      (hrest₀.mono (outside_mono (by omega) (by omega)))
  intro s₂ hcall
  rw [syscall, syscallHandler_eq, run_call hentry hcall]
  refine resumed_spec 0 (c := s.cpu.set .rax (s₂.cpu.gpr .rax)) (by decide) (by decide) hat₁
    (habi s₁ s₂ hat₁ hcall) hle ?_ ?_ ?_ ?_ ?_
  · intro s k hs _
    exact ⟨s, rfl, hs, rfl, rfl, fun _ _ => rfl⟩
  · have hvalues : syscallRegs.reverse.map (s.cpu.set .rax (s₂.cpu.gpr .rax)).gpr =
        syscallRegs.reverse.map s₀.cpu.gpr := by
      apply List.map_congr_left
      intro r hr
      have hrax : r ≠ .rax := ne_of_mem_of_not_mem hr (by decide)
      have hrsp : r ≠ .rsp := ne_of_mem_of_not_mem hr (by decide)
      rw [Cpu.set_gpr_ne _ hrax, hgpr₀ r hrsp]
    rw [hvalues]
    exact hregs₁
  · refine Words.congr hiret₀ (hrest₁.mono ?_)
    intro x hx
    have hlo : S.pbase + (k + 8 * 14 + 0) ≤ x := hx.1
    show x < S.pbase + k ∨ S.pbase + k + 8 * 14 ≤ x
    omega
  · intro r hr hrsp
    obtain rfl : r = .rax := by
      cases r <;> first | rfl | exact absurd rfl hrsp | exact absurd (by decide) hr
    exact Cpu.set_gpr_self ..
  · rw [hcpu₁]
    exact hcr3₀.symm

/-- An exception with an error code leaves the code below the `iretq` frame. -/
theorem interruptWithError_spec (error : UInt64) (hat : InterruptedAt S s (k + 48)) :
    ∃ s₀, interruptWithError tr error s = some s₀ ∧ S.At s₀ k ∧
      (∀ r, r ≠ .rsp → s₀.cpu.gpr r = s.cpu.gpr r) ∧ s₀.cpu.cr3 = s.cpu.cr3 ∧
      word s₀.mem (S.pbase + k) = error ∧
      Words s₀.mem (S.pbase + (k + 8))
        [s.cpu.rip, s.cpu.cs.toUInt64, s.cpu.rflags, s.cpu.gpr .rsp, s.cpu.ss.toUInt64] ∧
      Set.EqOn s₀.mem s.mem (outside (S.pbase + k) 48) := by
  have hle : k + 48 ≤ S.len := hat.le
  obtain ⟨s', hint, hat', hgpr, hcr3, hiret, hrest⟩ := Stack.interrupt_spec (k := k + 8) hat
  have hslot : Set.EqOn (store s'.mem (S.pbase + k) 8 error.toNat) s'.mem (outside (S.pbase + k) 8) :=
    store_eqOn (fun x hx => hx)
  refine ⟨{ cpu := s'.cpu.set .rsp (S.ptr k), mem := store s'.mem (S.pbase + k) 8 error.toNat }, ?_,
    hat'.move (by omega) (hslot.mono (outside_mono (by omega) (by omega))), ?_, hcr3,
    word_store_self .., ?_, ?_⟩
  · rw [interruptWithError, hint, Option.bind_some, Stack.push_spec hat']
  · intro r hr
    exact (Cpu.set_gpr_ne _ hr _).trans (hgpr r hr)
  · refine hiret.congr (hslot.mono ?_)
    intro x hx
    have hlo : S.pbase + (k + 8) ≤ x := hx.1
    exact Or.inr (by omega)
  · exact (hslot.mono (outside_mono (Nat.le_refl _) (by omega))).trans
      (hrest.mono (outside_mono (by omega) (by omega)))

/-- **A page fault.** -/
theorem pageFault_spec (error : UInt64) (hat : InterruptedAt S s (k + 168))
    (habi : CalleeAbi S callee k 168) :
    ∃ s₁, pageFaultEntry tr callee error s = some s₁ ∧ FramesBelow S k 168 s s₁ ∧
      vload tr s₁.mem s₁.cpu.cr3.toNat (s₁.cpu.gpr .rdi + 8 * 15).toNat 8 = some error.toNat ∧
      ∀ s₂, callee s₁ = some s₂ → pageFault tr callee error s =
        some { cpu := s.cpu, mem := s₂.mem } := by
  have hle : k + 168 ≤ S.len := hat.le
  obtain ⟨s₀, hint, hat₀, hgpr₀, hcr3₀, herror₀, hiret₀, hrest₀⟩ :=
    interruptWithError_spec (k := k + 120) error hat
  obtain ⟨s', hpush, hat', hcpu, hregs, hrest⟩ :=
    Stack.save_spec callee (k := k) (by decide : .rsp ∉ faultRegs) hat₀
  have hpushed : Set.EqOn s'.mem s₀.mem (outside (S.pbase + k) 120) := hrest
  -- `mov %rsp, %rdi`
  obtain ⟨s₁, hs₁⟩ : ∃ s₁ : Machine, s₁ = { s' with cpu := s'.cpu.set .rdi (s'.cpu.gpr .rsp) } :=
    ⟨_, rfl⟩
  have hmem₁ : s₁.mem = s'.mem := by
    rw [hs₁]
  have hat₁ : S.At s₁ k := by
    rw [hs₁]
    exact ⟨hat'.root, hat'.ok, (Cpu.set_gpr_ne _ (by decide) _).trans hat'.sp, hat'.le⟩
  have hentry : (interruptWithError tr error s).bind
      (run tr callee (faultRegs.map .push ++ [.mov .rsp .rdi])) = some s₁ := by
    rw [hint, Option.bind_some, run_append, hpush, Option.bind_some, hs₁]
    rfl
  refine ⟨s₁, hentry, ⟨hat.le_sp, ?_⟩, ?_, ?_⟩
  · rw [hmem₁]
    exact (hpushed.mono (outside_mono (by omega) (by omega))).trans
      (hrest₀.mono (outside_mono (by omega) (by omega)))
  · -- the slot of the error code, 15 words above the stack pointer
    have hrdi : s₁.cpu.gpr .rdi = S.ptr k := by
      rw [hs₁]
      exact (Cpu.set_gpr_self ..).trans hat'.sp
    have haddr : (s₁.cpu.gpr .rdi + 8 * 15).toNat = S.vbase + (k + 120) := by
      have hbelow := S.below
      rw [hrdi, UInt64.toNat_add, Stack.ptr_toNat (by omega), show (8 * 15 : UInt64).toNat = 120 from rfl]
      omega
    rw [haddr, vload_eq (hat₁.mapped (show k + 120 + 8 ≤ S.len by omega)), hmem₁, ← toNat_word,
      word_congr (hpushed.mono (fun x hx => Or.inr (by have := hx.1; omega))), herror₀]
  intro s₂ hcall
  rw [pageFault, pageFaultHandler_eq, run_call hentry hcall]
  refine resumed_spec 8 (c := s.cpu) (by decide) (by decide) hat₁ (habi s₁ s₂ hat₁ hcall) hle ?_ ?_
    ?_ ?_ ?_
  · -- `add $8, %rsp`
    intro s k hs hk
    have hsum : s.cpu.gpr .rsp + 0x8 = S.ptr (k + 8) := by
      rw [hs.sp]
      exact Stack.ptr_add hk
    refine ⟨_, rfl, ⟨hs.root, hs.ok, ?_, hk⟩, rfl, rfl, ?_⟩
    · rw [← hsum]
      exact Cpu.set_gpr_self s.cpu .rsp _
    · intro r hr
      exact Cpu.set_gpr_ne s.cpu hr _
  · have hvalues : faultRegs.reverse.map s.cpu.gpr = faultRegs.reverse.map s₀.cpu.gpr := by
      apply List.map_congr_left
      intro r hr
      have hrsp : r ≠ .rsp := ne_of_mem_of_not_mem hr (by decide)
      rw [hgpr₀ r hrsp]
    rw [hvalues, hmem₁]
    exact hregs
  · rw [hmem₁]
    refine Words.congr hiret₀ (hpushed.mono ?_)
    intro x hx
    have hlo : S.pbase + (k + 8 * 15 + 8) ≤ x := hx.1
    exact Or.inr (by omega)
  · intro r hr hrsp
    cases r <;> first | exact absurd rfl hrsp | exact absurd (by decide) hr
  · rw [hs₁]
    exact (hcr3₀.symm.trans (congrArg Cpu.cr3 hcpu).symm)

/-- **System calls and page faults are transparent.** On every stack with room for the frames, and for
    every C function that obeys the System V ABI: everything written before the call lies below the
    interrupted stack pointer, and if the function returns, the program continues with the memory it
    returned with and with all its registers as they were, except that a system call has put the
    function's result into `rax`. Inside the page fault handler, `sp[15]` is the error code. -/
theorem interrupts_transparent {tr : Mem → Nat → Nat → Option Nat} {cr3 : Nat} {Ok : Mem → Prop}
    (S : Stack tr cr3 Ok) (callee : Machine → Option Machine) (s : Machine) (k : Nat) :
    (InterruptedAt S s (k + 152) → CalleeAbi S callee k 152 →
      ∃ s₁, syscallEntry tr callee s = some s₁ ∧ FramesBelow S k 152 s s₁ ∧
        ∀ s₂, callee s₁ = some s₂ → syscall tr callee s =
          some { cpu := s.cpu.set .rax (s₂.cpu.gpr .rax), mem := s₂.mem }) ∧
    ∀ error, InterruptedAt S s (k + 168) → CalleeAbi S callee k 168 →
      ∃ s₁, pageFaultEntry tr callee error s = some s₁ ∧ FramesBelow S k 168 s s₁ ∧
        vload tr s₁.mem s₁.cpu.cr3.toNat (s₁.cpu.gpr .rdi + 8 * 15).toNat 8 = some error.toNat ∧
        ∀ s₂, callee s₁ = some s₂ → pageFault tr callee error s =
          some { cpu := s.cpu, mem := s₂.mem } := by
  constructor
  · intro hat habi
    obtain ⟨s₁, hentry, hframes, -, hresume⟩ := syscall_spec hat habi
    exact ⟨s₁, hentry, hframes, hresume⟩
  · intro error hat habi
    exact pageFault_spec error hat habi

end Transparency

/-! ## A program interrupted on an identity-mapped stack -/

section Sample

def identity (_ : Mem) (_ v : Nat) : Option Nat := some v

def sampleStack : Stack identity 0 (fun _ => True) where
  vbase := 0x1000
  pbase := 0x1000
  len := 0x1000
  below := by decide
  maps _ _ _ _ := rfl
  keeps _ _ _ _ := trivial

def sampleMachine : Machine :=
  { cpu :=
      { gpr := fun r => if r = .rsp then 0x1ff8 else 7
        rip := 0x40001234
        rflags := 0x202
        cs := 8
        ss := 16
        cr3 := 0 }
    mem := fun _ => 0 }

/-- A C function that overwrites caller-saved registers, its return address and its result. -/
def clobbered (s : Machine) : Machine :=
  { cpu := ((s.cpu.set .rcx 0).set .r11 0).set .rax 42
    mem := store s.mem ((s.cpu.gpr .rsp).toNat - 8) 8 0xdead }

def clobber (s : Machine) : Option Machine := some (clobbered s)

theorem clobbered_rax (s : Machine) : (clobbered s).cpu.gpr .rax = 42 := Cpu.set_gpr_self ..

theorem clobber_abi {k n : Nat} (hk : 8 ≤ k) : CalleeAbi sampleStack clobber k n := by
  rintro s₁ _ hat ⟨⟩
  have hsp : (s₁.cpu.gpr .rsp).toNat = 0x1000 + k := by
    rw [hat.sp]
    exact Stack.ptr_toNat hat.le
  refine ⟨rfl, ?_, rfl, trivial, ?_⟩
  · intro r hr
    simp only [List.mem_cons, List.not_mem_nil, or_false] at hr
    rcases hr with rfl | rfl | rfl | rfl | rfl | rfl <;> rfl
  · refine store_eqOn (fun x hx => Or.inr ?_)
    have hlo : 0x1000 + k ≤ x := hx.1
    omega

theorem sampleMachine_at {n : Nat} (hn : n = 0xff0) : InterruptedAt sampleStack sampleMachine n := by
  subst hn
  exact ⟨rfl, trivial, by decide, by decide⟩

/-- The sample program after a system call and after a page fault. -/
theorem sample_transparent :
    (∃ m, syscall identity clobber sampleMachine =
      some { cpu := sampleMachine.cpu.set .rax 42, mem := m }) ∧
    ∃ m, pageFault identity clobber 2 sampleMachine =
      some { cpu := sampleMachine.cpu, mem := m } := by
  constructor
  · obtain ⟨s₁, -, -, hresume⟩ := (interrupts_transparent sampleStack clobber sampleMachine
      3928).1 (sampleMachine_at rfl) (clobber_abi (by decide))
    have hreturn := hresume (clobbered s₁) rfl
    rw [clobbered_rax] at hreturn
    exact ⟨_, hreturn⟩
  · obtain ⟨s₁, -, -, -, hresume⟩ := (interrupts_transparent sampleStack clobber sampleMachine
      3912).2 2 (sampleMachine_at rfl) (clobber_abi (by decide))
    exact ⟨_, hresume (clobbered s₁) rfl⟩

end Sample

end Interrupt
end SysproKernel

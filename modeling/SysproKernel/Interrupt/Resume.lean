import SysproKernel.Interrupt.Stubs

/-!
# `Interrupt.Resume` — the two halves of a stub

`syscall_spec` and `pageFault_spec` take a C function as a whole. When the function is run step by step
the two halves of a stub are needed apart: up to the call the machine is on the interrupted stack, below
its frames, and from any machine the function may return with, the rest of the stub gives the program its
registers back.
-/

namespace SysproKernel
namespace Interrupt

open Lib.ByteMem Lib.X86

variable {tr : Mem → Nat → Nat → Option Nat} {cr3 : Nat} {Ok : Mem → Prop} {S : Stack tr cr3 Ok}
  {callee : Machine → Option Machine} {s s₁ s₂ : Machine} {k : Nat}

/-- Without a `call` in it, code does not depend on what a call does. -/
theorem run_callee {is : List Instr} (hcall : Instr.call ∉ is) (callee callee' : Machine → Option Machine)
    (s : Machine) : run tr callee is s = run tr callee' is s := by
  induction is generalizing s with
  | nil => rfl
  | cons i is ih =>
      rw [List.mem_cons, not_or] at hcall
      have hsame : exec tr callee s i = exec tr callee' s i := by
        cases i <;> first | rfl | exact absurd rfl hcall.1
      rw [run, run, hsame]
      exact congrArg _ (funext (ih hcall.2))

/-- Below the stack pointer there is room for the frames of a function. -/
theorem frame_spec (bs : List UInt8) (hat : S.At s k) (hroom : bs.length ≤ k) :
    vwrite tr s.mem s.cpu.cr3.toNat ((s.cpu.gpr .rsp).toNat - bs.length) bs s.mem
      = some (writeBytes s.mem (S.pbase + (k - bs.length)) bs) := by
  have hle := hat.le
  have hsp : (s.cpu.gpr .rsp).toNat - bs.length = S.vbase + (k - bs.length) := by
    rw [hat.sp, Stack.ptr_toNat hle]
    omega
  rw [hsp]
  exact vwrite_eq (hat.mapped (by omega))

/-- The C function that returns with `s₂` when it is called with `s₁`. -/
theorem single_abi {n : Nat} (habi : S.Abi k n s₁ s₂) :
    ∃ callee : Machine → Option Machine, callee s₁ = some s₂ ∧ CalleeAbi S callee k n := by
  classical
  refine ⟨fun x => if x = s₁ then some s₂ else none, if_pos rfl, ?_⟩
  intro x y _ hcall
  obtain ⟨rfl, rfl⟩ : x = s₁ ∧ s₂ = y := by simpa using hcall
  exact habi

/-! ## System calls -/

theorem syscallEntry_callee (callee callee' : Machine → Option Machine) (s : Machine) :
    syscallEntry tr callee s = syscallEntry tr callee' s :=
  congrArg (interrupt tr s).bind (funext (run_callee (by decide) callee callee'))

/-- What `syscall_handler` does after the call. -/
def syscallExit : List Instr := syscallRegs.reverse.map .pop ++ ([] ++ [.iretq])

/-- **Up to the call** of `syscall_handler_internal`. -/
theorem syscallEntry_at (callee : Machine → Option Machine) (hat : InterruptedAt S s (k + 152)) :
    ∃ s₁, syscallEntry tr callee s = some s₁ ∧ S.At s₁ k ∧ FramesBelow S k 152 s s₁
      ∧ (∀ r, r ≠ .rsp → s₁.cpu.gpr r = s.cpu.gpr r) := by
  obtain ⟨s₀, hint, hat₀, -⟩ := Stack.interrupt_spec (k := k + 112) hat
  obtain ⟨s₁, hpush, hat₁, -⟩ :=
    Stack.save_spec (fun _ => none) (k := k) (by decide : .rsp ∉ syscallRegs) hat₀
  have habi : CalleeAbi S (fun _ => none) k 152 := fun _ _ _ hcall => nomatch hcall
  obtain ⟨s₁', hentry, hframes, hgpr, -⟩ := syscall_spec hat habi
  have hsame : syscallEntry tr (fun _ => none) s = some s₁ := by
    rw [syscallEntry, hint, Option.bind_some, hpush]
  obtain rfl : s₁ = s₁' := Option.some.inj (hsame.symm.trans hentry)
  exact ⟨s₁, (syscallEntry_callee ..).trans hentry, hat₁, hframes, hgpr⟩

/-- **After the call.** -/
theorem syscallExit_spec (hat : InterruptedAt S s (k + 152)) (hentry : syscallEntry tr callee s = some s₁)
    (habi : S.Abi k 152 s₁ s₂) :
    run tr callee syscallExit s₂ = some { cpu := s.cpu.set .rax (s₂.cpu.gpr .rax), mem := s₂.mem } := by
  obtain ⟨f, hcall, hf⟩ := single_abi habi
  obtain ⟨s₁', hentry', -, -, hresume⟩ := syscall_spec hat hf
  have hsame : syscallEntry tr f s = some s₁ := (syscallEntry_callee ..).trans hentry
  obtain rfl : s₁ = s₁' := Option.some.inj (hsame.symm.trans hentry')
  rw [← hresume s₂ hcall, syscall, syscallHandler_eq, run_call hentry' hcall]
  exact run_callee (by decide) _ _ _

/-! ## Page faults -/

theorem pageFaultEntry_callee (callee callee' : Machine → Option Machine) (error : UInt64) (s : Machine) :
    pageFaultEntry tr callee error s = pageFaultEntry tr callee' error s :=
  congrArg (interruptWithError tr error s).bind (funext (run_callee (by decide) callee callee'))

/-- What `page_fault_handler` does after the call. -/
def pageFaultExit : List Instr := faultRegs.reverse.map .pop ++ ([.add 0x8 .rsp] ++ [.iretq])

/-- **Up to the call** of `page_fault_handler_internal`. -/
theorem pageFaultEntry_at (callee : Machine → Option Machine) (error : UInt64)
    (hat : InterruptedAt S s (k + 168)) :
    ∃ s₁, pageFaultEntry tr callee error s = some s₁ ∧ S.At s₁ k ∧ FramesBelow S k 168 s s₁
      ∧ vload tr s₁.mem s₁.cpu.cr3.toNat (s₁.cpu.gpr .rdi + 8 * 15).toNat 8 = some error.toNat := by
  obtain ⟨s₀, hint, hat₀, -⟩ := interruptWithError_spec (k := k + 120) error hat
  obtain ⟨s₁, hpush, hat₁, -⟩ :=
    Stack.save_spec (fun _ => none) (k := k) (by decide : .rsp ∉ faultRegs) hat₀
  have habi : CalleeAbi S (fun _ => none) k 168 := fun _ _ _ hcall => nomatch hcall
  obtain ⟨s₁', hentry, hframes, hword, -⟩ := pageFault_spec error hat habi
  have hsame : pageFaultEntry tr (fun _ => none) error s
      = some { s₁ with cpu := s₁.cpu.set .rdi (s₁.cpu.gpr .rsp) } := by
    rw [pageFaultEntry, hint, Option.bind_some, run_append, hpush]
    rfl
  have hat : S.At { s₁ with cpu := s₁.cpu.set .rdi (s₁.cpu.gpr .rsp) } k :=
    ⟨hat₁.root, hat₁.ok, (Cpu.set_gpr_ne _ (by decide) _).trans hat₁.sp, hat₁.le⟩
  rw [Option.some.inj (hsame.symm.trans hentry)] at hat
  exact ⟨s₁', (pageFaultEntry_callee ..).trans hentry, hat, hframes, hword⟩

/-- **After the call.** -/
theorem pageFaultExit_spec (error : UInt64) (hat : InterruptedAt S s (k + 168))
    (hentry : pageFaultEntry tr callee error s = some s₁) (habi : S.Abi k 168 s₁ s₂) :
    run tr callee pageFaultExit s₂ = some { cpu := s.cpu, mem := s₂.mem } := by
  obtain ⟨f, hcall, hf⟩ := single_abi habi
  obtain ⟨s₁', hentry', -, -, hresume⟩ := pageFault_spec error hat hf
  have hsame : pageFaultEntry tr f error s = some s₁ := (pageFaultEntry_callee ..).trans hentry
  obtain rfl : s₁ = s₁' := Option.some.inj (hsame.symm.trans hentry')
  rw [← hresume s₂ hcall, pageFault, pageFaultHandler_eq, run_call hentry' hcall]
  exact run_callee (by decide) _ _ _

end Interrupt
end SysproKernel

import SysproKernel.Interrupt.Resume
import SysproKernel.Kernel.Finish

/-!
# `Kernel.Calls` — what one interrupt does to an application

For each cause, what its handler does from the entry to `iretq` on a machine that is in order: a timer
interrupt is `timerInterrupt`, a system call prints its message and comes back with a result
(`handles_syscall`), a page fault on the additional page comes back with the page mapped in task 0
(`handles_pageFault`), and any other page fault does not come back. Apart from that only the console's
memory changes and what lies within the reach of the frames below the interrupted stack pointer.

The same for every way a handler can take: from every entry it leaves (`timer_ends`, `syscall_ends`,
`pageFault_ends`), or spins without getting stuck (`pageFault_unstuck`).
-/

namespace SysproKernel
namespace Kernel

open Lib.ByteMem Lib.Loop Lib.Windows Lib.X86 Lib.Handlers Memory Sched Interrupt Terminal

variable {L : TableLayout shipped} {V : SchedVars L} {progs : Nat → Program} {τ : Forest} {depth c : Nat}
  {h : Handler} {p : Point} {s s' s₀ s₁ : Machine} {w : List Int8}

/-! ## Address spaces with and without the additional page -/

theorem gives_faultForest : Gives faultForest := by
  intro t ht v hv hoff
  rw [translate_faultForest ht (by omega), lookup_faultWindows, if_neg (fun h => hoff h.2)]

/-- Tables that give every task its windows. -/
def Served (L : TableLayout shipped) (m : Mem) : Prop := ∃ τ, Gives τ ∧ Represents L m τ

theorem served_of_inOrder {m : Mem} (h : InOrder V τ m c) : Served L m := ⟨τ, h.gives, h.tables⟩

theorem Served.maps_window {m : Mem} (h : Served L m) (hc : c < nTasks) :
    ∀ k < 0x1000000, translate m (L.addr (.PML4s c)) (0x40000000 + k) = some (getTaskPhysAddr c + k) := by
  obtain ⟨τ, hτ, htables⟩ := h
  exact hτ.maps_window htables hc

theorem Served.congr {m m' : Mem} (h : Served L m) (heq : Set.EqOn m' m L.bytes) : Served L m' := by
  obtain ⟨τ, hτ, htables⟩ := h
  exact ⟨τ, hτ, htables.congr heq⟩

theorem tables_outside_window (V : SchedVars L) (hc : c < nTasks) {x : Nat} (hx : x ∈ L.bytes) :
    x < getTaskPhysAddr c ∨ getTaskPhysAddr c + 0x1000000 ≤ x := by
  have hin := V.inKernel_bytes hx
  have hphys := getTaskPhysAddr_eq hc
  omega

theorem window_below : 0x40000000 + 0x1000000 < 2 ^ 64 := by decide

/-- The window of a task as a stack, whatever happens to the additional page. -/
def appStack (V : SchedVars L) (hc : c < nTasks) :
    Stack translate (L.addr (.PML4s c)) (Served L) where
  vbase := 0x40000000
  pbase := getTaskPhysAddr c
  len := 0x1000000
  below := window_below
  maps _ h := h.maps_window hc
  keeps _ _ h heq := h.congr (heq.mono fun _ hx => tables_outside_window V hc hx)

/-- The window of task `c` in physical memory. -/
def windowOf (c : Nat) : Set Nat := Set.Ico (getTaskPhysAddr c) (getTaskPhysAddr c + 0x1000000)

/-- Where the frames of an interrupt end, in physical memory. -/
def stackTop (c : Nat) (cpu : Cpu) : Nat :=
  getTaskPhysAddr c + ((align16 (cpu.gpr .rsp)).toNat - 0x40000000)

/-- Only within the reach of the frames is memory different. -/
def Framing (depth c : Nat) (s : Machine) (m : Mem) : Prop :=
  ∀ x, (x + reach depth < stackTop c s.cpu ∨ stackTop c s.cpu ≤ x) → m x = s.mem x

theorem interruptedAt (horder : InOrder V τ s.mem c) (hroot : s.cpu.cr3.toNat = L.addr (.PML4s c))
    (hroom : HasRoom depth s) :
    InterruptedAt (appStack V horder.lt) s ((align16 (s.cpu.gpr .rsp)).toNat - 0x40000000) := by
  obtain ⟨hlo, hhi⟩ := hroom
  have hle : (align16 (s.cpu.gpr .rsp)).toNat - 0x40000000 ≤ 0x1000000 := by omega
  refine ⟨hroot, served_of_inOrder horder, ?_, hle⟩
  apply UInt64.toNat_inj.mp
  rw [Cpu.set_gpr_self, Stack.ptr_toNat (S := appStack V horder.lt) hle]
  show _ = 0x40000000 + _
  omega

/-! ## Timer interrupts -/

theorem callC_eq {noise : CallNoise} {f : Nat → UInt64 → Mem → Option (UInt64 × Mem)} {m m' : Mem}
    {res : UInt64}
    (hframe : vwrite translate s.mem s.cpu.cr3.toNat ((s.cpu.gpr .rsp).toNat - noise.frame.length)
      noise.frame s.mem = some m)
    (hf : f s.cpu.cr3.toNat (s.cpu.gpr .rdi) m = some (res, m')) :
    callC noise f s = some (returned noise res m' s) := by
  simp only [callC, hframe, hf, Option.bind_eq_bind, Option.bind_some]
  rfl

/-- What `lapic_intr_handler` does before and after its call. -/
def timerEntry : List Instr := generalRegs.map .push ++ [.mov .rsp .rdi]

def timerExit : List Instr :=
  [.load 0x0 .rax .rsp, .load 0x8 .rax .rbx, .movCr3 .rbx] ++ generalRegs.reverse.map .pop

theorem lapicIntrHandler_split :
    lapicIntrHandler = timerEntry ++ (.call :: (timerExit ++ [.iretq])) := rfl

/-- **A timer interrupt** is `timerInterrupt`, and prints nothing. -/
theorem handles_timer (hdl : Handles (system V progs depth) .timer s w s') :
    w = [] ∧ ∃ noise : CallNoise, noise.frame.length ≤ depth ∧ timerInterrupt V noise s = some s' := by
  obtain ⟨-, -, p, s₀, henter, hfin⟩ := handles_iff.mp hdl
  cases henter with
  | @timer h _ _ hlen hcallee hint =>
      let callee := callC h.noise (lapicIntrHandlerInternal (schedule V))
      rw [lapicIntrHandler_split, finishes_run callee (by decide)] at hfin
      obtain ⟨s₁, hentry, hfin⟩ := hfin
      obtain ⟨m, hframe, hfin⟩ := finishes_call.mp hfin
      rw [hcallee] at hfin
      obtain ⟨res, m', hf, hfin⟩ := finishes_ret.mp hfin
      obtain ⟨rfl, hexit⟩ := (finishes_end callee (by decide)).mp hfin
      have hcall : callee s₁ = some (returned h.noise res m' s₁) := callC_eq hframe hf
      have hpush : (interrupt translate s).bind (run translate callee timerEntry) = some s₁ := by
        rw [hint, Option.bind_some, hentry]
      refine ⟨rfl, h.noise, hlen, ?_⟩
      rw [timerInterrupt, lapicIntrHandler_split, run_call hpush hcall]
      exact hexit

/-- Every way of the handler is the one of `timerInterrupt`. -/
theorem timer_ends (henter : Enter V depth .timer s p s₀)
    (htick : ∀ noise : CallNoise, noise.frame.length ≤ depth → ∃ s', timerInterrupt V noise s = some s') :
    Ends (system V progs depth) p s₀ := by
  cases henter with
  | @timer h _ _ hlen hcallee hint =>
      let callee := callC h.noise (lapicIntrHandlerInternal (schedule V))
      -- the one way `timerInterrupt` takes, cut at the call
      obtain ⟨s', htick⟩ := htick h.noise hlen
      obtain ⟨s₀', hint', hrun⟩ := Option.bind_eq_some_iff.mp htick
      obtain rfl : s₀ = s₀' := Option.some.inj (hint.symm.trans hint')
      rw [lapicIntrHandler_split, run_append] at hrun
      obtain ⟨s₁, hentry, hrun⟩ := Option.bind_eq_some_iff.mp hrun
      obtain ⟨s₂, hcall, hexit⟩ := Option.bind_eq_some_iff.mp hrun
      obtain ⟨m, hframe, hcall⟩ := Option.bind_eq_some_iff.mp hcall
      obtain ⟨⟨res, m'⟩, hf, hs₂⟩ := Option.bind_eq_some_iff.mp hcall
      rw [← Option.some.inj hs₂] at hexit
      rw [lapicIntrHandler_split]
      refine backward_run Ends.backward callee (by decide) hentry (backward_call Ends.backward hframe ?_)
      rw [hcallee]
      exact backward_ret Ends.backward hf (ends_end callee (by decide) hexit)

/-- A C function that leaves no frame and clears the registers it need not preserve. -/
def plainHandler (callee : Machine → Code) : Handler :=
  ⟨{ frame := [], regs := fun _ => 0, rflags := 0 }, callee, UInt64.zero_and⟩

/-! ## Inside a handler -/

/-- The stub goes one way only, from `p` into the C function at `p'`. -/
structure LeadsTo (V : SchedVars L) (progs : Nat → Program) (depth : Nat) (p : Point) (s : Machine)
    (p' : Point) (s' : Machine) : Prop where
  finishes : ∀ w s₂, Finishes V progs depth p s w s₂ ↔ Finishes V progs depth p' s' w s₂
  backward : ∀ P, Backward (system V progs depth) P → P p' s' → P p s

theorem leadsTo_call {is js : List Instr} {m : Mem} (hplain : Plain is)
    (hrun : run translate (fun _ => none) is s = some s₁)
    (hframe : vwrite translate s₁.mem s₁.cpu.cr3.toNat ((s₁.cpu.gpr .rsp).toNat - h.noise.frame.length)
      h.noise.frame s₁.mem = some m) :
    LeadsTo V progs depth (.stub h (is ++ .call :: js)) s
      (.code h (h.callee { s₁ with mem := m }) js) { s₁ with mem := m } where
  finishes w s₂ := by
    rw [finishes_run (fun _ => none) hplain, hrun]
    simp only [Option.some.injEq, exists_eq_left', finishes_call, hframe]
  backward P hP hrest := backward_run hP _ hplain hrun (backward_call hP hframe hrest)

/-- The C function of a handler begins in `s₁`. When it returns with the application's window as it is,
    the application continues with the registers `result` makes of its result. -/
structure Inside (L : TableLayout shipped) (depth c : Nat) (s : Machine) (h : Handler) (exit : List Instr)
    (result : UInt64 → Cpu) (s₁ : Machine) : Prop where
  root : s₁.cpu.cr3.toNat = L.addr (.PML4s c)
  framing : Framing depth c s s₁.mem
  stub : ∃ is, Plain is ∧ exit = is ++ [.iretq]
  exits : ∀ res m, Served L m → Set.EqOn m s₁.mem (windowOf c) →
    run translate (fun _ => none) exit (returned h.noise res m s₁) = some { cpu := result res, mem := m }

section

variable {exit : List Instr} {result : UInt64 → Cpu} {res : UInt64} {m : Mem}

theorem Inside.finishes (hin : Inside L depth c s h exit result s₁) (hserved : Served L m)
    (hwin : Set.EqOn m s₁.mem (windowOf c)) :
    Finishes V progs depth (.stub h exit) (returned h.noise res m s₁) w s' ↔
      w = [] ∧ { cpu := result res, mem := m } = s' := by
  have hexit := hin.exits res m hserved hwin
  obtain ⟨is, hplain, rfl⟩ := hin.stub
  rw [finishes_end (fun _ => none) hplain, hexit, Option.some.injEq]

theorem Inside.ends (hin : Inside L depth c s h exit result s₁) (hserved : Served L m)
    (hwin : Set.EqOn m s₁.mem (windowOf c)) :
    Ends (system V progs depth) (.stub h exit) (returned h.noise res m s₁) := by
  have hexit := hin.exits res m hserved hwin
  obtain ⟨is, hplain, rfl⟩ := hin.stub
  exact ends_end (fun _ => none) hplain hexit

end

/-- What a handler writes before its C function begins. -/
theorem framing_of {k n : Nat} {m : Mem} {bs : List UInt8} (hn : n ≤ 168)
    (htop : (align16 (s.cpu.gpr .rsp)).toNat - 0x40000000 = k + n) (hlen : bs.length ≤ depth)
    (hroom : bs.length ≤ k) (hframes : Set.EqOn m s.mem (outside (getTaskPhysAddr c + k) n)) :
    Framing depth c s (writeBytes m (getTaskPhysAddr c + (k - bs.length)) bs) := by
  intro x hx
  unfold stackTop reach at hx
  rw [htop] at hx
  rw [writeBytes_outside (by omega)]
  refine hframes (show x < getTaskPhysAddr c + k ∨ getTaskPhysAddr c + k + n ≤ x by omega)

theorem returned_rax (noise : CallNoise) (res : UInt64) (m : Mem) (s : Machine) :
    (returned noise res m s).cpu.gpr .rax = res := by
  simp [returned]

theorem returned_saved (noise : CallNoise) (res : UInt64) (m : Mem) (s : Machine) {r : Reg}
    (hr : r ∉ callerSaved) : (returned noise res m s).cpu.gpr r = s.cpu.gpr r := by
  have hne : r ≠ .rax := fun h => hr (h ▸ by decide)
  simp [returned, hne, hr]

/-- A C function returns as the ABI wants it to, as long as the window stays as it is. -/
theorem returned_abi {hc : c < nTasks} {k n : Nat} {noise : CallNoise} {res : UInt64} {m m₁ : Mem}
    (hkn : k + n ≤ 0x1000000) (hroom : noise.frame.length ≤ k)
    (hserved : Served L m)
    (hframe : m₁ = writeBytes s₁.mem (getTaskPhysAddr c + (k - noise.frame.length)) noise.frame)
    (hwin : Set.EqOn m m₁ (windowOf c)) :
    (appStack V hc).Abi k n s₁ (returned noise res m s₁) := by
  refine ⟨returned_saved _ _ _ _ (by decide), ?_, rfl, hserved, ?_⟩
  · intro r hr
    refine returned_saved _ _ _ _ (fun hmem => ?_)
    revert hr hmem
    cases r <;> decide
  · rintro x ⟨hlo, hhi⟩
    have hlo' : getTaskPhysAddr c + k ≤ x := hlo
    have hhi' : x < getTaskPhysAddr c + k + n := hhi
    have hin : x ∈ windowOf c := ⟨by omega, by omega⟩
    show m x = s₁.mem x
    rw [hwin hin, hframe, writeBytes_outside (by omega)]

/-- **Into a system call.** -/
theorem syscall_inside (horder : InOrder V τ s.mem c) (hroot : s.cpu.cr3.toNat = L.addr (.PML4s c))
    (hroom : HasRoom depth s) (hlen : h.noise.frame.length ≤ depth) :
    ∃ s₀ s₁, interrupt translate s = some s₀ ∧
      Inside L depth c s h syscallExit (fun res => s.cpu.set .rax res) s₁ ∧
      (∀ r, r ≠ .rsp → s₁.cpu.gpr r = s.cpu.gpr r) ∧
      ∀ progs, LeadsTo V progs depth (.stub h syscallHandler) s₀
        (.code h (h.callee s₁) syscallExit) s₁ := by
  obtain ⟨hlo, hhi⟩ := hroom
  have hreach : reach depth = 168 + depth := rfl
  -- five words of the processor and the fourteen of the stub
  obtain ⟨k, hk⟩ : ∃ k, (align16 (s.cpu.gpr .rsp)).toNat - 0x40000000 = k + 152 :=
    ⟨(align16 (s.cpu.gpr .rsp)).toNat - 0x40000000 - 152, by omega⟩
  have hat := interruptedAt horder hroot ⟨hlo, hhi⟩
  rw [hk] at hat
  obtain ⟨s₁, hentry, hat₁, hframes, hgpr⟩ := syscallEntry_at (fun _ => none) hat
  obtain ⟨s₀, hint, hpush⟩ := Option.bind_eq_some_iff.mp hentry
  have hwrite := frame_spec h.noise.frame hat₁ (by omega)
  let m₁ := writeBytes s₁.mem (getTaskPhysAddr c + (k - h.noise.frame.length)) h.noise.frame
  refine ⟨s₀, { s₁ with mem := m₁ }, hint,
    ⟨hat₁.root, ?_, ⟨syscallRegs.reverse.map .pop, by decide, rfl⟩, ?_⟩, hgpr, ?_⟩
  · exact framing_of (by omega) hk hlen (by omega) hframes.rest
  · intro res m hserved hwin
    have habi : (appStack V horder.lt).Abi k 152 s₁ (returned h.noise res m s₁) :=
      returned_abi (by omega) (by omega) hserved rfl hwin
    show run translate _ syscallExit (returned h.noise res m s₁) = _
    rw [syscallExit_spec hat hentry habi, returned_rax]
    rfl
  · have hsplit : syscallHandler = syscallRegs.map .push ++ (.call :: syscallExit) := rfl
    rw [hsplit]
    exact fun _ => leadsTo_call (by decide) hpush hwrite

/-- The C function of a system call has the arguments the application has left in `rdi` and `rsi`. -/
theorem Enter.syscall_called (henter : Enter V depth .syscall s p s₀) (horder : InOrder V τ s.mem c)
    (hroot : s.cpu.cr3.toNat = L.addr (.PML4s c)) (hroom : HasRoom depth s) :
    ∃ h s₁, Inside L depth c s h syscallExit (fun res => s.cpu.set .rax res) s₁ ∧
      ∀ progs, LeadsTo V progs depth p s₀
        (.code h (syscallHandlerInternal (h.noise.regs .rax) (s.cpu.gpr .rdi) (s.cpu.gpr .rsi))
          syscallExit) s₁ := by
  cases henter with
  | @syscall h _ _ hlen hcallee hint =>
      obtain ⟨s₀', s₁, hint', hin, hgpr, hstub⟩ := syscall_inside horder hroot hroom hlen
      obtain rfl : s₀ = s₀' := Option.some.inj (hint.symm.trans hint')
      have hcalled := congrFun hcallee s₁
      rw [hgpr .rdi (by decide), hgpr .rsi (by decide)] at hcalled
      rw [hcalled] at hstub
      exact ⟨h, s₁, hin, hstub⟩

/-- **Into a page fault.** -/
theorem pageFault_inside (error : UInt64) (horder : InOrder V τ s.mem c)
    (hroot : s.cpu.cr3.toNat = L.addr (.PML4s c)) (hroom : HasRoom depth s)
    (hlen : h.noise.frame.length ≤ depth) :
    ∃ s₀ s₁, interruptWithError translate error s = some s₀ ∧
      Inside L depth c s h pageFaultExit (fun _ => s.cpu) s₁ ∧
      ∀ progs, LeadsTo V progs depth (.stub h pageFaultHandler) s₀
        (.code h (h.callee s₁) pageFaultExit) s₁ := by
  obtain ⟨hlo, hhi⟩ := hroom
  have hreach : reach depth = 168 + depth := rfl
  -- five words of the processor, the error code and the fifteen words of the stub
  obtain ⟨k, hk⟩ : ∃ k, (align16 (s.cpu.gpr .rsp)).toNat - 0x40000000 = k + 168 :=
    ⟨(align16 (s.cpu.gpr .rsp)).toNat - 0x40000000 - 168, by omega⟩
  have hat := interruptedAt horder hroot ⟨hlo, hhi⟩
  rw [hk] at hat
  obtain ⟨s₁, hentry, hat₁, hframes, -⟩ := pageFaultEntry_at (fun _ => none) error hat
  obtain ⟨s₀, hint, hpush⟩ := Option.bind_eq_some_iff.mp hentry
  have hwrite := frame_spec h.noise.frame hat₁ (by omega)
  let m₁ := writeBytes s₁.mem (getTaskPhysAddr c + (k - h.noise.frame.length)) h.noise.frame
  refine ⟨s₀, { s₁ with mem := m₁ }, hint,
    ⟨hat₁.root, ?_, ⟨faultRegs.reverse.map .pop ++ [.add 0x8 .rsp], by decide, rfl⟩, ?_⟩, ?_⟩
  · exact framing_of (by omega) hk hlen (by omega) hframes.rest
  · intro res m hserved hwin
    have habi : (appStack V horder.lt).Abi k 168 s₁ (returned h.noise res m s₁) :=
      returned_abi (by omega) (by omega) hserved rfl hwin
    exact pageFaultExit_spec error hat hentry habi
  · have hsplit : pageFaultHandler =
        (faultRegs.map .push ++ [.mov .rsp .rdi]) ++ (.call :: pageFaultExit) := rfl
    rw [hsplit]
    exact fun _ => leadsTo_call (by decide) hpush hwrite

/-- The C function of a page fault has the faulting address. -/
theorem Enter.pageFault_called {addr : Nat} (henter : Enter V depth (.pageFault addr) s p s₀)
    (horder : InOrder V τ s.mem c) (hroot : s.cpu.cr3.toNat = L.addr (.PML4s c))
    (hroom : HasRoom depth s) :
    ∃ h s₁, Inside L depth c s h pageFaultExit (fun _ => s.cpu) s₁ ∧
      ∀ progs, LeadsTo V progs depth p s₀
        (.code h (pageFaultCode L (argument s₁) addr (h.noise.regs .rax) s₁.mem) pageFaultExit) s₁ := by
  cases henter with
  | @pageFault h _ _ _ error hlen hcanon hnone hcallee hint =>
      obtain ⟨s₀', s₁, hint', hin, hstub⟩ := pageFault_inside error horder hroot hroom hlen
      obtain rfl : s₀ = s₀' := Option.some.inj (hint.symm.trans hint')
      rw [congrFun hcallee s₁] at hstub
      exact ⟨h, s₁, hin, hstub⟩

/-! ## What is left alone -/

/-- Only the console's memory and what lies within the reach of the frames is different. -/
def Spares (V : SchedVars L) (depth c : Nat) (s : Machine) (m : Mem) : Prop :=
  ∀ x, x ∉ consoleBytes V → (x + reach depth < stackTop c s.cpu ∨ stackTop c s.cpu ≤ x) → m x = s.mem x

theorem spares_of_prints {m : Mem} (hframing : Framing depth c s s₁.mem) (hprints : Prints V s₁.mem m) :
    Spares V depth c s m :=
  fun x hx hframes => (hprints x hx).trans (hframing x hframes)

/-- The frames lie in the window. -/
theorem window_of_frames {x : Nat} (hroom : HasRoom depth s)
    (hx : ¬ (x + reach depth < stackTop c s.cpu ∨ stackTop c s.cpu ≤ x)) : x ∈ windowOf c := by
  obtain ⟨hlo, hhi⟩ := hroom
  unfold stackTop at hx
  exact ⟨by omega, by omega⟩

theorem console_notMem_window (hc : c < nTasks) {x : Nat} (hx : x ∈ windowOf c) :
    x ∉ consoleBytes V := by
  obtain ⟨hlo, hhi⟩ := hx
  have hphys := getTaskPhysAddr_eq hc
  rintro (⟨-, hend, -⟩ | ⟨-, hend⟩) <;> omega

theorem bytes_notMem_window (hc : c < nTasks) {x : Nat} (hx : x ∈ V.bytes) : x ∉ windowOf c := by
  obtain ⟨hlo, hhi⟩ := V.bytes_inKernel hx
  have hphys := getTaskPhysAddr_eq hc
  rintro ⟨hlo', -⟩
  omega

theorem bytes_notMem_console {x : Nat} (hx : x ∈ V.bytes) : x ∉ consoleBytes V := by
  obtain ⟨hlo, hhi⟩ := V.bytes_inKernel hx
  rintro (⟨-, -, hout⟩ | ⟨-, hend⟩)
  · exact hout hx
  · omega

theorem Spares.inOrder {m : Mem} (hspares : Spares V depth c s m) (hroom : HasRoom depth s)
    (horder : InOrder V τ s.mem c) : InOrder V τ m c := by
  refine horder.congr (fun x hx => hspares x (bytes_notMem_console hx) ?_)
  by_contra hframes
  exact bytes_notMem_window horder.lt hx (window_of_frames hroom hframes)

/-- A byte of the window that the application still needs. -/
theorem Spares.window {m : Mem} {v : Nat} (hspares : Spares V depth c s m) (hc : c < nTasks)
    (hroom : HasRoom depth s) (hv : InWindow v) (hdead : ¬ Dead depth s.cpu v) :
    window m c v = Sched.window s.mem c v := by
  obtain ⟨hlo, hhi⟩ := hv
  obtain ⟨hbottom, htop⟩ := hroom
  have hle := align16_le (s.cpu.gpr .rsp)
  unfold Dead at hdead
  refine hspares _ (console_notMem_window hc ⟨by omega, by omega⟩) ?_
  unfold stackTop
  omega

/-! ## System calls -/

theorem charAt_window (horder : InOrder V τ s.mem c) (hroot : s.cpu.cr3.toNat = L.addr (.PML4s c))
    {v : Nat} (hv : InWindow v) : charAt s v = some (window s.mem c v).toInt8 := by
  obtain ⟨hlo, hhi⟩ := hv
  have hmaps := horder.gives.maps_window horder.tables horder.lt (v - 0x40000000) (by omega)
  rw [Nat.add_sub_cancel' hlo, ← hroot] at hmaps
  rw [charAt, hmaps]
  rfl

/-- Inside the C function the string is still what the application has passed. -/
theorem stringAt_of_passes {text : List Int8} {exit : List Instr} {result : UInt64 → Cpu}
    (horder : InOrder V τ s.mem c) (hroot : s.cpu.cr3.toNat = L.addr (.PML4s c)) (hroom : HasRoom depth s)
    (hin : Inside L depth c s h exit result s₁) (hpass : Passes depth s text) :
    StringAt V s₁ (s.cpu.gpr .rsi).toNat text := by
  have hsame : ∀ m, Prints V s₁.mem m → ∀ j ≤ text.length,
      charAt { s₁ with mem := m } ((s.cpu.gpr .rsi).toNat + j) =
        charAt s ((s.cpu.gpr .rsi).toNat + j) := by
    intro m hm j hj
    obtain ⟨hwin, hdead⟩ := hpass.own j hj
    have hspares := spares_of_prints hin.framing hm
    rw [charAt_window horder hroot hwin,
      charAt_window (s := { s₁ with mem := m }) (hspares.inOrder hroom horder) hin.root hwin,
      hspares.window horder.lt hroom hwin hdead]
  refine ⟨fun m hm j hj => ?_, hpass.nonzero, fun m hm => ?_⟩
  · rw [hsame m hm j (by omega), hpass.chars j hj]
  · rw [hsame m hm text.length (Nat.le_refl _), hpass.nul]

/-- What a system call amounts to: `puts` prints the string it is passed and returns 0; for an unknown
    number a message is printed, and the result is arbitrary. -/
structure Answered (V : SchedVars L) (depth c : Nat) (s : Machine) (w : List Int8) (s' : Machine) :
    Prop where
  said : (s.cpu.gpr .rdi = syscallIdPuts ∧ Passes depth s w ∧ s'.cpu = s.cpu.set .rax 0) ∨
    (s.cpu.gpr .rdi ≠ syscallIdPuts ∧ w = outsText (unknownSyscall (s.cpu.gpr .rdi)) ∧
      ∃ r, s'.cpu = s.cpu.set .rax r)
  mem : Spares V depth c s s'.mem

/-- Printing leaves the tables and the window alone. -/
theorem Inside.printed {m : Mem} {exit : List Instr} {result : UInt64 → Cpu}
    (hin : Inside L depth c s h exit result s₁) (horder : InOrder V τ s.mem c) (hroom : HasRoom depth s)
    (hm : Prints V s₁.mem m) : Served L m ∧ Set.EqOn m s₁.mem (windowOf c) :=
  ⟨served_of_inOrder ((spares_of_prints hin.framing hm).inOrder hroom horder),
    fun x hx => hm x (console_notMem_window horder.lt hx)⟩

/-- The end of a C function that only returns a result. -/
theorem finishes_result {m : Mem} {exit : List Instr} {result : UInt64 → Cpu} {res : UInt64}
    (horder : InOrder V τ s.mem c) (hroom : HasRoom depth s) (hin : Inside L depth c s h exit result s₁)
    (hm : Prints V s₁.mem m)
    (hfin : Finishes V progs depth (.code h (.ret fun _ m => some (res, m)) exit) { s₁ with mem := m }
      w s') : w = [] ∧ { cpu := result res, mem := m } = s' := by
  obtain ⟨hserved, hwin⟩ := hin.printed horder hroom hm
  obtain ⟨_, _, hf, hfin⟩ := finishes_ret.mp hfin
  cases hf
  exact (hin.finishes hserved hwin).mp hfin

theorem ends_result {m : Mem} {exit : List Instr} {result : UInt64 → Cpu} {res : UInt64}
    (horder : InOrder V τ s.mem c) (hroom : HasRoom depth s) (hin : Inside L depth c s h exit result s₁)
    (hm : Prints V s₁.mem m) :
    Ends (system V progs depth) (.code h (.ret fun _ m => some (res, m)) exit) { s₁ with mem := m } := by
  obtain ⟨hserved, hwin⟩ := hin.printed horder hroom hm
  exact backward_ret Ends.backward rfl (hin.ends hserved hwin)

/-- **A system call.** -/
theorem handles_syscall (horder : InOrder V τ s.mem c) (hroot : s.cpu.cr3.toNat = L.addr (.PML4s c))
    (hdl : Handles (system V progs depth) .syscall s w s') : Answered V depth c s w s' := by
  obtain ⟨-, ⟨hroom, hpass⟩, p, s₀, henter, hfin⟩ := handles_iff.mp hdl
  obtain ⟨h, s₁, hin, hstub⟩ := henter.syscall_called horder hroot hroom
  rw [(hstub progs).finishes] at hfin
  by_cases hputs : s.cpu.gpr .rdi = syscallIdPuts
  · obtain ⟨text, htext⟩ := hpass rfl hputs
    rw [syscallHandlerInternal, if_pos hputs] at hfin
    obtain ⟨m, w', rfl, hprints, hfin⟩ :=
      finishes_puts (stringAt_of_passes horder hroot hroom hin htext) hfin
    obtain ⟨rfl, rfl⟩ := finishes_result horder hroom hin hprints hfin
    rw [List.append_nil]
    exact ⟨.inl ⟨hputs, htext, rfl⟩, spares_of_prints hin.framing hprints⟩
  · rw [syscallHandlerInternal, if_neg hputs] at hfin
    obtain ⟨m, w', rfl, hprints, hfin⟩ := finishes_print hfin
    obtain ⟨rfl, rfl⟩ := finishes_result horder hroom hin hprints hfin
    rw [List.append_nil]
    exact ⟨.inr ⟨hputs, rfl, _, rfl⟩, spares_of_prints hin.framing hprints⟩

/-- **System calls come back**, from every entry. -/
theorem syscall_ends (horder : InOrder V τ s.mem c) (hroot : s.cpu.cr3.toNat = L.addr (.PML4s c))
    (hbehaves : Behaves depth .syscall s) (henter : Enter V depth .syscall s p s₀) :
    Ends (system V progs depth) p s₀ := by
  obtain ⟨hroom, hpass⟩ := hbehaves
  obtain ⟨h, s₁, hin, hstub⟩ := henter.syscall_called horder hroot hroom
  refine (hstub progs).backward _ Ends.backward ?_
  by_cases hputs : s.cpu.gpr .rdi = syscallIdPuts
  · obtain ⟨text, htext⟩ := hpass rfl hputs
    rw [syscallHandlerInternal, if_pos hputs]
    exact backward_puts Ends.backward (stringAt_of_passes horder hroot hroom hin htext)
      (fun m hm => ends_result horder hroom hin hm)
  · rw [syscallHandlerInternal, if_neg hputs]
    exact backward_print Ends.backward (fun m hm => ends_result horder hroom hin hm)

theorem syscall_enters (horder : InOrder V τ s.mem c) (hroot : s.cpu.cr3.toNat = L.addr (.PML4s c))
    (hroom : HasRoom depth s) : ∃ p s₀, Enter V depth .syscall s p s₀ := by
  let h := plainHandler fun s => syscallHandlerInternal 0 (s.cpu.gpr .rdi) (s.cpu.gpr .rsi)
  obtain ⟨s₀, s₁, hint, -⟩ :=
    syscall_inside (h := h) horder hroot hroom (Nat.zero_le depth)
  exact ⟨_, s₀, .syscall (h := h) (Nat.zero_le depth) rfl hint⟩

/-! ## Page faults -/

/-- What the handler prints when it maps the page. -/
def mappingText : List Int8 := outsText [.puts "! kernel: mapping additional page\n"]

theorem initEntry_eqOn {m m' : Mem} {T : TableId} {k a : Nat} (hT : T.Valid shipped)
    (hk : k < nPagesInTable) (hok : initEntry m (L.slot T k) a = .ok m') :
    ∀ x, x ∉ L.bytes → m' x = m x := by
  obtain ⟨page, -, hok⟩ := of_bind_ok hok
  cases hok
  intro x hx
  refine store_outside ?_
  by_contra hslot
  exact hx (slot_range hT hk ⟨by omega, by omega⟩)

/-- On the additional page the handler prints its line, returns, and writes into the tables only. -/
theorem handler_effect {m : Mem} {sp : Nat → Nat} {cr2 : Nat} {o : FaultOutcome} (hpage : OnPage cr2)
    (hok : pageFaultHandlerInternal L m sp cr2 = .ok o) :
    outsText o.out = mappingText ∧ ∀ x, x ∉ L.bytes → o.mem x = m x := by
  have hin : additionalPageStart ≤ cr2 ∧ cr2 < additionalPageStart + pageLen := hpage
  rw [pageFaultHandlerInternal, if_pos hin] at hok
  obtain ⟨_, -, hok⟩ := of_bind_ok hok
  obtain ⟨m₁, hok₁, hok⟩ := of_bind_ok hok
  obtain ⟨m₂, hok₂, hok⟩ := of_bind_ok hok
  obtain ⟨m₃, hok₃, hok⟩ := of_bind_ok hok
  cases hok
  have hPDP : TableId.Valid shipped (.PDPs 0) := show 0 < nTasks by decide
  refine ⟨rfl, fun x hx => ?_⟩
  rw [← initEntry_eqOn (T := .additionalPT) trivial (by decide) hok₁ x hx,
    ← initEntry_eqOn (T := .additionalPD) trivial (by decide) hok₂ x hx]
  exact initEntry_eqOn hPDP (by decide) hok₃ x hx

/-- What a page fault amounts to: the page is mapped in task 0, and only the tables, the console's memory
    and the reach of the frames are different. -/
structure Mapped (V : SchedVars L) (depth c : Nat) (s : Machine) (w : List Int8) (s' : Machine) :
    Prop where
  text : w = mappingText
  cpu : s'.cpu = s.cpu
  tables : Represents L s'.mem faultForest
  mem : ∀ x, x ∉ L.bytes → x ∉ consoleBytes V →
    (x + reach depth < stackTop c s.cpu ∨ stackTop c s.cpu ≤ x) → s'.mem x = s.mem x

theorem Spares.tablesMapped {m : Mem} (hspares : Spares V depth c s m) (hc : c < nTasks)
    (hroom : HasRoom depth s) (hmapped : TablesMapped L s.mem) : TablesMapped L m := by
  have heq : Set.EqOn m s.mem L.bytes := fun x hx => hspares x (bytes_notMem_console (.inl hx)) (by
    by_contra hframes
    exact bytes_notMem_window (V := V) hc (.inl hx) (window_of_frames hroom hframes))
  exact hmapped.imp (fun h => h.congr heq) (fun h => h.congr heq)

/-- A fault on the page: a line is printed, and the function returns with the page mapped. -/
theorem pageFaultCode_mapped {m : Mem} (sp : Nat → Nat) {cr2 : Nat} (ret : UInt64) (hpage : OnPage cr2)
    (hmapped : TablesMapped L m) :
    ∃ f, pageFaultCode L sp cr2 ret m = .print mappingText (.ret f) ∧
      ∀ cr3 m₁, TablesMapped L m₁ → ∃ m₂, f cr3 m₁ = some (ret, m₂) ∧
        Represents L m₂ faultForest ∧ ∀ x, x ∉ L.bytes → m₂ x = m₁ x := by
  obtain ⟨o, hok, hret, -⟩ := handler_inside_mapped sp hmapped hpage
  refine ⟨fun _ m => (pageFaultHandlerInternal L m sp cr2).toOption.map fun o => (ret, o.mem), ?_, ?_⟩
  · rw [pageFaultCode, hok]
    simp only [hret, if_true]
    rw [(handler_effect hpage hok).1]
  · intro cr3 m₁ hm₁
    obtain ⟨o₁, hok₁, -, hrep⟩ := handler_inside_mapped sp hm₁ hpage
    refine ⟨o₁.mem, ?_, hrep, (handler_effect hpage hok₁).2⟩
    simp only [hok₁]
    rfl

/-- A fault elsewhere: the function prints what has happened and spins. -/
theorem pageFaultCode_stray (m : Mem) (sp : Nat → Nat) {cr2 : Nat} (ret : UInt64)
    (hpage : ¬ OnPage cr2) : ∃ text, pageFaultCode L sp cr2 ret m = .print text .spin := by
  obtain ⟨o, hok, hret, -⟩ := handler_outside (L := L) (m := m) sp hpage
  refine ⟨outsText o.out, ?_⟩
  rw [pageFaultCode, hok]
  simp [hret]

/-- What the C function that maps the page leaves to the stub. -/
theorem Inside.mapped {m : Mem} {f : Nat → Mem → Option (UInt64 × Mem)} {result : UInt64 → Cpu}
    {exit : List Instr} {ret : UInt64} (hin : Inside L depth c s h exit result s₁) (hc : c < nTasks)
    (hroom : HasRoom depth s) (hm : Prints V s₁.mem m) (hmapped : TablesMapped L s.mem)
    (hf : ∀ cr3 m₁, TablesMapped L m₁ → ∃ m₂, f cr3 m₁ = some (ret, m₂) ∧
      Represents L m₂ faultForest ∧ ∀ x, x ∉ L.bytes → m₂ x = m₁ x) :
    ∃ m₂, f s₁.cpu.cr3.toNat m = some (ret, m₂) ∧ Represents L m₂ faultForest ∧
      (∀ x, x ∉ L.bytes → m₂ x = m x) ∧ Set.EqOn m₂ s₁.mem (windowOf c) := by
  have hspares := spares_of_prints hin.framing hm
  obtain ⟨m₂, hf, hrep, hrest⟩ := hf s₁.cpu.cr3.toNat m (hspares.tablesMapped hc hroom hmapped)
  exact ⟨m₂, hf, hrep, hrest, fun x hx =>
    (hrest x (fun hin => bytes_notMem_window (V := V) hc (.inl hin) hx)).trans
      (hm x (console_notMem_window hc hx))⟩

/-- A fault elsewhere never comes back. -/
theorem pageFault_never {addr : Nat} (horder : InOrder V τ s.mem c)
    (hroot : s.cpu.cr3.toNat = L.addr (.PML4s c)) (hroom : HasRoom depth s) (hpage : ¬ OnPage addr)
    (henter : Enter V depth (.pageFault addr) s p s₀) : ¬ Finishes V progs depth p s₀ w s' := by
  obtain ⟨h, s₁, hin, hstub⟩ := henter.pageFault_called horder hroot hroom
  obtain ⟨text, hspin⟩ := pageFaultCode_stray (L := L) s₁.mem (argument s₁) (h.noise.regs .rax) hpage
  intro hfin
  rw [(hstub progs).finishes, hspin] at hfin
  obtain ⟨m, w', -, -, hfin⟩ := finishes_print hfin
  exact not_finishes_spin hfin

/-- **A page fault** that comes back was one on the additional page. -/
theorem handles_pageFault {addr : Nat} (horder : InOrder V τ s.mem c)
    (hroot : s.cpu.cr3.toNat = L.addr (.PML4s c)) (hmapped : TablesMapped L s.mem)
    (hdl : Handles (system V progs depth) (.pageFault addr) s w s') :
    OnPage addr ∧ Mapped V depth c s w s' := by
  obtain ⟨-, ⟨hroom, -⟩, p, s₀, henter, hfin⟩ := handles_iff.mp hdl
  have hpage : OnPage addr := not_not.mp (fun hpage => pageFault_never horder hroot hroom hpage henter hfin)
  obtain ⟨h, s₁, hin, hstub⟩ := henter.pageFault_called horder hroot hroom
  have hspares₁ := spares_of_prints (V := V) hin.framing (fun _ _ => rfl)
  obtain ⟨f, hf, hmap⟩ := pageFaultCode_mapped (argument s₁) (h.noise.regs .rax) hpage
    (hspares₁.tablesMapped horder.lt hroom hmapped)
  rw [(hstub progs).finishes, hf] at hfin
  obtain ⟨m, w', rfl, hprints, hfin⟩ := finishes_print hfin
  -- the page is mapped in the memory that printing has left
  obtain ⟨m₂, hf₂, hrep, hrest, hwin⟩ := hin.mapped horder.lt hroom hprints hmapped hmap
  obtain ⟨_, _, hf₃, hfin⟩ := finishes_ret.mp hfin
  cases hf₂.symm.trans hf₃
  obtain ⟨rfl, rfl⟩ := (hin.finishes ⟨_, gives_faultForest, hrep⟩ hwin).mp hfin
  refine ⟨hpage, ⟨List.append_nil _, rfl, hrep, fun x hx hcons hframes => ?_⟩⟩
  exact (hrest x hx).trans (spares_of_prints hin.framing hprints x hcons hframes)

/-- **Page faults on the additional page come back**, from every entry. -/
theorem pageFault_ends {addr : Nat} (horder : InOrder V τ s.mem c)
    (hroot : s.cpu.cr3.toNat = L.addr (.PML4s c)) (hmapped : TablesMapped L s.mem)
    (hroom : HasRoom depth s) (hpage : OnPage addr) (henter : Enter V depth (.pageFault addr) s p s₀) :
    Ends (system V progs depth) p s₀ := by
  obtain ⟨h, s₁, hin, hstub⟩ := henter.pageFault_called horder hroot hroom
  refine (hstub progs).backward _ Ends.backward ?_
  have hspares₁ := spares_of_prints (V := V) hin.framing (fun _ _ => rfl)
  obtain ⟨f, hf, hmap⟩ := pageFaultCode_mapped (argument s₁) (h.noise.regs .rax) hpage
    (hspares₁.tablesMapped horder.lt hroom hmapped)
  rw [hf]
  refine backward_print Ends.backward (fun m hm => ?_)
  obtain ⟨m₂, hf₂, hrep, -, hwin⟩ := hin.mapped horder.lt hroom hm hmapped hmap
  exact backward_ret Ends.backward hf₂ (hin.ends ⟨_, gives_faultForest, hrep⟩ hwin)

/-- Any other page fault is reported, and the handler spins. -/
theorem pageFault_unstuck {addr : Nat} (horder : InOrder V τ s.mem c)
    (hroot : s.cpu.cr3.toNat = L.addr (.PML4s c)) (hroom : HasRoom depth s) (hpage : ¬ OnPage addr)
    (henter : Enter V depth (.pageFault addr) s p s₀) : Unstuck (system V progs depth) p s₀ := by
  obtain ⟨h, s₁, hin, hstub⟩ := henter.pageFault_called horder hroot hroom
  refine (hstub progs).backward _ Unstuck.backward ?_
  obtain ⟨text, hspin⟩ := pageFaultCode_stray (L := L) s₁.mem (argument s₁) (h.noise.regs .rax) hpage
  rw [hspin]
  exact backward_print Unstuck.backward (fun m _ => unstuck_spin)

theorem pageFault_enters {addr : Nat} (horder : InOrder V τ s.mem c)
    (hroot : s.cpu.cr3.toNat = L.addr (.PML4s c)) (hroom : HasRoom depth s) (hcanon : Canonical addr)
    (hnone : translate s.mem s.cpu.cr3.toNat addr = none) :
    ∃ p s₀, Enter V depth (.pageFault addr) s p s₀ := by
  let h := plainHandler fun s => pageFaultCode L (argument s) addr 0 s.mem
  obtain ⟨s₀, s₁, hint, -⟩ :=
    pageFault_inside (h := h) 0 horder hroot hroom (Nat.zero_le depth)
  exact ⟨_, s₀, .pageFault (h := h) 0 (Nat.zero_le depth) hcanon hnone rfl hint⟩

end Kernel
end SysproKernel

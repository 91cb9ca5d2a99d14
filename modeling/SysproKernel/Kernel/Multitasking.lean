import SysproKernel.Kernel.Apps
import SysproKernel.Sched.Preemption

/-!
# `Kernel.Multitasking` — from instructions to applications

Three levels of one system. At the lowest the handlers go instruction by instruction and character by
character, the timer interrupt comes whenever interrupts are enabled, and an access of a handler may raise
an exception (`Run`). Handlers mask interrupts, and on a booted machine none of their accesses fails, so
this is a run of whole handlers (`Atomic`), which displays a run of applications (`AppRun`).
`multitasking_refines_applications` puts the three together; `interrupts_served` says which interrupts
come back.

All of it is about applications that keep to `Behaves`, with any three programs.
-/

namespace SysproKernel
namespace Kernel

open Lib.ByteMem Lib.RoundRobin Lib.X86 Lib.Handlers Memory Sched

variable {L : TableLayout shipped} {V : SchedVars L} {progs : Nat → Program} {depth : Nat}
  {init a : Tasks Task} {p : Point} {s₀ s s' : Machine} {w : List Int8}

/-! ## Applications -/

/-- The applications at the jump to task 0. -/
def appsAtStart (L : TableLayout shipped) (s : Machine) : Tasks Task where
  cur := 0
  task i := ⟨((tasksAtStart L s).task i).cpu, ownMem i s.mem⟩

theorem displays_atStart (h : Shows V (tasksAtStart L s) s) : Displays V (appsAtStart L s) s where
  order := .inl h.sane
  running := h.running
  roots := h.roots
  own _ _ := rfl
  suspended := h.suspended

/-- **Simulation.** A run of whole handlers displays a run of the applications. -/
theorem displays_run {h : List (Handled Machine Cause Int8)}
    (hrun : Atomic (system V progs depth) s₀ h s) (hinit : Displays V init s₀) :
    ∃ msgs a, AppRun progs depth init msgs a ∧ Displays V a s ∧ printed h = msgs.flatMap Message.text := by
  induction hrun with
  | start => exact ⟨[], init, .start, hinit, rfl⟩
  | work _ hwork ih =>
      obtain ⟨msgs, a, happs, hdisplays, hout⟩ := ih
      obtain ⟨hcomputes, hdisplays'⟩ := hdisplays.computes hwork
      exact ⟨msgs, _, happs.work hcomputes, hdisplays', hout⟩
  | @handle h s s' e w _ _ hdl ih =>
      obtain ⟨msgs, a, happs, hdisplays, hout⟩ := ih
      obtain ⟨-, ⟨hroom, -⟩, -⟩ := handles_iff.mp hdl
      rw [printed_concat, hout]
      cases e with
      | timer =>
          obtain ⟨rfl, noise, hlen, htick⟩ := handles_timer hdl
          obtain ⟨s₁, x, htick₁, hresumes, hdisplays'⟩ := hdisplays.tick noise hlen hroom
          obtain rfl : s' = s₁ := Option.some.inj (htick.symm.trans htick₁)
          exact ⟨msgs, _, happs.switch hresumes, hdisplays', List.append_nil _⟩
      | syscall =>
          obtain ⟨hwants, hcalls, hdisplays'⟩ := hdisplays.call hdl
          exact ⟨_, _, happs.call hwants hcalls, hdisplays', by simp⟩
      | pageFault addr =>
          obtain ⟨hwants, hpage, rfl, hresumes, hdisplays'⟩ := hdisplays.fault hdl
          exact ⟨_, _, happs.fault hwants hpage hresumes, hdisplays', by simp⟩

/-! ## Every way of a handler -/

/-- The cause enters its handler, and from every entry the handler leaves, whichever way it takes. -/
structure ComesBack (V : SchedVars L) (progs : Nat → Program) (depth : Nat) (e : Cause) (s : Machine) :
    Prop where
  enters : ∃ p s₀, Enter V depth e s p s₀
  ends : ∀ p s₀, Enter V depth e s p s₀ → Ends (system V progs depth) p s₀

/-- From every entry the handler goes on for ever. -/
structure Hangs (V : SchedVars L) (progs : Nat → Program) (depth : Nat) (e : Cause) (s : Machine) :
    Prop where
  enters : ∃ p s₀, Enter V depth e s p s₀
  unstuck : ∀ p s₀, Enter V depth e s p s₀ → Unstuck (system V progs depth) p s₀
  never : ∀ p s₀, Enter V depth e s p s₀ → ∀ w s', ¬ Finishes V progs depth p s₀ w s'

theorem timer_comesBack (progs : Nat → Program) (h : Displays V a s) (hroom : HasRoom depth s) :
    ComesBack V progs depth .timer s where
  enters := by
    let noise : CallNoise := { frame := [], regs := fun _ => 0, rflags := 0 }
    obtain ⟨s', -, htick, -⟩ := h.tick noise (Nat.zero_le depth) hroom
    obtain ⟨s₀, hint, -⟩ := Option.bind_eq_some_iff.mp htick
    let handler := plainHandler fun s => .ret fun cr3 m =>
      lapicIntrHandlerInternal (schedule V) cr3 (s.cpu.gpr .rdi) m
    exact ⟨_, s₀, .timer (h := handler) (Nat.zero_le depth) rfl hint⟩
  ends p s₀ henter := by
    refine timer_ends henter (fun noise hlen => ?_)
    obtain ⟨s', -, htick, -⟩ := h.tick noise hlen hroom
    exact ⟨s', htick⟩

theorem syscall_comesBack (progs : Nat → Program) (h : Displays V a s) (hbehaves : Behaves depth .syscall s) :
    ComesBack V progs depth .syscall s := by
  obtain ⟨τ, horder⟩ := h.inOrder
  exact ⟨syscall_enters horder h.root hbehaves.room, fun p s₀ => syscall_ends horder h.root hbehaves⟩

theorem pageFault_comesBack (progs : Nat → Program) {addr : Nat} (h : Displays V a s) (hroom : HasRoom depth s)
    (hcanon : Canonical addr) (hnone : translate s.mem s.cpu.cr3.toNat addr = none)
    (hpage : OnPage addr) : ComesBack V progs depth (.pageFault addr) s := by
  obtain ⟨τ, horder⟩ := h.inOrder
  exact ⟨pageFault_enters horder h.root hroom hcanon hnone,
    fun p s₀ => pageFault_ends horder h.root h.mapped hroom hpage⟩

theorem pageFault_hangs {addr : Nat} (h : Displays V a s) (hroom : HasRoom depth s)
    (hcanon : Canonical addr) (hnone : translate s.mem s.cpu.cr3.toNat addr = none)
    (hpage : ¬ OnPage addr) : Hangs V progs depth (.pageFault addr) s := by
  obtain ⟨τ, horder⟩ := h.inOrder
  exact ⟨pageFault_enters horder h.root hroom hcanon hnone,
    fun p s₀ => pageFault_unstuck horder h.root hroom hpage,
    fun p s₀ henter w s' => pageFault_never horder h.root hroom hpage henter⟩

/-- **No handler gets stuck**: its accesses are mapped, whichever way it takes. -/
theorem handler_unstuck {e : Cause} (h : Displays V a s)
    (henter : (system V progs depth).enter e s p s') : Unstuck (system V progs depth) p s' := by
  obtain ⟨-, hbehaves, henter⟩ := henter
  cases e with
  | timer => exact ((timer_comesBack progs h hbehaves.room).ends p s' henter).unstuck
  | syscall => exact ((syscall_comesBack progs h hbehaves).ends p s' henter).unstuck
  | pageFault addr =>
      obtain ⟨τ, horder⟩ := h.inOrder
      by_cases hpage : OnPage addr
      · exact (pageFault_ends horder h.root h.mapped hbehaves.room hpage henter).unstuck
      · exact pageFault_unstuck horder h.root hbehaves.room hpage henter

theorem active_unstuck {out : List Int8} (h : Displays V init s₀)
    (hactive : Active (system V progs depth) s₀ out p s) : Unstuck (system V progs depth) p s := by
  obtain ⟨-, handled, e, s₁, p₁, s₂, w, hatomic, -, henter, hsteps, -⟩ := hactive
  obtain ⟨-, a, -, hdisplays, -⟩ := displays_run hatomic h
  exact (handler_unstuck hdisplays henter).steps hsteps

/-- No exception is raised inside a handler. -/
theorem displays_calm (h : Displays V init s₀) : Calm (system V progs depth) s₀ := by
  rintro out p s hactive p' s' ⟨addr, hfaults, -⟩
  exact alive_mapped (active_unstuck h hactive).alive hfaults

/-! ## A concrete run -/

theorem Passes.unique {text text' : List Int8} (h : Passes depth s text) (h' : Passes depth s text') :
    text = text' := by
  have hholds : ∀ {text : List Int8}, Passes depth s text →
      Lib.CStr.Holds (fun j => (charAt s ((s.cpu.gpr .rsi).toNat + j)).getD 0) text :=
    fun h => ⟨fun j hj => by rw [h.chars j hj, Option.getD_some], h.nonzero,
      by rw [h.nul, Option.getD_some]⟩
  exact (hholds h).unique (hholds h')

/-- A program that prints one character. -/
def printsOne : Program where
  computes x y := y = ⟨(x.cpu.set .rdi syscallIdPuts).set .rsi 0x40000100,
    Function.update (Function.update x.mem 0x40000100 0x48) 0x40000101 0⟩
  calls x := x.cpu.gpr .rdi = syscallIdPuts
  touches _ _ := False

/-- Task 0 about to print it. -/
def aboutToPrint (s : Machine) : Machine where
  cpu := (s.cpu.set .rdi syscallIdPuts).set .rsi 0x40000100
  mem := Function.update (Function.update s.mem 0x104000100 0x48) 0x104000101 0

theorem aboutToPrint_computes (h : Displays V a s) (hcur : a.cur = 0) : Computes s (aboutToPrint s) := by
  obtain ⟨τ, horder⟩ := h.inOrder
  have hmaps := horder.gives.maps_window horder.tables h.lt
  rw [← h.root, hcur, show getTaskPhysAddr 0 = 0x104000000 from rfl] at hmaps
  have hown : ∀ i < 0x1000000, 0x104000000 + i ∈ ownBytes s :=
    fun i hi => ⟨0x40000000 + i, .inl ⟨by omega, by omega⟩, hmaps i hi⟩
  refine ⟨rfl, fun x hx => ?_⟩
  have h0 : x ≠ 0x104000100 := fun h => hx (h ▸ hown 0x100 (by decide))
  have h1 : x ≠ 0x104000101 := fun h => hx (h ▸ hown 0x101 (by decide))
  exact (Function.update_of_ne h1 ..).trans (Function.update_of_ne h0 ..)

theorem place_inj {t v v' : Nat} (ht : t < nTasks) (hv : Owns t v) (hv' : Owns t v')
    (heq : place t v = place t v') : v = v' := by
  have hphys := getTaskPhysAddr_eq ht
  rcases hv with hv | ⟨-, hv⟩ <;> rcases hv' with hv' | ⟨-, hv'⟩
  · rw [place_window hv, place_window hv'] at heq
    obtain ⟨hlo, hhi⟩ := hv
    obtain ⟨hlo', hhi'⟩ := hv'
    omega
  · rw [place_window hv, place_page hv'] at heq
    rw [onPage_bounds] at hv'
    omega
  · rw [place_page hv, place_window hv'] at heq
    rw [onPage_bounds] at hv
    omega
  · rw [place_page hv, place_page hv'] at heq
    rw [onPage_bounds] at hv hv'
    omega

/-- A byte of a task, seen from the task. -/
theorem ownMem_update {t v : Nat} (ht : t < nTasks) (hv : Owns t v) (m : Mem) (b : UInt8) :
    ownMem t (Function.update m (place t v) b) = Function.update (ownMem t m) v b := by
  funext v'
  by_cases heq : v' = v
  · rw [heq, ownMem_own hv, Function.update_self, Function.update_self]
  · rw [Function.update_of_ne heq]
    unfold ownMem
    split
    · next hv' => exact Function.update_of_ne (fun h => heq (place_inj ht hv' hv h)) ..
    · rfl

/-- This is what the program does. -/
theorem aboutToPrint_proceeds (h : Displays V a s) (hcur : a.cur = 0) :
    Proceeds L (fun _ => printsOne) s (aboutToPrint s) where
  own := aboutToPrint_computes h hcur
  program := by
    have hruns := h.runs
    rw [hcur] at hruns
    have hfirst : Owns 0 0x40000100 := Or.inl ⟨by decide, by decide⟩
    have hsecond : Owns 0 0x40000101 := Or.inl ⟨by decide, by decide⟩
    refine ⟨0, hruns, congrArg (Task.mk _) ?_⟩
    exact (ownMem_update hruns.lt hsecond _ 0).trans
      (congrArg (Function.update · _ _) (ownMem_update hruns.lt hfirst s.mem 0x48))

theorem aboutToPrint_passes (h : Displays V a (aboutToPrint s)) (hcur : a.cur = 0)
    (hrsp : s.cpu.gpr .rsp = 0x41000000) : Passes 64 (aboutToPrint s) [0x48] := by
  obtain ⟨τ, horder⟩ := h.inOrder
  have hsp : (aboutToPrint s).cpu.gpr .rsp = 0x41000000 :=
    (Cpu.set_gpr_ne _ (by decide) _).trans ((Cpu.set_gpr_ne _ (by decide) _).trans hrsp)
  have hrsi : ((aboutToPrint s).cpu.gpr .rsi).toNat = 0x40000100 := by
    show (((s.cpu.set .rdi syscallIdPuts).set .rsi 0x40000100).gpr .rsi).toNat = _
    rw [Cpu.set_gpr_self]
    rfl
  have halign : (align16 0x41000000).toNat = 0x41000000 := by decide
  have hchar : ∀ v, InWindow v → charAt (aboutToPrint s) v =
      some ((aboutToPrint s).mem (0x104000000 + (v - 0x40000000))).toInt8 := by
    intro v hv
    rw [charAt_window horder h.root hv, hcur]
    rfl
  have hmem : (aboutToPrint s).mem =
      Function.update (Function.update s.mem 0x104000100 0x48) 0x104000101 0 := rfl
  have hbyte : (aboutToPrint s).mem 0x104000100 = 0x48 := by
    rw [hmem, Function.update_of_ne (by decide), Function.update_self]
  have hnul : (aboutToPrint s).mem 0x104000101 = 0 := by
    rw [hmem, Function.update_self]
  have hfirst : charAt (aboutToPrint s) 0x40000100 = some 0x48 := by
    rw [hchar _ ⟨by decide, by decide⟩]
    exact congrArg (fun b : UInt8 => some b.toInt8) hbyte
  have hsecond : charAt (aboutToPrint s) 0x40000101 = some 0 := by
    rw [hchar _ ⟨by decide, by decide⟩]
    exact congrArg (fun b : UInt8 => some b.toInt8) hnul
  refine ⟨?_, List.forall_mem_singleton.mpr (by decide), ?_, ?_⟩
  · intro j hj
    obtain rfl : j = 0 := by simpa using hj
    rw [hrsi]
    exact hfirst
  · rw [hrsi]
    exact hsecond
  · intro j hj
    have hj' : j ≤ 1 := hj
    unfold InWindow Dead reach
    rw [hrsi, hsp, halign]
    omega

/-- From the jump to task 0: it computes, and prints its character. -/
theorem aboutToPrint_run (h : Displays V a s) (hcur : a.cur = 0) (hrsp : s.cpu.gpr .rsp = 0x41000000) :
    ∃ s', Run (system V (fun _ => printsOne) 64) s [0x48] [] s' ∧ HasRoom 64 s' := by
  have hproceeds := aboutToPrint_proceeds h hcur
  obtain ⟨-, hdisplays⟩ := h.computes hproceeds
  obtain ⟨τ, horder⟩ := hdisplays.inOrder
  have hpass := aboutToPrint_passes hdisplays hcur hrsp
  have hsp : (aboutToPrint s).cpu.gpr .rsp = 0x41000000 :=
    (Cpu.set_gpr_ne _ (by decide) _).trans ((Cpu.set_gpr_ne _ (by decide) _).trans hrsp)
  have hputs : (aboutToPrint s).cpu.gpr .rdi = syscallIdPuts :=
    (Cpu.set_gpr_ne _ (by decide) _).trans (Cpu.set_gpr_self ..)
  have hroom : HasRoom 64 (aboutToPrint s) := by
    unfold HasRoom reach
    rw [hsp, show (align16 0x41000000).toNat = 0x41000000 by decide]
    omega
  have hbehaves : Behaves 64 .syscall (aboutToPrint s) := ⟨hroom, fun _ _ => ⟨_, hpass⟩⟩
  obtain ⟨⟨p, s₁, henter⟩, hends⟩ := syscall_comesBack (fun _ => printsOne) hdisplays hbehaves
  obtain ⟨w, s', hfin⟩ := finishes_of_ends (hends p s₁ henter)
  have hwants : Wants L (fun _ => printsOne) .syscall (aboutToPrint s) := .syscall hdisplays.runs hputs
  have hdl := handles_iff.mpr ⟨hwants, hbehaves, p, s₁, henter, hfin⟩
  have hans := handles_syscall horder hdisplays.root hdl
  rcases hans.said with ⟨-, hsaid, hcpu⟩ | ⟨hne, -⟩
  · obtain rfl := hpass.unique hsaid
    have hwork : Run (system V (fun _ => printsOne) 64) s [] [] (aboutToPrint s) :=
      Run.start.work hproceeds
    refine ⟨s', hwork.handles (fun hmaskable => ?_) hdl, ?_⟩
    · cases hmaskable
    · have hgpr : s'.cpu.gpr .rsp = (aboutToPrint s).cpu.gpr .rsp := by
        rw [hcpu, Cpu.set_gpr_ne _ (by decide)]
      unfold HasRoom at hroom ⊢
      rwa [hgpr]
  · exact absurd hputs hne

/-- The packed machine prints a character. -/
theorem printed_packed :
    ∃ vm m₁ s₀ s, initVirtualMemory packedLayout (fun _ => 0) 0 = .ok vm
      ∧ initTasks packedVars vm.taskCr3s (fun _ => ⟨0x10, 0x8, 0x202⟩) vm.mem = some m₁
      ∧ startTask0 packedVars [] ⟨fun _ => 0, 0, 0x202, 0x8, 0x10, 0⟩ m₁ = some s₀
      ∧ Run (system packedVars (fun _ => printsOne) 64) s₀ [0x48] [] s ∧ HasRoom 64 s := by
  obtain ⟨vm, m₁, s₀, hvm, hinit, hstart, hshows, hrsp, -⟩ := boot_packed
  obtain ⟨s, hrun, hroom⟩ := aboutToPrint_run (displays_atStart hshows) rfl hrsp
  exact ⟨vm, m₁, s₀, s, hvm, hinit, hstart, hrun, hroom⟩

/-! ## Handlers in one piece -/

/-- **Handlers run undisturbed.** From `init_tasks` and `start_task0` on, however the steps of applications
    that keep to `Behaves`, timer interrupts, system calls and page faults follow each other, instruction by
    instruction: no handler is entered while another one is active, neither by an interrupt, for they are
    disabled as long as one is, nor by an exception, for none of its accesses fails. What has happened so
    far is a sequence of whole handlers, followed by the steps of the active one. -/
theorem handlers_undisturbed (L : TableLayout shipped) (V : SchedVars L) (m₀ m : Mem)
    (kernelCr3 : Nat) (vm : VmState) (hzero : ZeroedTables L m₀)
    (hvm : initVirtualMemory L m₀ kernelCr3 = .ok vm) (hkeep : Set.EqOn m vm.mem L.bytes)
    (regs : Nat → KernelRegs) (frame : List UInt8) (hframe : frame.length ≤ 0x1000000) (c : Cpu)
    (progs : Nat → Program) (depth : Nat) :
    ∃ m₁ s₀, initTasks V vm.taskCr3s regs m = some m₁ ∧ startTask0 V frame c m₁ = some s₀ ∧
      ∀ out points s, Run (system V progs depth) s₀ out points s →
        (points = [] ∧ ∃ h, Atomic (system V progs depth) s₀ h s ∧ out = printed h) ∨
        ∃ p, points = [p] ∧ s.cpu.rflags &&& interruptFlag = 0 ∧ (∀ addr, ¬ Faults s p addr) ∧
          ∃ h e s₁ p₁ s₂ w, Atomic (system V progs depth) s₀ h s₁ ∧ (e = .timer → Enabled s₁) ∧
            Enter V depth e s₁ p₁ s₂ ∧ Steps (system V progs depth) p₁ s₂ w p s ∧ out = printed h ++ w := by
  obtain ⟨-, m₁, s₀, hinit, hstart, hshows, -⟩ := boot_shows V hzero hvm hkeep regs frame hframe c
  have hstarts := displays_atStart hshows
  refine ⟨m₁, s₀, hinit, hstart, fun out points s hrun => ?_⟩
  rcases hrun.atomic (system_masks V progs depth) (displays_calm hstarts) with hidle | ⟨p, hp, hactive⟩
  · exact .inl hidle
  · have hquiet : ∀ addr, ¬ Faults s p addr :=
      fun addr => alive_mapped (active_unstuck hstarts hactive).alive
    obtain ⟨hoff, h, e, s₁, p₁, s₂, w, hatomic, hwhen, ⟨-, -, henter⟩, hsteps, hout⟩ := hactive
    exact .inr ⟨p, hp, not_not.mp hoff, hquiet, h, e, s₁, p₁, s₂, w, hatomic, hwhen, henter, hsteps, hout⟩

/-- The printed character is the text of whole handlers. -/
theorem handlers_undisturbed_packed :
    ∃ s₀ s h, Run (system packedVars (fun _ => printsOne) 64) s₀ [0x48] [] s
      ∧ Atomic (system packedVars (fun _ => printsOne) 64) s₀ h s ∧ printed h = [0x48] := by
  obtain ⟨vm, m₁, s₀, s, hvm, hinit, hstart, hrun, -⟩ := printed_packed
  obtain ⟨m₁', s₀', hinit', hstart', hall⟩ := handlers_undisturbed packedLayout
    packedVars (fun _ => 0) vm.mem 0 vm (zeroedTables_zero packedLayout) hvm (Set.eqOn_refl ..)
    (fun _ => ⟨0x10, 0x8, 0x202⟩) [] (Nat.zero_le _) ⟨fun _ => 0, 0, 0x202, 0x8, 0x10, 0⟩
    (fun _ => printsOne) 64
  obtain rfl : m₁ = m₁' := Option.some.inj (hinit.symm.trans hinit')
  obtain rfl : s₀ = s₀' := Option.some.inj (hstart.symm.trans hstart')
  rcases hall _ _ s hrun with ⟨-, h, hatomic, hout⟩ | ⟨p, hp, -⟩
  · exact ⟨s₀, s, h, hrun, hatomic, hout.symm⟩
  · cases hp

/-! ## The refinement -/

/-- A run of single steps displays a run of the applications: up to now, or up to the entry of the active
    handler. -/
theorem displays_steps {out : List Int8} {points : List Point} (hinit : Displays V init s₀)
    (hrun : Run (system V progs depth) s₀ out points s) :
    ∃ msgs a s₁ w, AppRun progs depth init msgs a ∧ Displays V a s₁
      ∧ out = msgs.flatMap Message.text ++ w
      ∧ ((points = [] ∧ s₁ = s ∧ w = []) ∨ ∃ p e p₁ s₂, points = [p] ∧
          Enter V depth e s₁ p₁ s₂ ∧ Steps (system V progs depth) p₁ s₂ w p s) := by
  rcases hrun.atomic (system_masks V progs depth) (displays_calm hinit) with
    ⟨rfl, h, hatomic, rfl⟩ |
    ⟨p, rfl, -, h, e, s₁, p₁, s₂, w, hatomic, -, ⟨-, -, henter⟩, hsteps, rfl⟩
  · obtain ⟨msgs, a, happs, hdisplays, hout⟩ := displays_run hatomic hinit
    refine ⟨msgs, a, s, [], happs, hdisplays, ?_, .inl ⟨rfl, rfl, rfl⟩⟩
    rw [hout, List.append_nil]
  · obtain ⟨msgs, a, happs, hdisplays, hout⟩ := displays_run hatomic hinit
    refine ⟨msgs, a, s₁, w, happs, hdisplays, ?_, .inr ⟨p, e, p₁, s₂, rfl, henter, hsteps⟩⟩
    rw [hout]

/-- **The machine refines sequential applications.** From `init_tasks` and `start_task0` on, for any three
    programs that keep to `Behaves`, for every run of single steps, whenever interrupts come: what has been
    printed is a sequence of whole messages and the beginning of one; the machine, as it was when the
    active handler was entered, displays the applications; and each application by itself has gone through
    a sequential run of its program that printed its messages in its order. In that run only the program
    computes, calls and touches, and the kernel gives it back its registers and its memory, but for the
    result in `rax` and what lies below its stack pointer within the reach of the frames. -/
theorem multitasking_refines_applications (L : TableLayout shipped) (V : SchedVars L) (m₀ m : Mem)
    (kernelCr3 : Nat) (vm : VmState) (hzero : ZeroedTables L m₀)
    (hvm : initVirtualMemory L m₀ kernelCr3 = .ok vm) (hkeep : Set.EqOn m vm.mem L.bytes)
    (regs : Nat → KernelRegs) (frame : List UInt8) (hframe : frame.length ≤ 0x1000000) (c : Cpu)
    (progs : Nat → Program) (depth : Nat) :
    ∃ m₁ s₀, initTasks V vm.taskCr3s regs m = some m₁ ∧ startTask0 V frame c m₁ = some s₀ ∧
      ∀ out points s, Run (system V progs depth) s₀ out points s →
        ∃ msgs a s₁ w, AppRun progs depth (appsAtStart L s₀) msgs a ∧ Displays V a s₁
          ∧ out = msgs.flatMap Message.text ++ w
          ∧ (∀ t, LocalRun (progs t) depth t ((appsAtStart L s₀).task t) (textsOf t msgs) (a.task t))
          ∧ ((points = [] ∧ s₁ = s ∧ w = []) ∨ ∃ p e p₁ s₂, points = [p] ∧
              Enter V depth e s₁ p₁ s₂ ∧ Steps (system V progs depth) p₁ s₂ w p s) := by
  obtain ⟨-, m₁, s₀, hinit, hstart, hshows, -⟩ := boot_shows V hzero hvm hkeep regs frame hframe c
  refine ⟨m₁, s₀, hinit, hstart, fun out points s hrun => ?_⟩
  obtain ⟨msgs, a, s₁, w, happs, hdisplays, hout, hpoint⟩ :=
    displays_steps (displays_atStart hshows) hrun
  exact ⟨msgs, a, s₁, w, happs, hdisplays, hout, happs.local, hpoint⟩

/-- The printed character is an application's. -/
theorem multitasking_refines_applications_packed :
    ∃ s₀ s msgs a, Run (system packedVars (fun _ => printsOne) 64) s₀ [0x48] [] s
      ∧ AppRun (fun _ => printsOne) 64 (appsAtStart packedLayout s₀) msgs a ∧ Displays packedVars a s
      ∧ (∀ t, LocalRun printsOne 64 t ((appsAtStart packedLayout s₀).task t) (textsOf t msgs) (a.task t))
      ∧ msgs.flatMap Message.text = [0x48] := by
  obtain ⟨vm, m₁, s₀, s, hvm, hinit, hstart, hrun, -⟩ := printed_packed
  obtain ⟨m₁', s₀', hinit', hstart', hall⟩ := multitasking_refines_applications packedLayout
    packedVars (fun _ => 0) vm.mem 0 vm (zeroedTables_zero packedLayout) hvm (Set.eqOn_refl ..)
    (fun _ => ⟨0x10, 0x8, 0x202⟩) [] (Nat.zero_le _) ⟨fun _ => 0, 0, 0x202, 0x8, 0x10, 0⟩
    (fun _ => printsOne) 64
  obtain rfl : m₁ = m₁' := Option.some.inj (hinit.symm.trans hinit')
  obtain rfl : s₀ = s₀' := Option.some.inj (hstart.symm.trans hstart')
  obtain ⟨msgs, a, s₁, w, happs, hdisplays, hout, hlocal, ⟨-, rfl, rfl⟩ | ⟨p, _, _, _, hp, -⟩⟩ :=
    hall _ _ s hrun
  · exact ⟨s₀, s₁, msgs, a, hrun, happs, hdisplays, hlocal, by rw [hout, List.append_nil]⟩
  · cases hp

/-! ## Which interrupts come back -/

/-- **Interrupts are served.** From `init_tasks` and `start_task0` on, whenever an application runs with
    room on its stack: every way of the handler of a timer interrupt leaves it, and so does every way of the
    handler of a system call (if what is passed to `puts` is a string of the application) and of a page
    fault on the additional page; after any other page fault the handler goes on for ever. -/
theorem interrupts_served (L : TableLayout shipped) (V : SchedVars L) (m₀ m : Mem)
    (kernelCr3 : Nat) (vm : VmState) (hzero : ZeroedTables L m₀)
    (hvm : initVirtualMemory L m₀ kernelCr3 = .ok vm) (hkeep : Set.EqOn m vm.mem L.bytes)
    (regs : Nat → KernelRegs) (frame : List UInt8) (hframe : frame.length ≤ 0x1000000) (c : Cpu)
    (progs : Nat → Program) (depth : Nat) :
    ∃ m₁ s₀, initTasks V vm.taskCr3s regs m = some m₁ ∧ startTask0 V frame c m₁ = some s₀ ∧
      ∀ out s, Run (system V progs depth) s₀ out [] s → HasRoom depth s →
        ComesBack V progs depth .timer s
        ∧ ((s.cpu.gpr .rdi = syscallIdPuts → ∃ text, Passes depth s text) →
            ComesBack V progs depth .syscall s)
        ∧ ∀ addr, Canonical addr → translate s.mem s.cpu.cr3.toNat addr = none →
            (OnPage addr → ComesBack V progs depth (.pageFault addr) s)
            ∧ (¬ OnPage addr → Hangs V progs depth (.pageFault addr) s) := by
  obtain ⟨-, m₁, s₀, hinit, hstart, hshows, -⟩ := boot_shows V hzero hvm hkeep regs frame hframe c
  refine ⟨m₁, s₀, hinit, hstart, fun out s hrun hroom => ?_⟩
  obtain ⟨msgs, a, s₁, w, -, hdisplays, -, ⟨-, rfl, -⟩ | ⟨p, _, _, _, hp, -⟩⟩ :=
    displays_steps (displays_atStart hshows) hrun
  · refine ⟨timer_comesBack progs hdisplays hroom,
      fun hstring => syscall_comesBack progs hdisplays ⟨hroom, fun _ => hstring⟩,
      fun addr hcanon hnone => ⟨?_, ?_⟩⟩
    · exact pageFault_comesBack progs hdisplays hroom hcanon hnone
    · exact pageFault_hangs hdisplays hroom hcanon hnone
  · cases hp

/-- After the printed character a timer interrupt is served. -/
theorem interrupts_served_packed :
    ∃ s₀ s, Run (system packedVars (fun _ => printsOne) 64) s₀ [0x48] [] s
      ∧ ComesBack packedVars (fun _ => printsOne) 64 .timer s := by
  obtain ⟨vm, m₁, s₀, s, hvm, hinit, hstart, hrun, hroom⟩ := printed_packed
  obtain ⟨m₁', s₀', hinit', hstart', hall⟩ := interrupts_served packedLayout
    packedVars (fun _ => 0) vm.mem 0 vm (zeroedTables_zero packedLayout) hvm (Set.eqOn_refl ..)
    (fun _ => ⟨0x10, 0x8, 0x202⟩) [] (Nat.zero_le _) ⟨fun _ => 0, 0, 0x202, 0x8, 0x10, 0⟩
    (fun _ => printsOne) 64
  obtain rfl : m₁ = m₁' := Option.some.inj (hinit.symm.trans hinit')
  obtain rfl : s₀ = s₀' := Option.some.inj (hstart.symm.trans hstart')
  exact ⟨s₀, s, hrun, (hall _ s hrun hroom).1⟩

end Kernel
end SysproKernel

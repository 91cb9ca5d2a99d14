import SysproKernel.Interrupt.Gate
import SysproKernel.Sched.Preemption

/-!
# `Sched.RedZone` — the 128 bytes below the stack pointer

The applications are compiled with the red zone enabled: a leaf function keeps its locals in the 128
bytes below `rsp` without moving `rsp`. The gate of the timer interrupt has no stack of its own
(`attribute_ist = 0`, `timerInterrupt_gate`), so the processor pushes its frame right there, and
`lapic_intr_handler` its 15 registers below that; the frame of 160 bytes covers the whole red zone below
the aligned `rsp`.

A task is resumed on top of that frame, so what it finds in its red zone is the frame
(`vread_resumed`): the red zone survives exactly when it held those very bytes before
(`red_zone_kept_iff`).
-/

namespace SysproKernel
namespace Sched

open Lib.ByteMem Lib.RoundRobin Lib.X86 Memory Interrupt

variable {L : TableLayout shipped} {V : SchedVars L} {s₀ s s' : Machine}
  {h : List (Switch Machine)}

/-! ## The gate -/

theorem callC_jump (noise : CallNoise) (f : Nat → UInt64 → Mem → Option (UInt64 × Mem)) (cs : UInt16)
    (rip : UInt64) (s : Machine) :
    callC noise f (s.jump cs rip) = (callC noise f s).map (·.jump cs rip) := by
  let bottom := (s.cpu.gpr .rsp).toNat - noise.frame.length
  show (vwrite translate s.mem s.cpu.cr3.toNat bottom noise.frame s.mem).bind _ =
    Option.map _ ((vwrite translate s.mem s.cpu.cr3.toNat bottom noise.frame s.mem).bind _)
  cases vwrite translate s.mem s.cpu.cr3.toNat bottom noise.frame s.mem with
  | none => rfl
  | some m =>
      show (f s.cpu.cr3.toNat (s.cpu.gpr .rdi) m).bind _ =
        Option.map _ ((f s.cpu.cr3.toNat (s.cpu.gpr .rdi) m).bind _)
      cases f s.cpu.cr3.toNat (s.cpu.gpr .rdi) m <;> rfl

/-- **A timer interrupt goes through its gate**: the descriptor that `set_interrupt` leaves in a zeroed
    table, for any handler and whatever the interrupt stack table holds. The frame lies on the interrupted
    stack. -/
theorem timerInterrupt_gate {idt intId : Nat} {m : Mem} (hzero : load m (idt + 16 * intId + 4) 2 = 0)
    (func : UInt64) (cs : UInt16) (ist : Nat → UInt64) (noise : CallNoise) (s : Machine) :
    ((Gate.decode (load (setInterrupt idt intId func cs m) (idt + 16 * intId) 16)).enter
        translate ist none s).bind
        (run translate (callC noise (lapicIntrHandlerInternal (schedule V))) lapicIntrHandler) =
      timerInterrupt V noise s := by
  have hstub : ∃ is, .iretq ∉ is ∧ lapicIntrHandler = is ++ [.iretq] :=
    ⟨lapicIntrHandler.dropLast, by decide, rfl⟩
  obtain ⟨is, his, hstub⟩ := hstub
  rw [setInterrupt_enter hzero, Option.bind_map, timerInterrupt, hstub]
  exact congrArg _ (funext (run_jump translate (callC_jump noise _ cs func) his))

/-! ## The red zone -/

/-- The red zone: the 128 bytes below the stack pointer. -/
def InRedZone (c : Cpu) (v : Nat) : Prop := (c.gpr .rsp).toNat ≤ v + 128 ∧ v < (c.gpr .rsp).toNat

/-- The byte a task sees at virtual address `v`. -/
def seen (s : Machine) (v : Nat) : Option (List UInt8) := vread translate s.mem s.cpu.cr3.toNat v 1

/-- The task resumed in `s'` sees in its red zone what it saw when it was interrupted in `s`. -/
def RedZoneKept (s s' : Machine) : Prop := ∀ v, InRedZone s.cpu v → seen s' v = seen s v

/-- Below the aligned stack pointer the red zone happens to hold what an interrupt pushes there. -/
def AlreadyPushed (s : Machine) : Prop :=
  ∀ v, InRedZone s.cpu v → v < (align16 (s.cpu.gpr .rsp)).toNat → seen s v = some [pushedAt s.cpu v]

/-- Between the task windows and the frame buffer nothing is mapped. -/
theorem seen_above {a : Tasks Task} (hs : Shows V a s) {v : Nat} (hlo : 0x41000000 ≤ v)
    (hhi : v < 0xc0000000) : seen s v = none := by
  have hunmapped : translate s.mem s.cpu.cr3.toNat v = none := by
    rw [hs.root, translate_eq hs.sane.tables hs.sane.lt (by omega), lookup_taskWindows,
      if_neg (by omega), if_neg (by omega)]
  unfold seen
  simp only [vread, hunmapped]
  rfl

/-- **What a resumed task finds below its stack pointer** is the frame of its interrupt. -/
theorem vread_resumed {w w' : Tasks Task} {noise : CallNoise} (hs : Shows V w s) (hs' : Shows V w' s')
    (hframed : Framed w.running w'.running) (hroom : Room noise s) {v : Nat}
    (hv : InRedZone s.cpu v) :
    seen s' v = if v < (align16 (s.cpu.gpr .rsp)).toNat then some [pushedAt s.cpu v] else seen s v := by
  obtain ⟨hlo, hhi⟩ := hv
  obtain ⟨hbottom, htop⟩ := hroom
  have hle := align16_le (s.cpu.gpr .rsp)
  have hlt := lt_align16 (s.cpu.gpr .rsp)
  by_cases hin : v < 0x41000000
  · have hwin : InWindow v := ⟨by omega, hin⟩
    have hseen : seen s v = some [window s.mem w.cur v] := vread_window hs.sane hs.root hwin
    have hseen' : seen s' v = some [window s'.mem w'.cur v] := vread_window hs'.sane hs'.root hwin
    have hbyte := hframed.2 v hwin (by rw [hs.running]; omega)
    rw [hs.running, Tasks.running, Tasks.running, hs.windows _ hs.sane.lt v hwin,
      hs'.windows _ hs'.sane.lt v hwin] at hbyte
    rw [hseen', hseen, hbyte]
    split_ifs <;> rfl
  · -- the few bytes between the end of the window and an unaligned stack pointer
    rw [if_neg (by omega), seen_above hs (by omega) (by omega), seen_above hs' (by omega) (by omega)]

/-- Every recorded switch is a timer interrupt taken with room on the stack. -/
theorem MachineRun.interrupted (hrun : MachineRun V s₀ h s) :
    ∀ w ∈ h, ∃ noise, Room noise w.before ∧ timerInterrupt V noise w.before = some w.after := by
  induction hrun with
  | start => simp
  | work _ _ ih => exact ih
  | tick noise _ hroom htick ih =>
      intro w hw
      rw [List.mem_append, List.mem_singleton] at hw
      rcases hw with hw | rfl
      · exact ih w hw
      · exact ⟨noise, hroom, htick⟩

/-- A task comes back with its red zone exactly when the interrupt pushed nothing new onto it. -/
theorem MachineRun.redZoneKept {init : Tasks Task} (hrun : MachineRun V s₀ h s) (hinit : Shows V init s₀)
    (hcur : init.cur = 0) {k : Nat} (hk : k < h.length) (hlater : nTasks ≤ k + 1) :
    ∃ hj : k + 1 - nTasks < h.length,
      RedZoneKept h[k + 1 - nTasks].before h[k].after ↔ AlreadyPushed h[k + 1 - nTasks].before := by
  obtain ⟨hj, w, w', hw, hw', -, hframed⟩ := hrun.resumed hinit hcur hk hlater
  obtain ⟨noise, hroom, -⟩ := hrun.interrupted _ (List.getElem_mem hj)
  refine ⟨hj, ?_, ?_⟩
  · intro hkept v hv hpushed
    rw [← hkept v hv, vread_resumed hw hw' hframed hroom hv, if_pos hpushed]
  · intro halready v hv
    rw [vread_resumed hw hw' hframed hroom hv]
    split_ifs with hpushed
    · exact (halready v hv hpushed).symm
    · rfl

/-- **The red zone is not respected.** From `init_tasks` and `start_task0` on, whatever the tasks do
    between the timer interrupts, as long as each finds room for the frames on its task's stack (`Room`): a
    task is resumed with the red zone it was interrupted with exactly when the frame pushed over it changed
    no byte of it. -/
theorem red_zone_kept_iff (L : TableLayout shipped) (V : SchedVars L) (m₀ m : Mem)
    (kernelCr3 : Nat) (vm : VmState) (hzero : ZeroedTables L m₀)
    (hvm : initVirtualMemory L m₀ kernelCr3 = .ok vm) (hkeep : Set.EqOn m vm.mem L.bytes)
    (regs : Nat → KernelRegs) (frame : List UInt8) (hframe : frame.length ≤ 0x1000000) (c : Cpu) :
    ∃ m₁ s₀, initTasks V vm.taskCr3s regs m = some m₁ ∧ startTask0 V frame c m₁ = some s₀
      ∧ ∀ h s, MachineRun V s₀ h s → ∀ k (hk : k < h.length), nTasks ≤ k + 1 →
        ∃ hj : k + 1 - nTasks < h.length,
          RedZoneKept h[k + 1 - nTasks].before h[k].after ↔ AlreadyPushed h[k + 1 - nTasks].before := by
  obtain ⟨-, m₁, s₀, hinit, hstart, hshows₀, -⟩ := boot_shows V hzero hvm hkeep regs frame hframe c
  exact ⟨m₁, s₀, hinit, hstart, fun h s hrun k hk hlater => hrun.redZoneKept hshows₀ rfl hk hlater⟩

/-! ## A concrete run -/

/-- With an empty stack the interrupted `rsp` itself is pushed at `0x40fffff0`. -/
theorem pushedAt_rsp {c : Cpu} (hrsp : c.gpr .rsp = 0x41000000) : pushedAt c 0x40fffff0 = 0 := by
  have halign : 0x40fffff0 + 160 - (align16 (c.gpr .rsp)).toNat = 144 := by
    rw [hrsp]
    decide
  have hbyte : (wordBytes (frameWords generalRegs c)).getD 144 0 = UInt8.ofNat (c.gpr .rsp).toNat := rfl
  rw [pushedAt, halign, hbyte, hrsp]
  decide

/-- Task 0, interrupted with an empty stack, keeps or loses its red zone. -/
theorem red_zone_kept_iff_round :
    ∃ vm m₁ s₀ h s, initVirtualMemory packedLayout (fun _ => 0) 0 = .ok vm
      ∧ initTasks packedVars vm.taskCr3s (fun _ => ⟨0x10, 0x8, 0x202⟩) vm.mem = some m₁
      ∧ startTask0 packedVars [] ⟨fun _ => 0, 0, 0x202, 0x8, 0x10, 0⟩ m₁ = some s₀
      ∧ MachineRun packedVars s₀ h s ∧ ∃ (hi : 0 < h.length) (hk : 2 < h.length),
        RedZoneKept h[0].before h[2].after ↔ AlreadyPushed h[0].before := by
  obtain ⟨vm, m₁, s₀, hvm, hinit, hstart, hshows, hrsp, hframes⟩ := boot_packed
  obtain ⟨s₁, s₂, s₃, hrun⟩ := MachineRun.start.round hshows hframes hrsp
  obtain ⟨m₁', s₀', hinit', hstart', hall⟩ := red_zone_kept_iff packedLayout packedVars (fun _ => 0)
    vm.mem 0 vm (zeroedTables_zero packedLayout) hvm (Set.eqOn_refl ..) (fun _ => ⟨0x10, 0x8, 0x202⟩)
    [] (Nat.zero_le _) ⟨fun _ => 0, 0, 0x202, 0x8, 0x10, 0⟩
  rw [hinit, Option.some.injEq] at hinit'
  subst hinit'
  rw [hstart, Option.some.injEq] at hstart'
  subst hstart'
  obtain ⟨hi, hiff⟩ := hall _ s₃ hrun 2 (by simp) (by decide)
  exact ⟨vm, m₁, s₀, _, s₃, hvm, hinit, hstart, hrun, hi, by simp, hiff⟩

/-- A byte of task 0's red zone that is `0xff` when the task is interrupted and `0` when it is resumed:
    the interrupt has pushed `rsp` over it. -/
theorem red_zone_lost :
    ∃ vm m₁ s₀ h s, initVirtualMemory packedLayout (fun _ => 0) 0 = .ok vm
      ∧ initTasks packedVars vm.taskCr3s (fun _ => ⟨0x10, 0x8, 0x202⟩) vm.mem = some m₁
      ∧ startTask0 packedVars [] ⟨fun _ => 0, 0, 0x202, 0x8, 0x10, 0⟩ m₁ = some s₀
      ∧ MachineRun packedVars s₀ h s ∧ ∃ (hi : 0 < h.length) (hk : 2 < h.length),
        seen h[0].before 0x40fffff0 = some [0xff] ∧ seen h[2].after 0x40fffff0 = some [0]
          ∧ ¬ RedZoneKept h[0].before h[2].after := by
  obtain ⟨vm, m₁, s₀, hvm, hinit, hstart, hshows, hrsp, hframes⟩ := boot_packed
  -- the task writes `0xff` into its red zone
  let s : Machine := { s₀ with mem := Function.update s₀.mem (getTaskPhysAddr 0 + 0xfffff0) 0xff }
  have hprivate := privateBytes_eq hshows.sane hshows.root
  have hwork : Working s₀ s := by
    refine ⟨rfl, fun x hx => Function.update_of_ne ?_ ..⟩
    rintro rfl
    rw [hprivate] at hx
    exact hx ⟨Nat.le_add_right .., Nat.add_lt_add_left (by decide) _⟩
  have hrun₀ : MachineRun packedVars s₀ [] s := .work .start hwork
  obtain ⟨s₁, s₂, s₃, hrun⟩ := hrun₀.round hshows hframes hrsp
  have hzone : InRedZone s.cpu 0x40fffff0 := by
    show InRedZone s₀.cpu _
    unfold InRedZone
    rw [hrsp]
    decide
  have hbefore : seen s 0x40fffff0 = some [0xff] := by
    have hwin := vread_window (hshows.work hwork).2.sane (hshows.work hwork).2.root
      (v := 0x40fffff0) ⟨by decide, by decide⟩
    refine hwin.trans (congrArg (fun b => some [b]) ?_)
    have hoff : 0x40fffff0 - 0x40000000 = 0xfffff0 := by decide
    show window s.mem 0 _ = _
    unfold window
    rw [hoff]
    exact Function.update_self (getTaskPhysAddr 0 + 0xfffff0) 0xff s₀.mem
  obtain ⟨hj, w, w', hw, hw', -, hframed⟩ := hrun.resumed hshows rfl (k := 2) (by simp) (by decide)
  have hafter : seen s₃ 0x40fffff0 = some [0] := by
    have hseen := vread_resumed hw hw' hframed (room_of_emptyStack hrsp) hzone
    rw [if_pos (by show _ < (align16 (s₀.cpu.gpr .rsp)).toNat; rw [hrsp]; decide)] at hseen
    exact hseen.trans (congrArg (fun b => some [b]) (pushedAt_rsp hrsp))
  refine ⟨vm, m₁, s₀, _, s₃, hvm, hinit, hstart, hrun, by simp, by simp, hbefore, hafter, ?_⟩
  intro hkept
  have hlost : seen s₃ 0x40fffff0 = seen s 0x40fffff0 := hkept _ hzone
  rw [hbefore, hafter] at hlost
  exact absurd hlost (by decide)

end Sched
end SysproKernel

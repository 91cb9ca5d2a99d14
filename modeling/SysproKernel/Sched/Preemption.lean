import SysproKernel.Sched.Startup

/-!
# `Sched.Preemption` — preemptive switching is round-robin tasks

Runs of the machine from `start_task0` on: the running task does anything to its registers and its
private memory, and timer interrupts come at any moment at which its stack has room for the frames.
`MachineRun.simulates` turns such a run into a run of the abstract tasks, switch by switch, and the facts
about turns of `Lib.RoundRobin` come back as facts about registers and memory
(`preemptive_switching_refines_tasks`).
-/

namespace SysproKernel
namespace Sched

open Lib.ByteMem Lib.RoundRobin Lib.X86 Memory

variable {L : TableLayout shipped} {V : SchedVars L} {s₀ s s' : Machine}
  {h : List (Switch Machine)} {init a : Tasks Task}

/-- Runs of the machine from `s₀`, with the timer interrupts taken so far. -/
inductive MachineRun (V : SchedVars L) (s₀ : Machine) : List (Switch Machine) → Machine → Prop
  | start : MachineRun V s₀ [] s₀
  | work {h : List (Switch Machine)} {s s' : Machine} :
      MachineRun V s₀ h s → Working s s' → MachineRun V s₀ h s'
  | tick {h : List (Switch Machine)} {s s' : Machine} (noise : CallNoise) :
      MachineRun V s₀ h s → Room noise s → timerInterrupt V noise s = some s' →
      MachineRun V s₀ (h ++ [⟨s, s'⟩]) s'

/-- A switch of the tasks shown by a switch of the machine. -/
def ShowsSwitch (V : SchedVars L) (w : Switch (Tasks Task)) (z : Switch Machine) : Prop :=
  Shows V w.before z.before ∧ Shows V w.after z.after

/-- **Simulation.** Every run of the machine shows a run of the round-robin tasks. -/
theorem MachineRun.simulates (hrun : MachineRun V s₀ h s) (hinit : Shows V init s₀) :
    ∃ H a, Run nTasks Works Framed init H a ∧ Shows V a s ∧ List.Forall₂ (ShowsSwitch V) H h := by
  induction hrun with
  | start => exact ⟨[], init, .start, hinit, .nil⟩
  | work _ hwork ih =>
      obtain ⟨H, a, habs, hshows, hswitches⟩ := ih
      obtain ⟨hworks, hshows'⟩ := hshows.work hwork
      exact ⟨H, _, habs.work hworks, hshows', hswitches⟩
  | @tick h s s' noise _ hroom htick ih =>
      obtain ⟨H, a, habs, hshows, hswitches⟩ := ih
      obtain ⟨s₁, x, htick₁, hframed, hshows'⟩ := hshows.tick hroom
      rw [htick, Option.some.injEq] at htick₁
      subst htick₁
      refine ⟨_, _, habs.switch hframed, hshows', List.rel_append hswitches ?_⟩
      exact .cons ⟨hshows, hshows'⟩ .nil

/-- **A resumed task is the interrupted one.** From its second turn on, a task runs again on top of the
    frame pushed when it was interrupted `nTasks` switches ago. -/
theorem MachineRun.resumed (hrun : MachineRun V s₀ h s) (hinit : Shows V init s₀) (hcur : init.cur = 0)
    {k : Nat} (hk : k < h.length) (hlater : nTasks ≤ k + 1) :
    ∃ (hj : k + 1 - nTasks < h.length) (w w' : Tasks Task), Shows V w h[k + 1 - nTasks].before
      ∧ Shows V w' h[k].after ∧ w'.cur = w.cur ∧ Framed w.running w'.running := by
  obtain ⟨H, a, habs, hshows, hswitches⟩ := hrun.simulates hinit
  have hN : 0 < nTasks := by decide
  have hlen : H.length = h.length := hswitches.length_eq
  have hkH : k < H.length := by omega
  have hshown : ∀ j (hj : j < h.length) (hjH : j < H.length), ShowsSwitch V H[j] h[j] :=
    fun j hj hjH => (List.forall₂_iff_get.mp hswitches).2 j hjH hj
  obtain ⟨hj, hframed⟩ := habs.resumed hcur hN hkH hlater
  have hj' : k + 1 - nTasks < h.length := by omega
  have hturn := (habs.inv hcur hN).2
  refine ⟨hj', _, _, (hshown _ hj' hj).1, (hshown k hk hkH).2, ?_, hframed⟩
  have hmod : (k + 1) % nTasks = (k + 1 - nTasks) % nTasks := Nat.mod_eq_sub_mod hlater
  rw [(hturn k hkH).after, hmod, (hturn _ hj).before]

/-- **A first turn** enters the task at its entry point with an empty stack. -/
theorem MachineRun.entered (hrun : MachineRun V s₀ h s) (hinit : Shows V (tasksAtStart L s₀) s₀)
    (hframes : ∀ i < nTasks, i ≠ 0 → EntryFrame V i s₀.mem) {k : Nat} (hk : k < h.length)
    (hfirst : k + 1 < nTasks) :
    h[k].after.cpu.rip = 0x40000000 ∧ h[k].after.cpu.gpr .rsp = 0x41000000 := by
  obtain ⟨H, a, habs, hshows, hswitches⟩ := hrun.simulates hinit
  have hlen : H.length = h.length := hswitches.length_eq
  have hkH : k < H.length := by omega
  have hafter : Shows V H[k].after h[k].after := ((List.forall₂_iff_get.mp hswitches).2 k hkH hk).2
  have hne : k + 1 ≠ 0 := Nat.succ_ne_zero k
  have hcpu : h[k].after.cpu = savedCpu s₀.mem (getTaskPhysAddr (k + 1) + 0xffff60)
      (UInt64.ofNat (L.addr (.PML4s (k + 1)))) := by
    rw [← hafter.running, habs.entered rfl hkH hfirst]
    simp only [tasksAtStart, if_neg hne]
  rw [hcpu]
  exact (hframes (k + 1) hfirst hne).enters (UInt64.ofNat (L.addr (.PML4s (k + 1))))

/-- **With room on the stack no interrupt fails.** -/
theorem MachineRun.ticks (hrun : MachineRun V s₀ h s) (hinit : Shows V init s₀) {noise : CallNoise}
    (hroom : Room noise s) :
    ∃ s', timerInterrupt V noise s = some s' ∧ MachineRun V s₀ (h ++ [⟨s, s'⟩]) s' := by
  obtain ⟨_, _, _, hshows, _⟩ := hrun.simulates hinit
  obtain ⟨s', _, htick, _⟩ := hshows.tick hroom
  exact ⟨s', htick, hrun.tick noise hroom htick⟩

/-- The machine comes back as it was: every register, and every byte the task sees at or above its
    stack pointer. -/
def ResumedAs (s s' : Machine) : Prop :=
  s'.cpu = s.cpu ∧ ∀ v, InWindow v → (s.cpu.gpr .rsp).toNat ≤ v →
    ∃ b, vread translate s.mem s.cpu.cr3.toNat v 1 = some [b]
      ∧ vread translate s'.mem s'.cpu.cr3.toNat v 1 = some [b]

/-- What two machines show of one parked task. -/
theorem resumedAs_of_parks {a' : Tasks Task} (hs : Shows V a s) (hs' : Shows V a' s')
    (hcur : a'.cur = a.cur) (hparks : Parks a.running a'.running) : ResumedAs s s' := by
  obtain ⟨hcpu, hmem⟩ := hparks
  have hlt := hs.sane.lt
  refine ⟨by rw [← hs.running, ← hs'.running, hcpu], fun v hv hrsp => ?_⟩
  refine ⟨window s.mem a.cur v, vread_window hs.sane hs.root hv, ?_⟩
  have hsame : window s'.mem a.cur v = window s.mem a.cur v := by
    rw [← hs.windows a.cur hlt v hv, ← hs'.windows a.cur hlt v hv]
    have hkeep := hmem v hv (by rw [hs.running]; exact hrsp)
    rwa [Tasks.running, Tasks.running, hcur] at hkeep
  rw [← hsame, ← hcur]
  exact vread_window hs'.sane hs'.root hv

/-- **Preemptive switching refines independent sequential tasks.** From `init_tasks` and `start_task0` on,
    whatever the tasks do between the timer interrupts and whenever these come: the machine shows a run
    of round-robin tasks; no interrupt fails; `cur_task` is the number of the task whose address space is
    loaded, and goes 0, 1, 2, 0, …; a task is resumed exactly as it was last interrupted, and tasks 1 and
    2 are first entered at their entry point with an empty stack. -/
theorem preemptive_switching_refines_tasks (L : TableLayout shipped) (V : SchedVars L) (m₀ m : Mem)
    (kernelCr3 : Nat) (vm : VmState) (hzero : ZeroedTables L m₀)
    (hvm : initVirtualMemory L m₀ kernelCr3 = .ok vm) (hkeep : Set.EqOn m vm.mem L.bytes)
    (regs : Nat → KernelRegs) (frame : List UInt8) (hframe : frame.length ≤ 0x1000000) (c : Cpu) :
    ∃ m₁ s₀, initTasks V vm.taskCr3s regs m = some m₁ ∧ startTask0 V frame c m₁ = some s₀
      ∧ s₀.cpu.rip = 0x40000000 ∧ s₀.cpu.gpr .rsp = 0x41000000
      ∧ ∀ h s, MachineRun V s₀ h s →
        (∃ H a, Run nTasks Works Parks (tasksAtStart L s₀) H a ∧ Shows V a s
          ∧ List.Forall₂ (ShowsSwitch V) H h)
        ∧ (∀ noise, Room noise s → ∃ s', timerInterrupt V noise s = some s')
        ∧ load s.mem V.curTask 4 = h.length % nTasks ∧ load s.mem V.curTask 4 < nTasks
        ∧ s.cpu.cr3.toNat = vm.taskCr3s (h.length % nTasks)
        ∧ ∀ k (hk : k < h.length),
          h[k].before.cpu.cr3.toNat = vm.taskCr3s (k % nTasks)
          ∧ h[k].after.cpu.cr3.toNat = vm.taskCr3s ((k + 1) % nTasks)
          ∧ (k + 1 < nTasks →
            h[k].after.cpu.rip = 0x40000000 ∧ h[k].after.cpu.gpr .rsp = 0x41000000)
          ∧ (nTasks ≤ k + 1 →
            ∃ hj : k + 1 - nTasks < h.length, ResumedAs h[k + 1 - nTasks].before h[k].after) := by
  obtain ⟨hroots, m₁, s₀, hinit, hstart, hshows₀, hrip, hrsp, hframes⟩ :=
    boot_shows V hzero hvm hkeep regs frame hframe c
  refine ⟨m₁, s₀, hinit, hstart, hrip, hrsp, fun h s hrun => ?_⟩
  obtain ⟨H, a, hframed, hshows, hswitches⟩ := hrun.simulates hshows₀
  have habs : Run nTasks Works Parks _ H a := hframed.mono (fun _ _ => Framed.parks)
  have hN : 0 < nTasks := by decide
  have hlen : H.length = h.length := hswitches.length_eq
  have hcur : a.cur = h.length % nTasks := by rw [habs.cur_eq rfl hN, hlen]
  refine ⟨⟨H, a, habs, hshows, hswitches⟩, ?_, ?_, ?_, ?_, ?_⟩
  · intro noise hroom
    obtain ⟨s', htick, -⟩ := hrun.ticks hshows₀ hroom
    exact ⟨s', htick⟩
  · rw [hshows.sane.curTask, hcur]
  · rw [hshows.sane.curTask]
    exact hshows.sane.lt
  · rw [hshows.root, ← hcur, hroots a.cur hshows.sane.lt]
  · intro k hk
    have hkH : k < H.length := by omega
    obtain ⟨hbefore, hafter⟩ : ShowsSwitch V H[k] h[k] :=
      (List.forall₂_iff_get.mp hswitches).2 k hkH hk
    have hturn := (habs.inv rfl hN).2 k hkH
    refine ⟨?_, ?_, ?_, ?_⟩
    · rw [hbefore.root, hturn.before, hroots _ (Nat.mod_lt _ hN)]
    · rw [hafter.root, hturn.after, hroots _ (Nat.mod_lt _ hN)]
    · exact hrun.entered hshows₀ hframes hk
    · intro hlater
      obtain ⟨hj, w, w', hw, hw', hsame, hparks⟩ := hrun.resumed hshows₀ rfl hk hlater
      exact ⟨hj, resumedAs_of_parks hw hw' hsame hparks.parks⟩

/-! ## A concrete run -/

theorem packed_in_kernel {T : TableId} (hT : T.Valid shipped) :
    shipped.kernelMemAddr ≤ packedLayout.addr T ∧
      packedLayout.addr T + pageLen ≤ shipped.kernelMemAddr + shipped.kernelMemLen :=
  ⟨Nat.le_add_right _ _, Nat.le_trans (packed_below hT) (by decide)⟩

/-- The scheduler's globals behind the packed tables. -/
def packedVars : SchedVars packedLayout where
  tasks := 0x100100000
  curTask := 0x100100040
  tablesIn _ hT := packed_in_kernel hT
  tasksIn := by decide
  curIn := by decide
  apart := by decide
  tasksOff x hx := .inl (Nat.lt_of_lt_of_le (packedLayout_bytes_lt x hx) (by decide))
  curOff x hx := .inl (Nat.lt_of_lt_of_le (packedLayout_bytes_lt x hx) (by decide))

/-- A call that leaves 64 bytes below the stack pointer. -/
def quietNoise : CallNoise := { frame := List.replicate 64 0, regs := fun _ => 0, rflags := 0 }

theorem room_of_emptyStack (hrsp : s.cpu.gpr .rsp = 0x41000000) : Room quietNoise s := by
  have halign : (align16 0x41000000).toNat = 0x41000000 := by decide
  unfold Room
  rw [hrsp, halign]
  decide

/-- Three interrupts in a row bring back a task that runs with an empty stack. -/
theorem MachineRun.round (hrun : MachineRun V s₀ [] s) (hinit : Shows V (tasksAtStart L s₀) s₀)
    (hframes : ∀ i < nTasks, i ≠ 0 → EntryFrame V i s₀.mem) (hrsp : s.cpu.gpr .rsp = 0x41000000) :
    ∃ s₁ s₂ s₃, MachineRun V s₀ [⟨s, s₁⟩, ⟨s₁, s₂⟩, ⟨s₂, s₃⟩] s₃ := by
  obtain ⟨s₁, -, hrun₁⟩ := hrun.ticks hinit (room_of_emptyStack hrsp)
  have hrsp₁ := (hrun₁.entered hinit hframes (k := 0) (by simp) (by decide)).2
  obtain ⟨s₂, -, hrun₂⟩ := hrun₁.ticks hinit (room_of_emptyStack hrsp₁)
  have hrsp₂ := (hrun₂.entered hinit hframes (k := 1) (by simp) (by decide)).2
  obtain ⟨s₃, -, hrun₃⟩ := hrun₂.ticks hinit (room_of_emptyStack hrsp₂)
  exact ⟨s₁, s₂, s₃, hrun₃⟩

/-- A machine about to enter task 0 with the packed tables. -/
theorem boot_packed :
    ∃ vm m₁ s₀, initVirtualMemory packedLayout (fun _ => 0) 0 = .ok vm
      ∧ initTasks packedVars vm.taskCr3s (fun _ => ⟨0x10, 0x8, 0x202⟩) vm.mem = some m₁
      ∧ startTask0 packedVars [] ⟨fun _ => 0, 0, 0x202, 0x8, 0x10, 0⟩ m₁ = some s₀
      ∧ Shows packedVars (tasksAtStart packedLayout s₀) s₀ ∧ s₀.cpu.gpr .rsp = 0x41000000
      ∧ ∀ i < nTasks, i ≠ 0 → EntryFrame packedVars i s₀.mem := by
  obtain ⟨vm, hvm, -⟩ := initVirtualMemory_windows (zeroedTables_zero packedLayout) 0
  obtain ⟨-, m₁, s₀, hinit, hstart, hshows, -, hrsp, hframes⟩ := boot_shows packedVars
    (zeroedTables_zero packedLayout) hvm (Set.eqOn_refl ..) (fun _ => ⟨0x10, 0x8, 0x202⟩)
    [] (Nat.zero_le _) ⟨fun _ => 0, 0, 0x202, 0x8, 0x10, 0⟩
  exact ⟨vm, m₁, s₀, hvm, hinit, hstart, hshows, hrsp, hframes⟩

/-- After one round of three interrupts task 0 is back with the registers it started with. -/
theorem preemptive_switching_round :
    ∃ vm m₁ s₀ h s, initVirtualMemory packedLayout (fun _ => 0) 0 = .ok vm
      ∧ initTasks packedVars vm.taskCr3s (fun _ => ⟨0x10, 0x8, 0x202⟩) vm.mem = some m₁
      ∧ startTask0 packedVars [] ⟨fun _ => 0, 0, 0x202, 0x8, 0x10, 0⟩ m₁ = some s₀
      ∧ MachineRun packedVars s₀ h s ∧ h.length = 3 ∧ s.cpu = s₀.cpu := by
  obtain ⟨vm, m₁, s₀, hvm, hinit, hstart, hshows, hrsp, hframes⟩ := boot_packed
  obtain ⟨s₁, s₂, s₃, hrun⟩ := MachineRun.start.round hshows hframes hrsp
  obtain ⟨m₁', s₀', hinit', hstart', -, -, hall⟩ := preemptive_switching_refines_tasks packedLayout
    packedVars (fun _ => 0) vm.mem 0 vm (zeroedTables_zero packedLayout) hvm (Set.eqOn_refl ..)
    (fun _ => ⟨0x10, 0x8, 0x202⟩) [] (Nat.zero_le _) ⟨fun _ => 0, 0, 0x202, 0x8, 0x10, 0⟩
  rw [hinit, Option.some.injEq] at hinit'
  subst hinit'
  rw [hstart, Option.some.injEq] at hstart'
  subst hstart'
  obtain ⟨_, hresumed⟩ := ((hall _ s₃ hrun).2.2.2.2.2 2 (by simp)).2.2.2 (by decide)
  exact ⟨vm, m₁, s₀, _, s₃, hvm, hinit, hstart, hrun, rfl, hresumed.1⟩

end Sched
end SysproKernel

import Mathlib.Data.List.Forall2
import SysproKernel.Lib.RoundRobin
import SysproKernel.Sched.Switch

/-!
# `Sched.Tasks` — the tasks a machine shows

Seen from outside, a task is its registers and its private window. `Shows V a s` reads the round-robin
tasks `a` off the machine `s`: the running task's registers are in the processor, those of the others in
the frames `tasks[]` points to. The two kinds of machine steps are simulated one by one: what the running
task does is its own work (`Shows.work`), and a timer interrupt is a switch (`Shows.tick`).
-/

namespace SysproKernel
namespace Sched

open Lib.ByteMem Lib.RoundRobin Lib.X86 Memory

variable {L : TableLayout shipped} {V : SchedVars L} {m m' : Mem} {s s' : Machine} {t c : Nat}

/-! ## Tasks -/

/-- The virtual addresses of a task's private memory. -/
def InWindow (v : Nat) : Prop := 0x40000000 ≤ v ∧ v < 0x41000000

/-- A task: its registers and the bytes of its private memory, by virtual address. -/
structure Task where
  cpu : Cpu
  mem : Nat → UInt8

/-- A running task changes its registers and its memory; its address space stays. -/
def Works (x y : Task) : Prop := y.cpu.cr3 = x.cpu.cr3

/-- An interrupted task keeps its registers and its memory from the stack pointer up. -/
def Parks (x y : Task) : Prop :=
  y.cpu = x.cpu ∧ ∀ v, InWindow v → (x.cpu.gpr .rsp).toNat ≤ v → y.mem v = x.mem v

/-- The byte an interrupt of the registers `c` pushes at virtual address `v`. -/
def pushedAt (c : Cpu) (v : Nat) : UInt8 :=
  (wordBytes (frameWords generalRegs c)).getD (v + 160 - (align16 (c.gpr .rsp)).toNat) 0

/-- What exactly happens to an interrupted task: its frame lies below the aligned stack pointer, and
    nothing above the frame changes. -/
def Framed (x y : Task) : Prop :=
  y.cpu = x.cpu ∧ ∀ v, InWindow v → (align16 (x.cpu.gpr .rsp)).toNat ≤ v + 160 →
    y.mem v = if v < (align16 (x.cpu.gpr .rsp)).toNat then pushedAt x.cpu v else x.mem v

theorem Framed.parks {x y : Task} (h : Framed x y) : Parks x y := by
  refine ⟨h.1, fun v hv hsp => ?_⟩
  have hle := align16_le (x.cpu.gpr .rsp)
  rw [h.2 v hv (by omega), if_neg (by omega)]

/-- The private memory of task `t`, in physical memory. -/
def window (m : Mem) (t v : Nat) : UInt8 := m (getTaskPhysAddr t + (v - 0x40000000))

theorem window_congr (h : Set.EqOn m' m (Set.Ico (getTaskPhysAddr t) (getTaskPhysAddr t + 0x1000000)))
    {v : Nat} (hv : InWindow v) : window m' t v = window m t v := by
  obtain ⟨hlo, hhi⟩ := hv
  exact h ⟨by omega, by omega⟩

/-- Task `t` waits with the registers `c` in the frame `tasks[t].sp` points to. -/
def Suspended (V : SchedVars L) (m : Mem) (t : Nat) (c : Cpu) : Prop :=
  ∃ w, w + 160 ≤ 0x1000000 ∧ load m (V.sp t) 8 = 0x40000000 + w
    ∧ savedCpu m (getTaskPhysAddr t + w) c.cr3 = c

theorem Suspended.congr {r : Cpu} (h : Suspended V m t r)
    (hsp : Set.EqOn m' m (Set.Ico (V.sp t) (V.sp t + 8)))
    (hwin : Set.EqOn m' m (Set.Ico (getTaskPhysAddr t) (getTaskPhysAddr t + 0x1000000))) :
    Suspended V m' t r := by
  obtain ⟨w, hw, hload, hframe⟩ := h
  refine ⟨w, hw, by rw [load_congr hsp, hload], ?_⟩
  rw [savedCpu_congr (hwin.mono (Set.Ico_subset_Ico (by omega) (by omega))), hframe]

/-- **The machine shows the tasks.** -/
structure Shows (V : SchedVars L) (a : Tasks Task) (s : Machine) : Prop where
  sane : Sane V s.mem a.cur
  running : a.running.cpu = s.cpu
  roots : ∀ t < nTasks, (a.task t).cpu.cr3 = UInt64.ofNat (L.addr (.PML4s t))
  windows : ∀ t < nTasks, ∀ v, InWindow v → (a.task t).mem v = window s.mem t v
  suspended : ∀ t < nTasks, t ≠ a.cur → Suspended V s.mem t (a.task t).cpu

variable {a : Tasks Task}

theorem Shows.root (h : Shows V a s) : s.cpu.cr3.toNat = L.addr (.PML4s a.cur) := by
  have hlt := root_lt (L := L) h.sane.lt
  rw [← h.running, Tasks.running, h.roots a.cur h.sane.lt, UInt64.toNat_ofNat',
    Nat.mod_eq_of_lt hlt]

/-! ## What the running task does -/

/-- The physical addresses behind the private window of the current address space. -/
def privateBytes (s : Machine) : Set Nat :=
  {x | ∃ v, InWindow v ∧ translate s.mem s.cpu.cr3.toNat v = some x}

/-- What a task does between two interrupts: any change of its registers and of its private memory. -/
structure Working (s s' : Machine) : Prop where
  cr3 : s'.cpu.cr3 = s.cpu.cr3
  mem : ∀ x, x ∉ privateBytes s → s'.mem x = s.mem x

theorem privateBytes_eq (h : Sane V s.mem c) (hroot : s.cpu.cr3.toNat = L.addr (.PML4s c)) :
    privateBytes s = Set.Ico (getTaskPhysAddr c) (getTaskPhysAddr c + 0x1000000) := by
  have hmaps : ∀ v, InWindow v →
      translate s.mem s.cpu.cr3.toNat v = some (getTaskPhysAddr c + (v - 0x40000000)) := by
    rintro v ⟨hlo, hhi⟩
    have hv := maps_window h.tables h.lt (v - 0x40000000) (by omega)
    rwa [Nat.add_sub_cancel' hlo, ← hroot] at hv
  ext x
  constructor
  · rintro ⟨v, hv, hx⟩
    obtain ⟨hlo, hhi⟩ := hv
    rw [hmaps v ⟨hlo, hhi⟩, Option.some.injEq] at hx
    exact ⟨by omega, by omega⟩
  · rintro ⟨hlo, hhi⟩
    refine ⟨0x40000000 + (x - getTaskPhysAddr c), ⟨by omega, by omega⟩, ?_⟩
    rw [hmaps _ ⟨by omega, by omega⟩, Nat.add_sub_cancel_left, Nat.add_sub_cancel' hlo]

/-- The byte a virtual address of the window shows to the running task. -/
theorem vread_window (h : Sane V s.mem c) (hroot : s.cpu.cr3.toNat = L.addr (.PML4s c)) {v : Nat}
    (hv : InWindow v) : vread translate s.mem s.cpu.cr3.toNat v 1 = some [window s.mem c v] := by
  obtain ⟨hlo, hhi⟩ := hv
  have hmaps := (maps_window h.tables h.lt).part (show (v - 0x40000000) + 1 ≤ 0x1000000 by omega)
  rw [Nat.add_sub_cancel' hlo, ← hroot] at hmaps
  rw [vread_eq hmaps]
  rfl

/-- **Work of the running task is its own.** -/
theorem Shows.work (h : Shows V a s) (hwork : Working s s') :
    Works a.running ⟨s'.cpu, window s'.mem a.cur⟩
      ∧ Shows V (a.work ⟨s'.cpu, window s'.mem a.cur⟩) s' := by
  have hcur := h.sane.lt
  have hphys := getTaskPhysAddr_eq hcur
  have hmem : ∀ x, (x < getTaskPhysAddr a.cur ∨ getTaskPhysAddr a.cur + 0x1000000 ≤ x) →
      s'.mem x = s.mem x := by
    intro x hx
    refine hwork.mem x ?_
    rw [privateBytes_eq h.sane h.root]
    rintro ⟨hlo, hhi⟩
    omega
  have hwindow : ∀ i < nTasks, i ≠ a.cur →
      Set.EqOn s'.mem s.mem (Set.Ico (getTaskPhysAddr i) (getTaskPhysAddr i + 0x1000000)) := by
    rintro i hi hne x ⟨hlo, hhi⟩
    have hphysi := getTaskPhysAddr_eq hi
    exact hmem x (by omega)
  have htask : ∀ i, i ≠ a.cur → (a.work ⟨s'.cpu, window s'.mem a.cur⟩).task i = a.task i :=
    fun i hne => Function.update_of_ne hne ..
  have hself : (a.work ⟨s'.cpu, window s'.mem a.cur⟩).task a.cur = ⟨s'.cpu, window s'.mem a.cur⟩ :=
    Function.update_self ..
  have hcr3 : s'.cpu.cr3 = a.running.cpu.cr3 := by rw [hwork.cr3, h.running]
  refine ⟨hcr3, ?_, ?_, ?_, ?_, ?_⟩
  · exact h.sane.congr (fun x hx => hmem x (Or.inl (by have := V.bytes_inKernel hx; omega)))
  · exact congrArg Task.cpu hself
  · intro i hi
    by_cases hic : i = a.cur
    · rw [hic, hself, ← h.roots a.cur hcur]
      exact hcr3
    · rw [htask i hic]
      exact h.roots i hi
  · intro i hi v hv
    by_cases hic : i = a.cur
    · rw [hic, hself]
    · rw [htask i hic, h.windows i hi v hv, window_congr (hwindow i hi hic) hv]
  · intro i hi hne
    have hb := V.sp_bounds hi
    rw [htask i hne]
    refine (h.suspended i hi hne).congr (fun x hx => hmem x (Or.inl ?_)) (hwindow i hi hne)
    have := hx.2
    omega

/-! ## What a timer interrupt does -/

/-- The bytes of a frame, seen from the task it lies on. -/
theorem window_pushed {r : Cpu} {k : Nat}
    (hwords : Words m (getTaskPhysAddr t + k) (frameWords generalRegs r))
    (halign : (align16 (r.gpr .rsp)).toNat = 0x40000000 + (k + 160)) {v : Nat} (hv : InWindow v)
    (hlo : (align16 (r.gpr .rsp)).toNat ≤ v + 160) (hhi : v < (align16 (r.gpr .rsp)).toNat) :
    window m t v = pushedAt r v := by
  have hlow := hv.1
  have hlen : (readBytes m (getTaskPhysAddr t + k) (8 * (frameWords generalRegs r).length)).length
      = 160 := readBytes_length ..
  have hi : v + 160 - (align16 (r.gpr .rsp)).toNat
      < (readBytes m (getTaskPhysAddr t + k) (8 * (frameWords generalRegs r).length)).length := by
    omega
  rw [pushedAt, ← hwords.bytes, List.getD_eq_getElem?_getD, List.getElem?_eq_getElem hi,
    Option.getD_some, readBytes_getElem, window]
  exact congrArg m (by omega)

/-- **A timer interrupt is a switch**, and with room on the stack it never fails. -/
theorem Shows.tick (h : Shows V a s) {noise : CallNoise} (hroom : Room noise s) :
    ∃ s' x, timerInterrupt V noise s = some s' ∧ Framed a.running x
      ∧ Shows V (a.switch nTasks x) s' := by
  have hcur := h.sane.lt
  have hnext := nextTask_lt a.cur
  have hne := nextTask_ne a.cur
  obtain ⟨w, hw, hsp, hframe⟩ := h.suspended (nextTask a.cur) hnext hne
  obtain ⟨m, k, hrun, hk, halign, hspc, hsaved, hwords, hcurTask, hrest⟩ :=
    h.sane.timerInterrupt noise h.root hroom hw hsp
  replace hrest := hrest.mono (untouched_spared (Nat.le_refl (k + 160)))
  rw [← h.roots _ hnext, hframe] at hrun
  let x : Task := ⟨s.cpu, window m a.cur⟩
  have htask : ∀ i, i ≠ a.cur → (a.switch nTasks x).task i = a.task i :=
    fun i hi => Function.update_of_ne hi ..
  have hself : (a.switch nTasks x).task a.cur = x := Function.update_self ..
  have hwindow : ∀ i < nTasks, i ≠ a.cur →
      Set.EqOn m s.mem (Set.Ico (getTaskPhysAddr i) (getTaskPhysAddr i + 0x1000000)) :=
    fun i hi hic => hrest.mono (other_window_untouched hcur hi hic hk)
  have hphys := getTaskPhysAddr_eq hcur
  have hb := V.sp_bounds hcur
  have hcurb := V.cur_bounds
  have heoi : lapicEoi = 0xfee000b0 := rfl
  refine ⟨_, x, hrun, ⟨h.running.symm, ?_⟩, ?_, ?_, ?_, ?_, ?_⟩
  · rintro v ⟨hlo, hhi⟩ hv
    rw [h.running] at hv ⊢
    by_cases hframe : v < (align16 (s.cpu.gpr .rsp)).toNat
    · rw [if_pos hframe]
      exact window_pushed hwords halign ⟨hlo, hhi⟩ hv hframe
    · -- above the aligned stack pointer nothing is pushed
      rw [if_neg hframe, Tasks.running, h.windows a.cur hcur v ⟨hlo, hhi⟩]
      exact hrest ⟨by omega, by omega, by omega, by omega⟩
  · refine ⟨gives_initialForest, h.sane.tables.congr (hrest.mono (tables_untouched hcur)), hnext,
      hcurTask, ?_⟩
    intro i hi
    rw [load_congr (hrest.mono (tasks_untouched hcur hi (Or.inr rfl))), h.sane.cr3s i hi]
  · exact congrArg Task.cpu (htask (nextTask a.cur) hne)
  · intro i hi
    by_cases hic : i = a.cur
    · rw [hic, hself, ← h.roots a.cur hcur]
      exact congrArg Cpu.cr3 h.running.symm
    · rw [htask i hic]
      exact h.roots i hi
  · intro i hi v hv
    by_cases hic : i = a.cur
    · rw [hic, hself]
    · rw [htask i hic, h.windows i hi v hv]
      exact (window_congr (hwindow i hi hic) hv).symm
  · intro i hi hine
    by_cases hic : i = a.cur
    · -- the task just interrupted
      rw [hic, hself]
      exact ⟨k, hk, hspc, hsaved⟩
    · rw [htask i hic]
      exact (h.suspended i hi hic).congr
        (hrest.mono (tasks_untouched hcur hi (Or.inl ⟨hic, rfl⟩))) (hwindow i hi hic)

end Sched
end SysproKernel

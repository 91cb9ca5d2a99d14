import SysproKernel.Sched.Handler

/-!
# `Sched.Switch` — one timer interrupt

What `lapic_intr_handler` does from the first push of the processor to `iretq`, in physical memory:
`InOrder.timerInterrupt`. The running task's registers end up in a frame on its own stack, `tasks[]` and
`cur_task` are updated, and the next task continues with the registers its frame decodes to. The tables
may have any shape that gives the tasks their windows (`Gives`).

The handler switches the stack pointer before `cr3`; nothing is pushed or popped between the two, and
both loads are from `tasks[]`, which every address space maps alike.
-/

namespace SysproKernel
namespace Sched

open Lib.ByteMem Lib.Windows Lib.X86 Memory

variable {L : TableLayout shipped} {V : SchedVars L} {τ : Forest} {m m' : Mem} {t c : Nat}

/-! ## Address spaces -/

theorem getTaskPhysAddr_eq (ht : t < nTasks) : getTaskPhysAddr t = 0x104000000 + 0x1000000 * t := by
  have hcases : t = 0 ∨ t = 1 ∨ t = 2 := by
    unfold nTasks at ht
    omega
  rcases hcases with rfl | rfl | rfl <;> rfl

theorem SchedVars.inKernel_bytes (V : SchedVars L) {x : Nat} (hx : x ∈ L.bytes) :
    0x100000000 ≤ x ∧ x < 0x101000000 := by
  obtain ⟨T, hT, hlo, hhi⟩ := hx
  obtain ⟨hbase, hend⟩ := V.tablesIn T hT
  have hmem : shipped.kernelMemAddr = 0x100000000 := rfl
  have hlen : shipped.kernelMemLen = 0x1000000 := rfl
  rw [hmem] at hbase hend
  rw [hlen] at hend
  omega

/-- A forest that gives every task its windows, and beyond them at most the page that is mapped on
    demand. -/
def Gives (τ : Forest) : Prop :=
  ∀ t < nTasks, ∀ v < 2 ^ 47, ¬ (0x300000000 ≤ v ∧ v < 0x300001000) →
    τ.translate (.PML4s t) v = lookup (taskWindows t) v

theorem gives_initialForest : Gives initialForest :=
  fun _ ht _ hv _ => translate_initialForest ht (by omega)

theorem Gives.translate_eq (hτ : Gives τ) (h : Represents L m τ) (ht : t < nTasks) {v : Nat}
    (hv : v < 2 ^ 47) (hoff : ¬ (0x300000000 ≤ v ∧ v < 0x300001000)) :
    translate m (L.addr (.PML4s t)) v = lookup (taskWindows t) v := by
  have hcanon : Canonical v := Or.inl hv
  rw [translate, if_pos hcanon, walk_eq_translate h ht, hτ t ht v hv hoff]

theorem translate_eq (h : Represents L m initialForest) (ht : t < nTasks) {v : Nat}
    (hv : v < 2 ^ 47) : translate m (L.addr (.PML4s t)) v = lookup (taskWindows t) v := by
  have hcanon : Canonical v := Or.inl hv
  rw [translate, if_pos hcanon, walk_eq_lookup h ht (by omega)]

/-- A task's private window, as it is mapped. -/
theorem Gives.maps_window (hτ : Gives τ) (h : Represents L m τ) (ht : t < nTasks) :
    Maps translate m (L.addr (.PML4s t)) 0x40000000 (getTaskPhysAddr t) 0x1000000 := by
  intro i hi
  rw [hτ.translate_eq h ht (by omega) (by omega), lookup_taskWindows, if_pos (by omega),
    Nat.add_sub_cancel_left]

theorem maps_window (h : Represents L m initialForest) (ht : t < nTasks) :
    Maps translate m (L.addr (.PML4s t)) 0x40000000 (getTaskPhysAddr t) 0x1000000 :=
  gives_initialForest.maps_window h ht

/-- Kernel memory and the LAPIC registers are mapped to themselves in every address space. -/
theorem Gives.maps_shared (hτ : Gives τ) (h : Represents L m τ) (ht : t < nTasks) {a n : Nat}
    (ha : (0x100000000 ≤ a ∧ a + n ≤ 0x101000000) ∨ (0xfee00000 ≤ a ∧ a + n ≤ 0xfee01000)) :
    Maps translate m (L.addr (.PML4s t)) a a n := by
  intro i hi
  rw [hτ.translate_eq h ht (by omega) (by omega), lookup_taskWindows, if_neg (by omega),
    if_pos (by omega)]

theorem maps_shared (h : Represents L m initialForest) (ht : t < nTasks) {a n : Nat}
    (ha : (0x100000000 ≤ a ∧ a + n ≤ 0x101000000) ∨ (0xfee00000 ≤ a ∧ a + n ≤ 0xfee01000)) :
    Maps translate m (L.addr (.PML4s t)) a a n :=
  gives_initialForest.maps_shared h ht ha

theorem root_lt (ht : t < nTasks) : L.addr (.PML4s t) < 2 ^ 64 := by
  have hend := L.below (.PML4s t) ht
  omega

/-- The stack of a task: anywhere in its private window. -/
def taskStack (V : SchedVars L) (hτ : Gives τ) (ht : t < nTasks) :
    Stack translate (L.addr (.PML4s t)) (fun m => Represents L m τ) where
  vbase := 0x40000000
  pbase := getTaskPhysAddr t
  len := 0x1000000
  below := by decide
  maps _ h := hτ.maps_window h ht
  keeps _ _ h heq := h.congr (heq.mono (fun x hx => by
    have hin := V.inKernel_bytes hx
    have hphys := getTaskPhysAddr_eq ht
    exact Or.inl (by omega)))

/-! ## The scheduler's globals -/

theorem SchedVars.sp_bounds (V : SchedVars L) (ht : t < nTasks) :
    V.tasks ≤ V.sp t ∧ V.sp t + 16 ≤ V.tasks + 16 * nTasks
      ∧ 0x100000000 ≤ V.sp t ∧ V.sp t + 16 ≤ 0x101000000 := by
  obtain ⟨hlo, hhi⟩ := V.tasksIn
  have hmem : shipped.kernelMemAddr = 0x100000000 := rfl
  have hlen : shipped.kernelMemLen = 0x1000000 := rfl
  rw [hmem] at hlo hhi
  rw [hlen] at hhi
  unfold SchedVars.sp
  unfold nTasks at *
  omega

theorem SchedVars.cur_bounds (V : SchedVars L) :
    0x100000000 ≤ V.curTask ∧ V.curTask + 4 ≤ 0x101000000 := V.curIn

theorem SchedVars.cr3_eq (V : SchedVars L) (t : Nat) : V.cr3 t = V.sp t + 8 := rfl

/-- The fields of two tasks, and `cur_task`, lie apart. -/
theorem SchedVars.disjoint (V : SchedVars L) {i : Nat} (ht : t < nTasks) :
    (V.curTask + 4 ≤ V.sp t ∨ V.sp t + 16 ≤ V.curTask)
      ∧ (i ≠ t → V.sp i + 16 ≤ V.sp t ∨ V.sp t + 16 ≤ V.sp i) := by
  have hapart := V.apart
  have hb := V.sp_bounds ht
  refine ⟨by omega, fun hne => ?_⟩
  unfold SchedVars.sp
  omega

/-- The page tables stay as they are when only the scheduler's globals change. -/
theorem SchedVars.store_sp (V : SchedVars L) (h : Represents L m τ) (ht : t < nTasks)
    {a n x : Nat} (ha : V.sp t ≤ a) (hn : a + n ≤ V.sp t + 16) :
    Represents L (store m a n x) τ := by
  have hb := V.sp_bounds ht
  refine h.congr (store_eqOn (fun x hx => ?_))
  have hoff := V.tasksOff x hx
  omega

theorem SchedVars.store_cur (V : SchedVars L) (h : Represents L m τ) (x : Nat) :
    Represents L (store m V.curTask 4 x) τ :=
  h.congr (store_eqOn V.curOff)

/-- The kernel data an interrupt depends on: the page tables, `tasks[]` and `cur_task`. -/
def SchedVars.bytes (V : SchedVars L) : Set Nat :=
  {x | x ∈ L.bytes ∨ (V.tasks ≤ x ∧ x < V.tasks + 16 * nTasks) ∨
    (V.curTask ≤ x ∧ x < V.curTask + 4)}

theorem SchedVars.bytes_inKernel (V : SchedVars L) {x : Nat} (hx : x ∈ V.bytes) :
    0x100000000 ≤ x ∧ x < 0x101000000 := by
  obtain ⟨hlo, hhi⟩ := V.tasksIn
  have hbase : shipped.kernelMemAddr = 0x100000000 := rfl
  have hend : shipped.kernelMemAddr + shipped.kernelMemLen = 0x101000000 := rfl
  have hcur := V.cur_bounds
  rw [hbase] at hlo
  rw [hend] at hhi
  rcases hx with hx | hx | hx
  · exact V.inKernel_bytes hx
  · omega
  · omega

/-- The kernel's view while task `c` runs, whichever forest its tables hold. -/
structure InOrder (V : SchedVars L) (τ : Forest) (m : Mem) (c : Nat) : Prop where
  gives : Gives τ
  tables : Represents L m τ
  lt : c < nTasks
  curTask : load m V.curTask 4 = c
  cr3s : ∀ i < nTasks, load m (V.cr3 i) 8 = L.addr (.PML4s i)

/-- The same while the tables are as `init_virtual_memory` left them. -/
abbrev Sane (V : SchedVars L) (m : Mem) (c : Nat) : Prop := InOrder V initialForest m c

theorem InOrder.congr (h : InOrder V τ m c) (heq : Set.EqOn m' m V.bytes) : InOrder V τ m' c where
  gives := h.gives
  tables := h.tables.congr (heq.mono (fun _ hx => .inl hx))
  lt := h.lt
  curTask := by
    rw [load_congr (heq.mono (fun _ hx => .inr (.inr hx))), h.curTask]
  cr3s i hi := by
    have hb := V.sp_bounds hi
    have hcr3 := V.cr3_eq i
    rw [load_congr (heq.mono ?_), h.cr3s i hi]
    rintro x ⟨hlo, hhi⟩
    exact .inr (.inl (by omega))

/-! ## The C part of the handler -/

/-- The task after task `c`. -/
def nextTask (c : Nat) : Nat := (c + 1) % nTasks

theorem nextTask_lt (c : Nat) : nextTask c < nTasks := Nat.mod_lt _ (by decide)

theorem nextTask_ne (c : Nat) : nextTask c ≠ c := by
  unfold nextTask nTasks
  omega

/-- The scheduler's globals after `schedule(sp)`. -/
def scheduled (V : SchedVars L) (c : Nat) (sp : UInt64) (m : Mem) : Mem :=
  store (store m (V.sp c) 8 sp.toNat) V.curTask 4 (nextTask c)

theorem schedule_spec (h : InOrder V τ m c) (ht : t < nTasks) (sp : UInt64) :
    schedule V (L.addr (.PML4s t)) sp m
      = some (UInt64.ofNat (V.sp (nextTask c)), scheduled V c sp m) := by
  have hc := h.lt
  have hb := V.sp_bounds hc
  have hcur := V.cur_bounds
  have hapart := (V.disjoint (i := c) hc).1
  have hstored := V.store_sp h.tables hc (x := sp.toNat) (Nat.le_refl _) (n := 8) (by omega)
  have hagain : load (store m (V.sp c) 8 sp.toNat) V.curTask 4 = c := by
    rw [load_store_disjoint (by omega), h.curTask]
  have hnext : (c + 1) % 2 ^ 32 % nTasks = nextTask c := by
    unfold nextTask
    unfold nTasks at *
    omega
  unfold schedule
  rw [vload_eq (h.gives.maps_shared h.tables ht (Or.inl hcur)), h.curTask]
  simp only [Option.bind_eq_bind, Option.bind_some]
  rw [vstore_eq (h.gives.maps_shared h.tables ht (Or.inl (by omega)))]
  simp only [Option.bind_some]
  rw [vload_eq (h.gives.maps_shared hstored ht (Or.inl hcur)), hagain]
  simp only [Option.bind_some, hnext]
  rw [vstore_eq (h.gives.maps_shared hstored ht (Or.inl hcur))]
  rfl

/-- Memory after the call of `lapic_intr_handler_internal(sp)`. -/
def called (V : SchedVars L) (c : Nat) (sp : UInt64) (m : Mem) : Mem :=
  store (scheduled V c sp m) lapicEoi 4 0

theorem lapicIntrHandlerInternal_spec (h : InOrder V τ m c) (ht : t < nTasks) (sp : UInt64) :
    lapicIntrHandlerInternal (schedule V) (L.addr (.PML4s t)) sp m
      = some (UInt64.ofNat (V.sp (nextTask c)), called V c sp m) := by
  have hb := V.sp_bounds h.lt
  have htables : Represents L (scheduled V c sp m) τ :=
    V.store_cur (V.store_sp h.tables h.lt (Nat.le_refl _) (by omega)) _
  have heoi : (0xfee00000 ≤ lapicEoi ∧ lapicEoi + 4 ≤ 0xfee01000) := by decide
  unfold lapicIntrHandlerInternal
  rw [schedule_spec h ht sp]
  simp only [Option.bind_eq_bind, Option.bind_some]
  rw [vstore_eq (h.gives.maps_shared htables ht (Or.inr heoi))]
  rfl

/-- The call touches, besides the frame below the stack pointer, only `tasks[c].sp`, `cur_task` and the
    end-of-interrupt register. -/
theorem called_outside {sp : UInt64} {x : Nat} (hsp : x < V.sp c ∨ V.sp c + 8 ≤ x)
    (hcur : x < V.curTask ∨ V.curTask + 4 ≤ x) (heoi : x < lapicEoi ∨ lapicEoi + 4 ≤ x) :
    called V c sp m x = m x := by
  rw [called, store_outside heoi, scheduled, store_outside hcur, store_outside hsp]

theorem called_sp (hc : c < nTasks) (sp : UInt64) :
    load (called V c sp m) (V.sp c) 8 = sp.toNat := by
  have hb := V.sp_bounds hc
  have hapart := (V.disjoint (i := c) hc).1
  have heoi : lapicEoi = 0xfee000b0 := rfl
  have hlt : sp.toNat < 256 ^ 8 := sp.toNat_lt
  rw [called, load_store_disjoint (by omega), scheduled, load_store_disjoint (by omega),
    load_store_self, Nat.mod_eq_of_lt hlt]

theorem called_cur (c : Nat) (sp : UInt64) : load (called V c sp m) V.curTask 4 = nextTask c := by
  have hb := V.cur_bounds
  have heoi : lapicEoi = 0xfee000b0 := rfl
  have hlt : nextTask c < 256 ^ 4 := by
    have h := nextTask_lt c
    unfold nTasks at h
    omega
  rw [called, load_store_disjoint (by omega), scheduled, load_store_self, Nat.mod_eq_of_lt hlt]

/-- **The call from the handler.** -/
theorem callC_spec (noise : CallNoise) {s : Machine} {k : Nat} (h : InOrder V τ s.mem c)
    (hat : (taskStack V h.gives h.lt).At s k) (hroom : noise.frame.length ≤ k) :
    ∃ s', callC noise (lapicIntrHandlerInternal (schedule V)) s = some s'
      ∧ s'.cpu.gpr .rax = UInt64.ofNat (V.sp (nextTask c)) ∧ s'.cpu.cr3 = s.cpu.cr3
      ∧ s'.mem = called V c (s.cpu.gpr .rdi)
          (writeBytes s.mem (getTaskPhysAddr c + (k - noise.frame.length)) noise.frame) := by
  have hle : k ≤ 0x1000000 := hat.le
  have hphys := getTaskPhysAddr_eq h.lt
  have hsp : (s.cpu.gpr .rsp).toNat - noise.frame.length = 0x40000000 + (k - noise.frame.length) := by
    have hptr : (s.cpu.gpr .rsp).toNat = 0x40000000 + k := by
      rw [hat.sp]
      exact Stack.ptr_toNat hat.le
    omega
  have hroot : s.cpu.cr3.toNat = L.addr (.PML4s c) := hat.root
  have hmaps := hat.mapped (show (k - noise.frame.length) + noise.frame.length ≤ 0x1000000 by omega)
  rw [hroot] at hmaps
  have hwrite := vwrite_eq (m := s.mem) hmaps
  have horder :
      InOrder V τ (writeBytes s.mem (getTaskPhysAddr c + (k - noise.frame.length)) noise.frame) c :=
    h.congr (writeBytes_eqOn (fun x hx => Or.inl (by have := (V.bytes_inKernel hx).2; omega)))
  have hinternal := lapicIntrHandlerInternal_spec horder h.lt (s.cpu.gpr .rdi)
  simp only [callC, hsp, hroot]
  rw [show 0x40000000 = (taskStack V h.gives h.lt).vbase from rfl, hwrite]
  simp only [Option.bind_eq_bind, Option.bind_some]
  rw [show (taskStack V h.gives h.lt).pbase = getTaskPhysAddr c from rfl, hinternal]
  refine ⟨_, rfl, ?_, rfl, rfl⟩
  simp only [Function.update_self]

/-! ## The whole interrupt -/

/-- The registers `lapic_intr_handler` pushes, in its order. -/
def generalRegs : List Reg :=
  [.rax, .rbx, .rcx, .rdx, .rdi, .rsi, .rbp, .r8, .r9, .r10, .r11, .r12, .r13, .r14, .r15]

theorem rsp_notMem : .rsp ∉ generalRegs := by decide

theorem mem_generalRegs (r : Reg) (hr : r ≠ .rsp) : r ∈ generalRegs := by
  cases r <;> first | decide | exact absurd rfl hr

/-- From the stack of one task to the stack of the next. -/
def switchStacks : List Instr :=
  [.mov .rsp .rdi, .call, .load 0x0 .rax .rsp, .load 0x8 .rax .rbx, .movCr3 .rbx]

theorem lapicIntrHandler_eq :
    lapicIntrHandler = generalRegs.map .push ++
      (switchStacks ++ (generalRegs.reverse.map .pop ++ [.iretq])) := rfl

/-- The registers saved in the frame at a physical address. -/
def savedCpu (m : Mem) (p : Nat) (cr3 : UInt64) : Cpu := frameCpu generalRegs.reverse m p cr3

theorem savedCpu_congr {p : Nat} {cr3 : UInt64} (h : Set.EqOn m' m (Set.Ico p (p + 160))) :
    savedCpu m' p cr3 = savedCpu m p cr3 :=
  frameCpu_congr (fun r hr => List.mem_reverse.mpr (mem_generalRegs r hr)) h

/-- The task's window has room for the frames an interrupt pushes: the processor's, the handler's and
    those of the C functions it calls. -/
def Room (noise : CallNoise) (s : Machine) : Prop :=
  0x40000000 + 160 + noise.frame.length ≤ (align16 (s.cpu.gpr .rsp)).toNat
    ∧ (align16 (s.cpu.gpr .rsp)).toNat ≤ 0x41000000

/-- The addresses an interrupt of task `c` leaves alone: everything but the lowest `n` bytes of the
    task's window, its saved stack pointer, `cur_task` and the end-of-interrupt register. -/
def untouched (V : SchedVars L) (c n : Nat) : Set Nat :=
  {x | (x < getTaskPhysAddr c ∨ getTaskPhysAddr c + n ≤ x) ∧ (x < V.sp c ∨ V.sp c + 8 ≤ x)
    ∧ (x < V.curTask ∨ V.curTask + 4 ≤ x) ∧ (x < lapicEoi ∨ lapicEoi + 4 ≤ x)}

/-- The same, but only the bytes from `lo` up to `hi` of the task's window are touched. -/
def spared (V : SchedVars L) (c lo hi : Nat) : Set Nat :=
  {x | (x < getTaskPhysAddr c + lo ∨ getTaskPhysAddr c + hi ≤ x) ∧ (x < V.sp c ∨ V.sp c + 8 ≤ x)
    ∧ (x < V.curTask ∨ V.curTask + 4 ≤ x) ∧ (x < lapicEoi ∨ lapicEoi + 4 ≤ x)}

theorem untouched_spared {lo hi n : Nat} (h : hi ≤ n) : untouched V c n ⊆ spared V c lo hi := by
  rintro x ⟨hwindow, hrest⟩
  exact ⟨by omega, hrest⟩

theorem spared_mono {lo lo' hi hi' : Nat} (hlo : lo' ≤ lo) (hhi : hi ≤ hi') :
    spared V c lo' hi' ⊆ spared V c lo hi := by
  rintro x ⟨hwindow, hrest⟩
  exact ⟨by omega, hrest⟩

theorem called_spared (noise : CallNoise) {sp : UInt64} {k : Nat} (hroom : noise.frame.length ≤ k) :
    Set.EqOn
      (called V c sp (writeBytes m (getTaskPhysAddr c + (k - noise.frame.length)) noise.frame)) m
      (spared V c (k - noise.frame.length) k) := by
  rintro x ⟨hwindow, hsp, hcur, heoi⟩
  rw [called_outside hsp hcur heoi, writeBytes_outside (by omega)]

/-- Kernel memory apart from the globals `schedule` writes, and the windows of the other tasks, are
    left alone. -/
theorem other_window_untouched {i n : Nat} (hc : c < nTasks) (hi : i < nTasks) (hne : i ≠ c)
    (hn : n ≤ 0x1000000) :
    Set.Ico (getTaskPhysAddr i) (getTaskPhysAddr i + 0x1000000) ⊆ untouched V c n := by
  rintro x ⟨hlo, hhi⟩
  have hphys := getTaskPhysAddr_eq hc
  have hphysi := getTaskPhysAddr_eq hi
  have hb := V.sp_bounds hc
  have hcur := V.cur_bounds
  have heoi : lapicEoi = 0xfee000b0 := rfl
  exact ⟨by omega, by omega, by omega, by omega⟩

theorem tables_untouched {n : Nat} (hc : c < nTasks) : L.bytes ⊆ untouched V c n := by
  intro x hx
  have hphys := getTaskPhysAddr_eq hc
  have hb := V.sp_bounds hc
  have hin := V.inKernel_bytes hx
  have hoff := V.tasksOff x hx
  have hcur := V.curOff x hx
  have heoi : lapicEoi = 0xfee000b0 := rfl
  exact ⟨by omega, by omega, by omega, by omega⟩

/-- The words of `tasks[]` other than `tasks[c].sp`. -/
theorem tasks_untouched {i a n : Nat} (hc : c < nTasks) (hi : i < nTasks)
    (ha : (i ≠ c ∧ a = V.sp i) ∨ a = V.cr3 i) : Set.Ico a (a + 8) ⊆ untouched V c n := by
  rintro x ⟨hlo, hhi⟩
  have hphys := getTaskPhysAddr_eq hc
  have hb := V.sp_bounds hi
  have hbc := V.sp_bounds hc
  have hcr3 := V.cr3_eq i
  obtain ⟨hapart, hdisj⟩ := V.disjoint (i := c) hi
  have heoi : lapicEoi = 0xfee000b0 := rfl
  have hsp : x < V.sp c ∨ V.sp c + 8 ≤ x := by
    by_cases hic : i = c
    · subst hic
      have hcase := ha.resolve_left (fun h => h.1 rfl)
      omega
    · have := hdisj (Ne.symm hic)
      omega
  exact ⟨by omega, hsp, by omega, by omega⟩

/-- **Between the two stacks.** -/
theorem switchStacks_spec (noise : CallNoise) {s : Machine} {k w : Nat} (h : InOrder V τ s.mem c)
    (hat : (taskStack V h.gives h.lt).At s k) (hroom : noise.frame.length ≤ k) (hw : w ≤ 0x1000000)
    (hsp : load s.mem (V.sp (nextTask c)) 8 = 0x40000000 + w) :
    ∃ s', run translate (callC noise (lapicIntrHandlerInternal (schedule V))) switchStacks s = some s'
      ∧ (taskStack V h.gives (nextTask_lt c)).At s' w
      ∧ s'.cpu.cr3 = UInt64.ofNat (L.addr (.PML4s (nextTask c)))
      ∧ s'.mem = called V c (s.cpu.gpr .rsp)
          (writeBytes s.mem (getTaskPhysAddr c + (k - noise.frame.length)) noise.frame) := by
  have hnext := nextTask_lt c
  have hroot := root_lt (L := L) hnext
  have hb := V.sp_bounds hnext
  have hle : k ≤ 0x1000000 := hat.le
  -- `mov %rsp, %rdi`
  let s₁ : Machine := { s with cpu := s.cpu.set .rdi (s.cpu.gpr .rsp) }
  have hat₁ : (taskStack V h.gives h.lt).At s₁ k :=
    ⟨hat.root, hat.ok, (Cpu.set_gpr_ne _ (by decide) _).trans hat.sp, hat.le⟩
  -- `call lapic_intr_handler_internal`
  obtain ⟨s₂, hcall, hrax, hcr3, hmem⟩ := callC_spec (s := s₁) noise h hat₁ hroom
  have hrdi : s₁.cpu.gpr .rdi = s.cpu.gpr .rsp := Cpu.set_gpr_self ..
  have hsame : Set.EqOn s₂.mem s.mem (untouched V c k) := by
    rw [hmem, hrdi]
    exact (called_spared noise hroom).mono (untouched_spared (Nat.le_refl k))
  have htables : Represents L s₂.mem τ :=
    h.tables.congr (hsame.mono (tables_untouched h.lt))
  have hspNext : load s₂.mem (V.sp (nextTask c)) 8 = 0x40000000 + w := by
    rw [load_congr (hsame.mono (tasks_untouched h.lt hnext (Or.inl ⟨nextTask_ne c, rfl⟩))), hsp]
  have hcr3Next : load s₂.mem (V.sp (nextTask c) + 8) 8 = L.addr (.PML4s (nextTask c)) := by
    rw [← V.cr3_eq, load_congr (hsame.mono (tasks_untouched h.lt hnext (Or.inr rfl))),
      h.cr3s _ hnext]
  have hroot₂ : s₂.cpu.cr3.toNat = L.addr (.PML4s c) := by
    rw [hcr3]
    exact hat.root
  -- `mov 0x0(%rax), %rsp`
  let s₃ : Machine := { s₂ with cpu := s₂.cpu.set .rsp (UInt64.ofNat (0x40000000 + w)) }
  have hload₃ : vload translate s₂.mem s₂.cpu.cr3.toNat (s₂.cpu.gpr .rax + 0x0).toNat 8
      = some (0x40000000 + w) := by
    have haddr : (s₂.cpu.gpr .rax + 0x0).toNat = V.sp (nextTask c) := by
      rw [hrax, UInt64.add_zero, UInt64.toNat_ofNat', Nat.mod_eq_of_lt (by omega)]
    rw [haddr, hroot₂, vload_eq (h.gives.maps_shared htables h.lt (Or.inl (by omega))), hspNext]
  -- `mov 0x8(%rax), %rbx`
  let s₄ : Machine :=
    { s₃ with cpu := s₃.cpu.set .rbx (UInt64.ofNat (L.addr (.PML4s (nextTask c)))) }
  have hload₄ : vload translate s₃.mem s₃.cpu.cr3.toNat (s₃.cpu.gpr .rax + 0x8).toNat 8
      = some (L.addr (.PML4s (nextTask c))) := by
    have hrax₃ : s₃.cpu.gpr .rax = UInt64.ofNat (V.sp (nextTask c)) :=
      (Cpu.set_gpr_ne _ (by decide) _).trans hrax
    have haddr : (s₃.cpu.gpr .rax + 0x8).toNat = V.sp (nextTask c) + 8 := by
      rw [hrax₃, UInt64.toNat_add, UInt64.toNat_ofNat', show (0x8 : UInt64).toNat = 8 from rfl]
      omega
    show vload translate s₂.mem s₂.cpu.cr3.toNat _ 8 = _
    rw [haddr, hroot₂, vload_eq (h.gives.maps_shared htables h.lt (Or.inl (by omega))), hcr3Next]
  -- `mov %rbx, %cr3`
  have hrbx : s₄.cpu.gpr .rbx = UInt64.ofNat (L.addr (.PML4s (nextTask c))) := Cpu.set_gpr_self ..
  refine ⟨{ s₄ with cpu := { s₄.cpu with cr3 := s₄.cpu.gpr .rbx } }, ?_, ⟨?_, htables, ?_, hw⟩, hrbx,
    hmem.trans (by rw [hrdi])⟩
  · unfold switchStacks
    rw [run, exec, Option.bind_some, run, exec, hcall, Option.bind_some, run, exec, hload₃]
    show Option.bind (some s₃) _ = _
    rw [Option.bind_some, run, exec, hload₄]
    rfl
  · show (s₄.cpu.gpr .rbx).toNat = _
    rw [hrbx, UInt64.toNat_ofNat', Nat.mod_eq_of_lt hroot]
  · show s₄.cpu.gpr .rsp = _
    exact (Cpu.set_gpr_ne _ (by decide) _).trans (Cpu.set_gpr_self ..)

/-- **One timer interrupt.** The interrupted registers go into a frame on the task's own stack, above
    which its window is as it was, `schedule` turns to the next task, and that task continues with the
    registers of its frame and its own `cr3`. -/
theorem InOrder.timerInterrupt (noise : CallNoise) {s : Machine} {w : Nat} (h : InOrder V τ s.mem c)
    (hroot : s.cpu.cr3.toNat = L.addr (.PML4s c)) (hroom : Room noise s)
    (hw : w + 160 ≤ 0x1000000) (hsp : load s.mem (V.sp (nextTask c)) 8 = 0x40000000 + w) :
    ∃ m k, Sched.timerInterrupt V noise s = some
        { cpu := savedCpu s.mem (getTaskPhysAddr (nextTask c) + w)
            (UInt64.ofNat (L.addr (.PML4s (nextTask c))))
          mem := m }
      ∧ k + 160 ≤ 0x1000000 ∧ (align16 (s.cpu.gpr .rsp)).toNat = 0x40000000 + (k + 160)
      ∧ load m (V.sp c) 8 = 0x40000000 + k
      ∧ savedCpu m (getTaskPhysAddr c + k) s.cpu.cr3 = s.cpu
      ∧ Words m (getTaskPhysAddr c + k) (frameWords generalRegs s.cpu)
      ∧ load m V.curTask 4 = nextTask c
      ∧ Set.EqOn m s.mem (spared V c (k - noise.frame.length) (k + 160)) := by
  have hnext := nextTask_lt c
  obtain ⟨hlo, hhi⟩ := hroom
  obtain ⟨k, hk⟩ : ∃ k, (align16 (s.cpu.gpr .rsp)).toNat = 0x40000000 + (k + 160) :=
    ⟨(align16 (s.cpu.gpr .rsp)).toNat - (0x40000000 + 160), by omega⟩
  let S := taskStack V h.gives h.lt
  have hat : S.At { s with cpu := s.cpu.set .rsp (align16 (s.cpu.gpr .rsp)) } (k + 160) := by
    refine ⟨hroot, h.tables, ?_, show k + 160 ≤ 0x1000000 by omega⟩
    apply UInt64.toNat_inj.mp
    rw [Cpu.set_gpr_self, hk]
    exact (Stack.ptr_toNat (S := S) (show k + 160 ≤ 0x1000000 by omega)).symm
  obtain ⟨s₁, hpush, hat₁, hcr3₁, hframe, hwords, hrest⟩ := Stack.suspend_spec
    (callC noise (lapicIntrHandlerInternal (schedule V))) rsp_notMem mem_generalRegs hat
  have hsp₁ : (s₁.cpu.gpr .rsp).toNat = 0x40000000 + k := by
    rw [hat₁.sp]
    exact Stack.ptr_toNat hat₁.le
  have hphys := getTaskPhysAddr_eq h.lt
  have hpushed : Set.EqOn s₁.mem s.mem (spared V c k (k + 160)) :=
    hrest.mono (fun x hx => hx.1.imp_right (by
      intro hle
      show getTaskPhysAddr c + k + 160 ≤ x
      omega))
  have horder₁ : InOrder V τ s₁.mem c := h.congr (hrest.mono (fun x hx => Or.inl (by
    have hend := (V.bytes_inKernel hx).2
    show x < getTaskPhysAddr c + k
    omega)))
  have hspNext : load s₁.mem (V.sp (nextTask c)) 8 = 0x40000000 + w := by
    rw [load_congr (hpushed.mono ((tasks_untouched h.lt hnext (Or.inl ⟨nextTask_ne c, rfl⟩)).trans
      (untouched_spared (Nat.le_refl _)))), hsp]
  obtain ⟨s₂, hswitch, hat₂, hcr3₂, hmem₂⟩ := switchStacks_spec noise horder₁ hat₁
    (show noise.frame.length ≤ k by omega) (show w ≤ 0x1000000 by omega) hspNext
  have hresume := Stack.resume_spec (callC noise (lapicIntrHandlerInternal (schedule V)))
    (fun hmem => rsp_notMem (List.mem_reverse.mp hmem))
    (fun r hr => List.mem_reverse.mpr (mem_generalRegs r hr)) (by decide) hat₂
    (show w + 160 ≤ 0x1000000 from hw)
  have hcalled : Set.EqOn s₂.mem s₁.mem (spared V c (k - noise.frame.length) k) := by
    rw [hmem₂]
    exact called_spared noise (by omega)
  have hmem : Set.EqOn s₂.mem s.mem (spared V c (k - noise.frame.length) (k + 160)) :=
    (hcalled.mono (spared_mono (Nat.le_refl _) (Nat.le_add_right ..))).trans
      (hpushed.mono (spared_mono (Nat.sub_le ..) (Nat.le_refl _)))
  have hframed : Set.EqOn s₂.mem s₁.mem
      (Set.Ico (getTaskPhysAddr c + k) (getTaskPhysAddr c + k + 160)) := by
    refine hcalled.mono ?_
    rintro x ⟨hlo, hhi⟩
    have hb := V.sp_bounds h.lt
    have hcur := V.cur_bounds
    have heoi : lapicEoi = 0xfee000b0 := rfl
    exact ⟨by omega, by omega, by omega, by omega⟩
  refine ⟨s₂.mem, k, ?_, by omega, hk, ?_, ?_, hwords.congr hframed, ?_, hmem⟩
  · have hrun : Sched.timerInterrupt V noise s = some
        { cpu := savedCpu s₂.mem (getTaskPhysAddr (nextTask c) + w) s₂.cpu.cr3, mem := s₂.mem } := by
      rw [Sched.timerInterrupt, lapicIntrHandler_eq]
      have hsplit : run translate (callC noise (lapicIntrHandlerInternal (schedule V)))
          (generalRegs.map .push ++ (switchStacks ++ (generalRegs.reverse.map .pop ++ [.iretq])))
          = fun s => (run translate (callC noise (lapicIntrHandlerInternal (schedule V)))
            (generalRegs.map .push) s).bind _ := funext (run_append _ _)
      rw [hsplit, ← Option.bind_assoc, hpush, Option.bind_some, run_append, hswitch, Option.bind_some,
        hresume]
      rfl
    rw [hrun, hcr3₂, savedCpu_congr]
    have hphysNext := getTaskPhysAddr_eq hnext
    have hother : Set.Ico (getTaskPhysAddr (nextTask c)) (getTaskPhysAddr (nextTask c) + 0x1000000) ⊆
        spared V c (k - noise.frame.length) (k + 160) :=
      (other_window_untouched h.lt hnext (nextTask_ne c) (show k + 160 ≤ 0x1000000 by omega)).trans
        (untouched_spared (Nat.le_refl _))
    exact hmem.mono ((Set.Ico_subset_Ico (by omega) (by omega)).trans hother)
  · rw [hmem₂, called_sp h.lt, hsp₁]
  · rw [savedCpu_congr hframed]
    exact hframe
  · rw [hmem₂, called_cur]

end Sched
end SysproKernel

import SysproKernel.Sched.Tasks

/-!
# `Sched.Startup` — `init_tasks` and `start_task0`

`prepare_stack` builds by hand the frame an interrupt would have left: `prepareStack_spec` follows its
seven stores down the task's stack, each through the task's own address space. `initTasks_spec` runs it
for every task but the first, and `startTask0_shows` is the machine at the jump to task 0, with the tasks
it shows (`tasksAtStart`).
-/

namespace SysproKernel
namespace Sched

open Lib.ByteMem Lib.Loop Lib.RoundRobin Lib.X86 Memory

variable {L : TableLayout shipped} {V : SchedVars L} {m m₀ : Mem} {i k n : Nat}

/-! ## `prepare_stack` -/

/-- The addresses of `tasks[i]` and of the private memory of task `i`. -/
def ownedBy (V : SchedVars L) (i : Nat) : Set Nat :=
  {x | (getTaskPhysAddr i ≤ x ∧ x < getTaskPhysAddr i + 0x1000000) ∨ (V.sp i ≤ x ∧ x < V.sp i + 16)}

/-- While `prepare_stack` works on task `i`: `tasks[i].sp` points `k` bytes into the window, and nothing
    but the window and `tasks[i].sp` has changed. -/
structure Preparing (V : SchedVars L) (i : Nat) (m₀ m : Mem) (k : Nat) : Prop where
  tables : Represents L m initialForest
  sp : load m (V.sp i) 8 = 0x40000000 + k
  rest : ∀ x, x ∉ ownedBy V i → m x = m₀ x
  cr3 : load m (V.cr3 i) 8 = load m₀ (V.cr3 i) 8

theorem Preparing.loadSp (h : Preparing V i m₀ m k) (hi : i < nTasks) :
    vload translate m (L.addr (.PML4s i)) (V.sp i) 8 = some (0x40000000 + k) := by
  have hb := V.sp_bounds hi
  rw [vload_eq (maps_shared h.tables hi (Or.inl (by omega))), h.sp]

/-- A store into the window. -/
theorem Preparing.write (h : Preparing V i m₀ m k) (hi : i < nTasks) {o x : Nat}
    (ho : o + n ≤ 0x1000000) :
    vstore translate m (L.addr (.PML4s i)) (0x40000000 + o) n x
        = some (store m (getTaskPhysAddr i + o) n x)
      ∧ Preparing V i m₀ (store m (getTaskPhysAddr i + o) n x) k := by
  have hphys := getTaskPhysAddr_eq hi
  have hb := V.sp_bounds hi
  have hcr3 := V.cr3_eq i
  refine ⟨vstore_eq ((maps_window h.tables hi).part ho), ?_, ?_, ?_, ?_⟩
  · refine h.tables.congr (store_eqOn (fun y hy => ?_))
    have hin := V.inKernel_bytes hy
    omega
  · rw [load_store_disjoint (by omega), h.sp]
  · intro y hy
    rw [store_outside, h.rest y hy]
    by_contra hin
    exact hy (Or.inl (by omega))
  · rw [load_store_disjoint (by omega), h.cr3]

/-- `tasks[i].sp -= n`. -/
theorem Preparing.dec {d : Nat} (h : Preparing V i m₀ m d) (hi : i < nTasks) (hd : d = k + n)
    (hk : d ≤ 0x1000000) :
    ∃ m', decSp V (L.addr (.PML4s i)) i n m = some m' ∧ Preparing V i m₀ m' k
      ∧ Set.EqOn m' m (Set.Ico (getTaskPhysAddr i) (getTaskPhysAddr i + 0x1000000)) := by
  have hphys := getTaskPhysAddr_eq hi
  have hb := V.sp_bounds hi
  have hcr3 := V.cr3_eq i
  subst hd
  have hval : (0x40000000 + (k + n) + (2 ^ 64 - n)) % 2 ^ 64 = 0x40000000 + k := by omega
  have hstore := vstore_eq (x := 0x40000000 + k)
    (maps_shared h.tables hi (a := V.sp i) (n := 8) (Or.inl (by omega)))
  refine ⟨store m (V.sp i) 8 (0x40000000 + k), ?_, ⟨?_, ?_, ?_, ?_⟩, ?_⟩
  · unfold decSp
    rw [h.loadSp hi, Option.bind_eq_bind, Option.bind_some, hval]
    exact hstore
  · exact V.store_sp h.tables hi (Nat.le_refl _) (by omega)
  · rw [load_store_self, Nat.mod_eq_of_lt (by omega)]
  · intro y hy
    rw [store_outside, h.rest y hy]
    by_contra hin
    exact hy (Or.inr (by omega))
  · rw [load_store_disjoint (by omega), h.cr3]
  · exact store_eqOn (fun y hy => Or.inr (by have := hy.1; omega))

/-- A store through `tasks[i].sp`. -/
theorem Preparing.push (h : Preparing V i m₀ m k) (hi : i < nTasks) (hk : k + n ≤ 0x1000000)
    (x : Nat) :
    storeAtSp V (L.addr (.PML4s i)) i n x m = some (store m (getTaskPhysAddr i + k) n x)
      ∧ Preparing V i m₀ (store m (getTaskPhysAddr i + k) n x) k := by
  obtain ⟨hstore, hnext⟩ := h.write hi (x := x) hk
  refine ⟨?_, hnext⟩
  unfold storeAtSp
  rw [h.loadSp hi, Option.bind_eq_bind, Option.bind_some, hstore]

/-- A frame at the top of task `i`'s window that enters the task at its entry point. -/
structure EntryFrame (V : SchedVars L) (i : Nat) (m : Mem) : Prop where
  sp : load m (V.sp i) 8 = 0x40000000 + 0xffff60
  rip : load m (getTaskPhysAddr i + 0xffffd8) 8 = 0x40000000
  rsp : load m (getTaskPhysAddr i + 0xfffff0) 8 = 0x41000000

/-- The window of task `i` below that frame. -/
def belowFrame (i : Nat) : Set Nat := Set.Ico (getTaskPhysAddr i) (getTaskPhysAddr i + 0xffff60)

/-- **The hand-built frame.** -/
theorem prepareStack_spec (h : Preparing V i m₀ m 0x1000000) (hi : i < nTasks) (regs : KernelRegs) :
    ∃ m', prepareStack V regs (L.addr (.PML4s i)) i (getEntrypoint i) m = some m'
      ∧ Preparing V i m₀ m' 0xffff60 ∧ EntryFrame V i m' ∧ Set.EqOn m' m (belowFrame i) := by
  have hkeep : ∀ {m m' : Mem} {o : Nat}, o + 8 ≤ 0x1000000 →
      Set.EqOn m' m (Set.Ico (getTaskPhysAddr i) (getTaskPhysAddr i + 0x1000000)) →
      load m' (getTaskPhysAddr i + o) 8 = load m (getTaskPhysAddr i + o) 8 := by
    intro m m' o ho heq
    exact load_congr (heq.mono (Set.Ico_subset_Ico (by omega) (by omega)))
  have hframe : ∀ {m : Mem} {o n x : Nat}, 0xffff60 ≤ o →
      Set.EqOn (store m (getTaskPhysAddr i + o) n x) m (belowFrame i) :=
    fun ho => store_eqOn (fun y hy => Or.inl (Nat.lt_of_lt_of_le hy.2 (by omega)))
  have hbelow : ∀ {m m' : Mem}, Set.EqOn m' m (Set.Ico (getTaskPhysAddr i) (getTaskPhysAddr i + 0x1000000)) →
      Set.EqOn m' m (belowFrame i) :=
    fun heq => heq.mono (Set.Ico_subset_Ico (by omega) (by omega))
  -- the values read back from `tasks[i].sp` stay names: `top` and `tmp`
  obtain ⟨top, htop⟩ : ∃ top, top = 0x40000000 + 0x1000000 := ⟨_, rfl⟩
  obtain ⟨tmp, htmp⟩ : ∃ tmp, tmp = 0x40000000 + 0xfffff0 := ⟨_, rfl⟩
  have hload : vload translate m (L.addr (.PML4s i)) (V.sp i) 8 = some top := htop ▸ h.loadSp hi
  -- push SS
  obtain ⟨m₁, hdec₁, h₁, heq₁⟩ := h.dec (k := 0xfffff8) (n := 8) hi (by omega) (by omega)
  obtain ⟨hstore₂, h₂⟩ := h₁.push hi (n := 2) (by omega) regs.ss.toNat
  -- push RSP
  obtain ⟨m₃, hdec₃, h₃, heq₃⟩ := h₂.dec (k := 0xfffff0) (n := 8) hi (by omega) (by omega)
  obtain ⟨hstore₄, h₄⟩ := h₃.push hi (n := 8) (by omega) top
  -- push RFLAGS
  obtain ⟨hstore₅, h₅⟩ := h₄.write hi (n := 8) (o := 0xffffe8) (x := regs.rflags.toNat) (by omega)
  obtain ⟨m₆, hdec₆, h₆, heq₆⟩ := h₅.dec (k := 0xffffe8) (n := 8) hi (by omega) (by omega)
  -- push CS
  obtain ⟨m₇, hdec₇, h₇, heq₇⟩ := h₆.dec (k := 0xffffe0) (n := 8) hi (by omega) (by omega)
  obtain ⟨hstore₈, h₈⟩ := h₇.push hi (n := 2) (by omega) regs.cs.toNat
  -- push RIP
  obtain ⟨m₉, hdec₉, h₉, heq₉⟩ := h₈.dec (k := 0xffffd8) (n := 8) hi (by omega) (by omega)
  obtain ⟨hstore₁₀, h₁₀⟩ := h₉.push hi (n := 8) (by omega) (getEntrypoint i)
  obtain ⟨m₁₁, hdec₁₁, h₁₁, heq₁₁⟩ := h₁₀.dec (k := 0xffff60) (n := 8 * 15) hi (by omega) (by omega)
  refine ⟨m₁₁, ?_, h₁₁, ⟨h₁₁.sp, ?_, ?_⟩, ?_⟩
  · have hload₄ := h₄.loadSp hi
    have hpushfq : tmp - 8 = 0x40000000 + 0xffffe8 := by omega
    rw [← htmp] at hload₄
    unfold prepareStack
    simp only [Option.bind_eq_bind, Option.bind_some, hload, hdec₁, hstore₂, hdec₃, hstore₄, hload₄,
      hpushfq, hstore₅, hdec₆, hdec₇, hstore₈, hdec₉, hstore₁₀, hdec₁₁]
  · have hlt : getEntrypoint i < 256 ^ 8 := by
      unfold getEntrypoint
      omega
    rw [hkeep (by omega) heq₁₁, load_store_self, Nat.mod_eq_of_lt hlt]
    rfl
  · -- the RSP slot is written second and lies above every later store
    rw [hkeep (by omega) heq₁₁, load_store_disjoint (by omega), hkeep (by omega) heq₉,
      load_store_disjoint (by omega), hkeep (by omega) heq₇, hkeep (by omega) heq₆,
      load_store_disjoint (by omega), load_store_self, Nat.mod_eq_of_lt (by omega), htop]
  · -- every store lies within the frame
    refine (hbelow heq₁₁).trans ((hframe ?rip).trans ((hbelow heq₉).trans ((hframe ?cs).trans
      ((hbelow heq₇).trans ((hbelow heq₆).trans ((hframe ?rflags).trans ((hframe ?rsp).trans
      ((hbelow heq₃).trans ((hframe ?ss).trans (hbelow heq₁))))))))))
    all_goals omega

/-! ## `init_tasks` -/

theorem getStackStart_eq (i : Nat) : getStackStart i = 0x40000000 + 0x1000000 := rfl

theorem ownedBy_disjoint {j : Nat} (hi : i < nTasks) (hj : j < nTasks) (hne : i ≠ j) :
    ∀ x ∈ ownedBy V j, x ∉ ownedBy V i := by
  have hphys := getTaskPhysAddr_eq hi
  have hphysj := getTaskPhysAddr_eq hj
  have hb := V.sp_bounds hi
  have hbj := V.sp_bounds hj
  have hdisj := (V.disjoint (i := i) hj).2 hne
  rintro x (⟨hlo, hhi⟩ | ⟨hlo, hhi⟩) (⟨hlo', hhi'⟩ | ⟨hlo', hhi'⟩) <;> omega

theorem belowFrame_owned (V : SchedVars L) (i : Nat) : belowFrame i ⊆ ownedBy V i := by
  rintro x ⟨hlo, hhi⟩
  exact Or.inl ⟨hlo, by omega⟩

/-- Task `i` is ready for its first turn. -/
structure Entered (V : SchedVars L) (i : Nat) (m : Mem) : Prop where
  cr3 : load m (V.cr3 i) 8 = L.addr (.PML4s i)
  stack : i = 0 → load m (V.sp i) 8 = 0x40000000 + 0x1000000
  frame : i ≠ 0 → EntryFrame V i m

/-- It depends on what task `i` owns. -/
theorem Entered.congr {m' : Mem} (h : Entered V i m) (heq : Set.EqOn m' m (ownedBy V i)) :
    Entered V i m' := by
  have hcr3 := V.cr3_eq i
  have hglobals : ∀ a, V.sp i ≤ a → a + 8 ≤ V.sp i + 16 → load m' a 8 = load m a 8 :=
    fun a hlo hhi => load_congr (heq.mono (fun x hx => Or.inr (by
      have := hx.1
      have := hx.2
      omega)))
  have hwindow : ∀ o, o + 8 ≤ 0x1000000 →
      load m' (getTaskPhysAddr i + o) 8 = load m (getTaskPhysAddr i + o) 8 :=
    fun o ho => load_congr (heq.mono (fun x hx => Or.inl (by
      have := hx.1
      have := hx.2
      omega)))
  refine ⟨by rw [hglobals _ (by omega) (by omega), h.cr3], fun hi => ?_, fun hi => ⟨?_, ?_, ?_⟩⟩
  · rw [hglobals _ (by omega) (by omega), h.stack hi]
  · rw [hglobals _ (by omega) (by omega), (h.frame hi).sp]
  · rw [hwindow _ (by omega), (h.frame hi).rip]
  · rw [hwindow _ (by omega), (h.frame hi).rsp]

/-- `cur_task` belongs to no task. -/
theorem Entered.store_cur (h : Entered V i m) (hi : i < nTasks) (x : Nat) :
    Entered V i (store m V.curTask 4 x) := by
  refine h.congr (store_eqOn (fun x hx => ?_))
  have hphys := getTaskPhysAddr_eq hi
  have hb := V.sp_bounds hi
  have hcur := V.cur_bounds
  have hapart := (V.disjoint (i := i) hi).1
  rcases hx with ⟨hlo, hhi⟩ | ⟨hlo, hhi⟩ <;> omega

theorem initTask_spec {taskCr3s : Nat → Nat} (htables : Represents L m initialForest)
    (hi : i < nTasks) (hroot : taskCr3s i = L.addr (.PML4s i)) (regs : Nat → KernelRegs) :
    ∃ m', initTask V taskCr3s regs i m = some m' ∧ Represents L m' initialForest
      ∧ Entered V i m' ∧ (∀ x, x ∉ ownedBy V i → m' x = m x) ∧ Set.EqOn m' m (belowFrame i) := by
  have hb := V.sp_bounds hi
  have hcr3 := V.cr3_eq i
  have hrootlt : L.addr (.PML4s i) < 256 ^ 8 := root_lt hi
  let m₁ := store m (V.sp i) 8 (getStackStart i)
  let m₂ := store m₁ (V.cr3 i) 8 (taskCr3s i)
  have htables₁ : Represents L m₁ initialForest := V.store_sp htables hi (Nat.le_refl _) (by omega)
  have htables₂ : Represents L m₂ initialForest := V.store_sp htables₁ hi (by omega) (by omega)
  have hsp : load m₂ (V.sp i) 8 = 0x40000000 + 0x1000000 := by
    rw [load_store_disjoint (by omega), load_store_self, getStackStart_eq, Nat.mod_eq_of_lt (by omega)]
  have hcr3₂ : load m₂ (V.cr3 i) 8 = L.addr (.PML4s i) := by
    rw [load_store_self, hroot, Nat.mod_eq_of_lt hrootlt]
  have hrest : ∀ x, x ∉ ownedBy V i → m₂ x = m x := by
    intro x hx
    have hout : x < V.sp i ∨ V.sp i + 16 ≤ x := by
      by_contra hin
      exact hx (Or.inr (by omega))
    exact (store_outside (by omega)).trans (store_outside (by omega))
  have hbelow : Set.EqOn m₂ m (belowFrame i) := by
    have hphys := getTaskPhysAddr_eq hi
    rintro x ⟨hlo, hhi⟩
    exact (store_outside (by omega)).trans (store_outside (by omega))
  by_cases hi0 : i = 0
  · refine ⟨m₂, ?_, htables₂, ⟨hcr3₂, fun _ => hsp, fun h => absurd hi0 h⟩, hrest, hbelow⟩
    exact if_neg (not_not.mpr hi0)
  · have hstart : Preparing V i m₂ m₂ 0x1000000 := ⟨htables₂, hsp, fun _ _ => rfl, rfl⟩
    obtain ⟨m₃, hrun, hprep, hframe, hsame⟩ := prepareStack_spec hstart hi (regs i)
    refine ⟨m₃, ?_, hprep.tables, ⟨hprep.cr3.trans hcr3₂, fun h => absurd h hi0, fun _ => hframe⟩,
      fun x hx => (hprep.rest x hx).trans (hrest x hx), hsame.trans hbelow⟩
    have hbranch : initTask V taskCr3s regs i m
        = prepareStack V (regs i) (taskCr3s i) i (getEntrypoint i) m₂ := if_pos hi0
    rw [hbranch, hroot, hrun]

/-- **`init_tasks`** makes every task ready. -/
theorem initTasks_spec {taskCr3s : Nat → Nat} (htables : Represents L m initialForest)
    (hroots : ∀ i < nTasks, taskCr3s i = L.addr (.PML4s i)) (regs : Nat → KernelRegs) :
    ∃ m', initTasks V taskCr3s regs m = some m' ∧ Represents L m' initialForest
      ∧ (∀ i < nTasks, Entered V i m') ∧ ∀ i < nTasks, Set.EqOn m' m (belowFrame i) := by
  obtain ⟨m₁, hloop, htables₁, hready, hbelow⟩ := forLoop_some (n := nTasks) (s := m)
    (fun n m' => Represents L m' initialForest ∧ (∀ i < n, i < nTasks → Entered V i m')
      ∧ ∀ i < nTasks, Set.EqOn m' m (belowFrame i))
    ⟨htables, fun i hi _ => absurd hi (Nat.not_lt_zero i), fun _ _ => Set.eqOn_refl ..⟩ (by
      rintro n m₀ hn ⟨htables₀, hready₀, hbelow₀⟩
      obtain ⟨m', hrun, htables', hentered, hrest, hsame⟩ :=
        initTask_spec (V := V) htables₀ hn (hroots n hn) regs
      have hother : ∀ i < nTasks, i ≠ n → Set.EqOn m' m₀ (ownedBy V i) := fun i hi hin x hx =>
        hrest x (ownedBy_disjoint hn hi (Ne.symm hin) x hx)
      refine ⟨m', hrun, htables', fun i hi hin => ?_, fun i hi => ?_⟩
      · by_cases hin' : i = n
        · rw [hin']
          exact hentered
        · exact (hready₀ i (by omega) hin).congr (hother i hin hin')
      · by_cases hin' : i = n
        · rw [hin'] at hi ⊢
          exact hsame.trans (hbelow₀ n hi)
        · exact ((hother i hi hin').mono (belowFrame_owned V i)).trans (hbelow₀ i hi))
  refine ⟨store m₁ V.curTask 4 0, ?_, V.store_cur htables₁ 0,
    fun i hi => (hready i hi hi).store_cur hi 0, fun i hi => ?_⟩
  · unfold initTasks
    rw [hloop]
    rfl
  · refine (store_eqOn fun x hx => ?_).trans (hbelow i hi)
    have hphys := getTaskPhysAddr_eq hi
    have hcur := V.cur_bounds
    exact Or.inr (Nat.le_trans (by omega) hx.1)

/-! ## `start_task0` -/

/-- The tasks of a machine about to enter task 0: the others wait in their hand-built frames. -/
def tasksAtStart (L : TableLayout shipped) (s : Machine) : Tasks Task where
  cur := 0
  task i :=
    if i = 0 then ⟨s.cpu, window s.mem 0⟩
    else ⟨savedCpu s.mem (getTaskPhysAddr i + 0xffff60) (UInt64.ofNat (L.addr (.PML4s i))), window s.mem i⟩

/-- The hand-built frame enters its task at the entry point with an empty stack. -/
theorem EntryFrame.enters (h : EntryFrame V i m) (cr3 : UInt64) :
    (savedCpu m (getTaskPhysAddr i + 0xffff60) cr3).rip = 0x40000000
      ∧ (savedCpu m (getTaskPhysAddr i + 0xffff60) cr3).gpr .rsp = 0x41000000 :=
  ⟨word_eq h.rip, word_eq h.rsp⟩

/-- **The machine at the jump to task 0.** -/
theorem startTask0_shows (htables : Represents L m initialForest)
    (hready : ∀ i < nTasks, Entered V i m) {frame : List UInt8} (hframe : frame.length ≤ 0x1000000)
    (c : Cpu) :
    ∃ s, startTask0 V frame c m = some s ∧ Shows V (tasksAtStart L s) s
      ∧ s.cpu.rip = 0x40000000 ∧ s.cpu.gpr .rsp = 0x41000000
      ∧ (∀ i < nTasks, i ≠ 0 → EntryFrame V i s.mem)
      ∧ (frame.length ≤ 0xa0 → ∀ i < nTasks, Set.EqOn s.mem m (belowFrame i)) := by
  have h0 : 0 < nTasks := by decide
  have hcur := V.cur_bounds
  have hphys := getTaskPhysAddr_eq h0
  have hrootlt := root_lt (L := L) h0
  obtain ⟨m₁, hm₁⟩ : ∃ m₁, store m V.curTask 4 0 = m₁ := ⟨_, rfl⟩
  obtain ⟨top, htop⟩ : ∃ top, 0x40000000 + 0x1000000 = top := ⟨_, rfl⟩
  have htables₁ : Represents L m₁ initialForest := hm₁ ▸ V.store_cur htables 0
  have hready₁ : ∀ i < nTasks, Entered V i m₁ := fun i hi => hm₁ ▸ (hready i hi).store_cur hi 0
  have hcur₁ : load m₁ V.curTask 4 = 0 := by rw [← hm₁, load_store_self, Nat.zero_mod]
  have hcr3₁ := (hready₁ 0 h0).cr3
  have hsp₁ := (hready₁ 0 h0).stack rfl
  rw [htop] at hsp₁
  -- the call of `get_entrypoint` leaves its frame at the top of task 0's window
  have hmaps := (maps_window htables₁ h0).part
    (show (0x1000000 - frame.length) + frame.length ≤ 0x1000000 by omega)
  have hwrite := vwrite_eq (m := m₁) hmaps
  have haddr : top - frame.length = 0x40000000 + (0x1000000 - frame.length) := by omega
  let m₂ := writeBytes m₁ (getTaskPhysAddr 0 + (0x1000000 - frame.length)) frame
  have hrest : ∀ x, x < getTaskPhysAddr 0 ∨ getTaskPhysAddr 0 + 0x1000000 ≤ x → m₂ x = m₁ x :=
    fun x hx => writeBytes_outside (by omega)
  let s : Machine :=
    { cpu := Cpu.set { c with cr3 := UInt64.ofNat (L.addr (.PML4s 0)), rip := UInt64.ofNat (getEntrypoint 0) }
        .rsp (UInt64.ofNat top)
      mem := m₂ }
  have hrun : startTask0 V frame c m = some s := by
    have hload := vload_eq (maps_shared htables₁ h0 (Or.inl hcur))
    rw [hcur₁] at hload
    simp only [startTask0, hm₁, hcur₁, hsp₁, hcr3₁, Option.bind_eq_bind, hload, Option.bind_some,
      haddr, hwrite]
    rfl
  have hentered : ∀ i < nTasks, i ≠ 0 → Entered V i s.mem := by
    intro i hi hne
    have hphysi := getTaskPhysAddr_eq hi
    have hb := V.sp_bounds hi
    refine (hready₁ i hi).congr (fun x hx => hrest x ?_)
    rcases hx with ⟨hlo, hhi⟩ | ⟨hlo, hhi⟩ <;> omega
  have hsane : Sane V s.mem 0 := by
    have hkernel : Sane V m₁ 0 := ⟨gives_initialForest, htables₁, h0, hcur₁, fun i hi => (hready₁ i hi).cr3⟩
    exact hkernel.congr (fun x hx => hrest x (Or.inl (by have := V.bytes_inKernel hx; omega)))
  have hrsp : s.cpu.gpr .rsp = 0x41000000 := by
    have hset : s.cpu.gpr .rsp = UInt64.ofNat top := Cpu.set_gpr_self ..
    rw [hset, ← htop]
    decide
  refine ⟨s, hrun, ⟨hsane, rfl, ?_, ?_, ?_⟩, rfl, hrsp,
    fun i hi hne => (hentered i hi hne).frame hne, ?_⟩
  · intro i _
    by_cases hi0 : i = 0
    · subst hi0
      rfl
    · simp only [tasksAtStart, if_neg hi0]
      rfl
  · intro i _ v _
    by_cases hi0 : i = 0
    · subst hi0
      rfl
    · simp only [tasksAtStart, if_neg hi0]
  · intro i hi hne
    have hi0 : i ≠ 0 := hne
    simp only [tasksAtStart, if_neg hi0]
    exact ⟨0xffff60, by omega, ((hentered i hi hi0).frame hi0).sp, rfl⟩
  · rintro hshort i hi x ⟨hlo, hhi⟩
    have hphysi := getTaskPhysAddr_eq hi
    have hx₂ : m₂ x = m₁ x := writeBytes_outside (by omega)
    have hx₁ : m₁ x = m x := by
      rw [← hm₁]
      exact store_outside (by omega)
    exact hx₂.trans hx₁

/-- **From zeroed tables to the first task.** -/
theorem boot_shows {m₀ : Mem} {kernelCr3 : Nat} {vm : VmState} (V : SchedVars L)
    (hzero : ZeroedTables L m₀) (hvm : initVirtualMemory L m₀ kernelCr3 = .ok vm)
    (hkeep : Set.EqOn m vm.mem L.bytes) (regs : Nat → KernelRegs) (frame : List UInt8)
    (hframe : frame.length ≤ 0x1000000) (c : Cpu) :
    (∀ i < nTasks, vm.taskCr3s i = L.addr (.PML4s i))
      ∧ ∃ m₁ s, initTasks V vm.taskCr3s regs m = some m₁ ∧ startTask0 V frame c m₁ = some s
        ∧ Shows V (tasksAtStart L s) s ∧ s.cpu.rip = 0x40000000 ∧ s.cpu.gpr .rsp = 0x41000000
        ∧ ∀ i < nTasks, i ≠ 0 → EntryFrame V i s.mem := by
  obtain ⟨vm', hvm', hrep, hroots⟩ := initVirtualMemory_windows hzero kernelCr3
  rw [hvm, Except.ok.injEq] at hvm'
  subst hvm'
  obtain ⟨m₁, hinit, htables₁, hready, -⟩ := initTasks_spec (V := V) (hrep.congr hkeep) hroots regs
  obtain ⟨s, hstart, hshows, hrip, hrsp, hframes, -⟩ := startTask0_shows htables₁ hready hframe c
  exact ⟨hroots, m₁, s, hinit, hstart, hshows, hrip, hrsp, hframes⟩

end Sched
end SysproKernel

import SysproKernel.Kernel.Calls

/-!
# `Kernel.Apps` — the applications a machine displays

What the system is for: three sequential programs that compute, call the kernel, are interrupted and
come back as they were (`LocalRun`), sharing a processor and a console (`AppRun`). `Displays` reads the
applications off a machine: what a task sees while it runs is `displayed`. Each kind of machine step is a
step of theirs: computing, as the program has it (`Displays.computes`), a timer interrupt
(`Displays.tick`), a system call and a handled page fault (`Displays.call`, `Displays.fault`).
-/

namespace SysproKernel
namespace Kernel

open Lib.ByteMem Lib.RoundRobin Lib.Windows Lib.X86 Lib.Handlers Memory Sched Terminal

/-! ## Applications -/

/-- An application finds its memory as it was, except below its stack pointer within the reach of the
    frames. -/
def Keeps (depth t : Nat) (x y : Task) : Prop :=
  ∀ v, Owns t v → ¬ Dead depth x.cpu v → y.mem v = x.mem v

/-- An application comes back as it was. -/
structure Resumes (depth t : Nat) (x y : Task) : Prop where
  cpu : y.cpu = x.cpu
  mem : Keeps depth t x y

/-- An application calls the kernel, which prints `text`. -/
inductive Calls (depth t : Nat) (x : Task) : List Int8 → Task → Prop
  | puts {text : List Int8} {y : Task} :
      x.cpu.gpr .rdi = syscallIdPuts →
      Lib.CStr.Holds (fun j => (x.mem ((x.cpu.gpr .rsi).toNat + j)).toInt8) text →
      y.cpu = x.cpu.set .rax 0 → Keeps depth t x y → Calls depth t x text y
  | unknown {y : Task} (r : UInt64) :
      x.cpu.gpr .rdi ≠ syscallIdPuts → y.cpu = x.cpu.set .rax r → Keeps depth t x y →
      Calls depth t x (outsText (unknownSyscall (x.cpu.gpr .rdi))) y

/-- **One application by itself**: it goes as its program has it, and the kernel changes it by its answers
    alone. With the messages printed for it. -/
inductive LocalRun (P : Program) (depth t : Nat) (x₀ : Task) : List (List Int8) → Task → Prop
  | start : LocalRun P depth t x₀ [] x₀
  | work {out : List (List Int8)} {x y : Task} :
      LocalRun P depth t x₀ out x → P.computes x y → LocalRun P depth t x₀ out y
  | call {out : List (List Int8)} {x y : Task} {text : List Int8} :
      LocalRun P depth t x₀ out x → P.calls x → Calls depth t x text y →
      LocalRun P depth t x₀ (out ++ [text]) y
  | fault {out : List (List Int8)} {x y : Task} {addr : Nat} :
      LocalRun P depth t x₀ out x → P.touches x addr → OnPage addr → Resumes depth t x y →
      LocalRun P depth t x₀ (out ++ [mappingText]) y
  | wait {out : List (List Int8)} {x y : Task} :
      LocalRun P depth t x₀ out x → Resumes depth t x y → LocalRun P depth t x₀ out y

/-- A message on the console, and the task it was printed for. -/
structure Message where
  task : Nat
  text : List Int8

/-- **The applications together**: they share the processor in turn, and the console message by
    message. -/
inductive AppRun (progs : Nat → Program) (depth : Nat) (init : Tasks Task) :
    List Message → Tasks Task → Prop
  | start : AppRun progs depth init [] init
  | work {out : List Message} {a : Tasks Task} {x : Task} :
      AppRun progs depth init out a → (progs a.cur).computes a.running x →
      AppRun progs depth init out (a.work x)
  | call {out : List Message} {a : Tasks Task} {x : Task} {text : List Int8} :
      AppRun progs depth init out a → (progs a.cur).calls a.running →
      Calls depth a.cur a.running text x →
      AppRun progs depth init (out ++ [⟨a.cur, text⟩]) (a.work x)
  | fault {out : List Message} {a : Tasks Task} {x : Task} {addr : Nat} :
      AppRun progs depth init out a → (progs a.cur).touches a.running addr → OnPage addr →
      Resumes depth a.cur a.running x →
      AppRun progs depth init (out ++ [⟨a.cur, mappingText⟩]) (a.work x)
  | switch {out : List Message} {a : Tasks Task} {x : Task} :
      AppRun progs depth init out a → Resumes depth a.cur a.running x →
      AppRun progs depth init out (a.switch nTasks x)

/-- What was printed for task `t`. -/
def textsOf (t : Nat) (out : List Message) : List (List Int8) :=
  (out.filter (·.task = t)).map Message.text

theorem textsOf_append_self (t : Nat) (out : List Message) (text : List Int8) :
    textsOf t (out ++ [⟨t, text⟩]) = textsOf t out ++ [text] := by
  simp [textsOf]

theorem textsOf_append_ne {t i : Nat} (hne : t ≠ i) (out : List Message) (text : List Int8) :
    textsOf t (out ++ [⟨i, text⟩]) = textsOf t out := by
  simp [textsOf, Ne.symm hne]

variable {L : TableLayout shipped} {V : SchedVars L} {progs : Nat → Program} {τ : Forest} {depth t : Nat}
  {init a : Tasks Task} {out : List Message} {s s' : Machine} {w : List Int8}

/-- **Each application goes its own way**, and its messages appear in its order. -/
theorem AppRun.local (hrun : AppRun progs depth init out a) (t : Nat) :
    LocalRun (progs t) depth t (init.task t) (textsOf t out) (a.task t) := by
  have hself : ∀ (b : Tasks Task) (x : Task), (b.work x).task b.cur = x :=
    fun b x => Function.update_self ..
  have hother : ∀ (b : Tasks Task) (x : Task), t ≠ b.cur → (b.work x).task t = b.task t :=
    fun b x hne => Function.update_of_ne hne ..
  induction hrun with
  | start => exact .start
  | @work out b x _ hcomputes ih =>
      by_cases ht : t = b.cur
      · subst ht
        rw [hself]
        exact ih.work hcomputes
      · rwa [hother b x ht]
  | @call out b x text _ hwants hcalls ih =>
      by_cases ht : t = b.cur
      · subst ht
        rw [hself, textsOf_append_self]
        exact ih.call hwants hcalls
      · rwa [hother b x ht, textsOf_append_ne ht]
  | @fault out b x addr _ hwants hpage hresumes ih =>
      by_cases ht : t = b.cur
      · subst ht
        rw [hself, textsOf_append_self]
        exact ih.fault hwants hpage hresumes
      · rwa [hother b x ht, textsOf_append_ne ht]
  | @switch out b x _ hresumes ih =>
      have htask : (b.switch nTasks x).task = (b.work x).task := rfl
      rw [htask]
      by_cases ht : t = b.cur
      · subst ht
        rw [hself]
        exact ih.wait hresumes
      · rwa [hother b x ht]

/-! ## On the machine -/

/-- **The machine displays the applications.** -/
structure Displays (V : SchedVars L) (a : Tasks Task) (s : Machine) : Prop where
  order : InOrder V initialForest s.mem a.cur ∨ InOrder V faultForest s.mem a.cur
  running : a.running.cpu = s.cpu
  roots : ∀ t < nTasks, (a.task t).cpu.cr3 = UInt64.ofNat (L.addr (.PML4s t))
  own : ∀ t < nTasks, (a.task t).mem = ownMem t s.mem
  suspended : ∀ t < nTasks, t ≠ a.cur → Suspended V s.mem t (a.task t).cpu

theorem Displays.inOrder (h : Displays V a s) : ∃ τ, InOrder V τ s.mem a.cur :=
  h.order.elim (fun h => ⟨_, h⟩) (fun h => ⟨_, h⟩)

theorem Displays.lt (h : Displays V a s) : a.cur < nTasks := h.order.elim (·.lt) (·.lt)

theorem Displays.mapped (h : Displays V a s) : TablesMapped L s.mem :=
  h.order.imp (·.tables) (·.tables)

theorem Displays.root (h : Displays V a s) : s.cpu.cr3.toNat = L.addr (.PML4s a.cur) := by
  have hlt := root_lt (L := L) h.lt
  rw [← h.running, Tasks.running, h.roots a.cur h.lt, UInt64.toNat_ofNat', Nat.mod_eq_of_lt hlt]

/-- The running task is what the machine displays. -/
theorem Displays.running_eq (h : Displays V a s) : a.running = displayed a.cur s := by
  have hcpu := h.running
  have hmem := h.own a.cur h.lt
  unfold Tasks.running at hcpu ⊢
  unfold displayed
  rw [← hcpu, ← hmem]

theorem Displays.runs (h : Displays V a s) : Runs L s a.cur := ⟨h.lt, h.root⟩

theorem ownMem_own {m : Mem} {v : Nat} (hv : Owns t v) : ownMem t m v = m (place t v) := if_pos hv

/-- What a task sees of its memory depends on its own places only. -/
theorem ownMem_congr {m m' : Mem} (h : ∀ v, Owns t v → m' (place t v) = m (place t v)) :
    ownMem t m' = ownMem t m := by
  funext v
  unfold ownMem
  split
  · next hv => exact h v hv
  · rfl

theorem place_window {v : Nat} (hv : InWindow v) :
    place t v = getTaskPhysAddr t + (v - 0x40000000) := by
  obtain ⟨hlo, hhi⟩ := hv
  unfold place
  rw [if_pos (by omega)]

theorem onPage_bounds {v : Nat} : OnPage v ↔ 0x300000000 ≤ v ∧ v < 0x300001000 := by
  have hstart : additionalPageStart = 0x300000000 := rfl
  have hlen : pageLen = 0x1000 := rfl
  unfold OnPage
  rw [hstart, hlen]

theorem place_page {v : Nat} (hv : OnPage v) : place t v = 0x101000000 + (v - 0x300000000) := by
  rw [onPage_bounds] at hv
  have hstart : additionalPageStart = 0x300000000 := rfl
  have hphys : additionalPhysAddrStart = 0x101000000 := rfl
  unfold place
  rw [if_neg (by omega), hstart, hphys]

/-- The additional page in physical memory. -/
def pageBytes : Set Nat := Set.Ico 0x101000000 0x101001000

/-- What no step of task `c` touches: all but its own memory, the console's and the tables. -/
def foreign (V : SchedVars L) (c : Nat) : Set Nat :=
  {x | x ∉ windowOf c ∧ (c = 0 → x ∉ pageBytes) ∧ x ∉ consoleBytes V ∧ x ∉ L.bytes}

theorem place_foreign {i c v : Nat} (hi : i < nTasks) (hc : c < nTasks) (hne : i ≠ c)
    (hv : Owns i v) : place i v ∈ foreign V c := by
  have hphysi := getTaskPhysAddr_eq hi
  have hphysc := getTaskPhysAddr_eq hc
  have hbounds : (getTaskPhysAddr i ≤ place i v ∧ place i v < getTaskPhysAddr i + 0x1000000) ∨
      (i = 0 ∧ 0x101000000 ≤ place i v ∧ place i v < 0x101001000) := by
    rcases hv with hv | ⟨h0, hv⟩
    · have hplace := place_window (t := i) hv
      obtain ⟨hlo, hhi⟩ := hv
      omega
    · have hplace := place_page (t := i) hv
      rw [onPage_bounds] at hv
      omega
  refine ⟨?_, ?_, ?_, ?_⟩
  · rintro ⟨hlo, hhi⟩
    omega
  · rintro h0 ⟨hlo, hhi⟩
    omega
  · rintro (⟨hlo, hhi, -⟩ | ⟨hlo, hhi⟩) <;> omega
  · intro hin
    have hkernel := V.inKernel_bytes hin
    omega

theorem scheduler_foreign {c x : Nat} (hc : c < nTasks) (hx : x ∈ V.bytes) (htables : x ∉ L.bytes) :
    x ∈ foreign V c := by
  have hkernel := V.bytes_inKernel hx
  refine ⟨bytes_notMem_window hc hx, ?_, bytes_notMem_console hx, htables⟩
  rintro - ⟨hlo, -⟩
  omega

theorem tasks_notMem_tables {i x : Nat} (hi : i < nTasks) (hlo : V.sp i ≤ x) (hhi : x < V.sp i + 16) :
    x ∈ V.bytes ∧ x ∉ L.bytes := by
  have hb := V.sp_bounds hi
  refine ⟨.inr (.inl (by omega)), fun hin => ?_⟩
  have hoff := V.tasksOff x hin
  omega

theorem curTask_notMem_tables {x : Nat} (hlo : V.curTask ≤ x) (hhi : x < V.curTask + 4) :
    x ∈ V.bytes ∧ x ∉ L.bytes := by
  refine ⟨.inr (.inr ⟨hlo, hhi⟩), fun hin => ?_⟩
  have hoff := V.curOff x hin
  omega

/-- The scheduler's view survives what leaves the foreign bytes alone. -/
theorem inOrder_of_foreign {m m' : Mem} {τ' : Forest} {c : Nat} (h : InOrder V τ m c)
    (heq : Set.EqOn m' m (foreign V c)) (hτ : Gives τ') (htables : Represents L m' τ') :
    InOrder V τ' m' c where
  gives := hτ
  tables := htables
  lt := h.lt
  curTask := by
    rw [load_congr (heq.mono ?_), h.curTask]
    rintro x ⟨hlo, hhi⟩
    obtain ⟨hin, hout⟩ := curTask_notMem_tables hlo hhi
    exact scheduler_foreign h.lt hin hout
  cr3s i hi := by
    have hcr3 := V.cr3_eq i
    rw [load_congr (heq.mono ?_), h.cr3s i hi]
    rintro x ⟨hlo, hhi⟩
    obtain ⟨hin, hout⟩ := tasks_notMem_tables (V := V) hi (show V.sp i ≤ x by omega) (by omega)
    exact scheduler_foreign h.lt hin hout

/-- **A step of the running task**, as long as it leaves everything foreign alone. -/
theorem Displays.step (h : Displays V a s) (hcr3 : s'.cpu.cr3 = s.cpu.cr3)
    (hmapped : TablesMapped L s'.mem) (hmem : Set.EqOn s'.mem s.mem (foreign V a.cur)) :
    Displays V (a.work (displayed a.cur s')) s' := by
  have hcur := h.lt
  have hself : (a.work (displayed a.cur s')).task a.cur = displayed a.cur s' := Function.update_self ..
  have htask : ∀ i, i ≠ a.cur → (a.work (displayed a.cur s')).task i = a.task i :=
    fun i hne => Function.update_of_ne hne ..
  refine ⟨?_, congrArg Task.cpu hself, ?_, ?_, ?_⟩
  · obtain ⟨τ, horder⟩ := h.inOrder
    exact hmapped.imp (fun h => inOrder_of_foreign horder hmem gives_initialForest h)
      (fun h => inOrder_of_foreign horder hmem gives_faultForest h)
  · intro i hi
    by_cases hic : i = a.cur
    · rw [hic, hself, ← h.roots a.cur hcur]
      exact hcr3.trans (congrArg Cpu.cr3 h.running.symm)
    · rw [htask i hic]
      exact h.roots i hi
  · intro i hi
    by_cases hic : i = a.cur
    · rw [hic, hself]
      rfl
    · rw [htask i hic, h.own i hi]
      exact (ownMem_congr (fun v hv => hmem (place_foreign hi hcur hic hv))).symm
  · intro i hi hne
    rw [htask i hne]
    refine (h.suspended i hi hne).congr (hmem.mono ?_) (hmem.mono ?_)
    · rintro x ⟨hlo, hhi⟩
      obtain ⟨hin, hout⟩ := tasks_notMem_tables (V := V) hi hlo (by omega)
      exact scheduler_foreign hcur hin hout
    · rintro x ⟨hlo, hhi⟩
      have hv : InWindow (0x40000000 + (x - getTaskPhysAddr i)) := ⟨by omega, by omega⟩
      have hplace := place_foreign (V := V) hi hcur hne (Or.inl hv)
      rw [place_window hv] at hplace
      have hx : getTaskPhysAddr i + (0x40000000 + (x - getTaskPhysAddr i) - 0x40000000) = x := by omega
      rwa [hx] at hplace

/-! ## The four kinds of steps -/

/-- The tables are no application's memory. -/
theorem ownBytes_subset (h : Displays V a s) {x : Nat} (hx : x ∈ ownBytes s) :
    x ∈ windowOf a.cur ∨ (a.cur = 0 ∧ x ∈ pageBytes) := by
  obtain ⟨τ, horder⟩ := h.inOrder
  obtain ⟨v, hv | hv, htr⟩ := hx
  · left
    obtain ⟨hlo, hhi⟩ := hv
    have hmaps := horder.gives.maps_window horder.tables h.lt (v - 0x40000000) (by omega)
    rw [Nat.add_sub_cancel' hlo, ← h.root, htr, Option.some.injEq] at hmaps
    exact ⟨by omega, by omega⟩
  · right
    rw [onPage_bounds] at hv
    have hcanon : Canonical v := Or.inl (by omega)
    obtain ⟨windows, hwindows, hwalk⟩ := walk_of_tablesMapped h.mapped
    rw [h.root, Sched.translate, if_pos hcanon, hwalk _ h.lt v (by omega)] at htr
    rcases hwindows with rfl | rfl
    · rw [lookup_additional hv] at htr
      cases htr
    · rw [lookup_faultWindows, lookup_additional hv] at htr
      split at htr
      · next hpage =>
          rw [Option.some.injEq] at htr
          exact ⟨hpage.1, by omega, by omega⟩
      · cases htr

/-- What an application may change is displayed. -/
theorem Displays.changes (h : Displays V a s) (hown : Computes s s') :
    Displays V (a.work (displayed a.cur s')) s' := by
  have hmem : ∀ x, x ∉ windowOf a.cur → (a.cur = 0 → x ∉ pageBytes) → s'.mem x = s.mem x := by
    intro x hwin hpage
    refine hown.mem x (fun hx => ?_)
    rcases ownBytes_subset h hx with hx | ⟨h0, hx⟩
    · exact hwin hx
    · exact hpage h0 hx
  have htables : Set.EqOn s'.mem s.mem L.bytes := fun x hx => hmem x
    (bytes_notMem_window (V := V) h.lt (.inl hx)) (by
      have hkernel := V.inKernel_bytes hx
      rintro - ⟨hlo, -⟩
      omega)
  refine h.step hown.cr3 ?_ (fun x hx => hmem x hx.1 hx.2.1)
  exact h.mapped.imp (fun h => h.congr htables) (fun h => h.congr htables)

/-- **Computing** is what the program of the running task does. -/
theorem Displays.computes (h : Displays V a s) (hwork : Proceeds L progs s s') :
    (progs a.cur).computes a.running (displayed a.cur s')
      ∧ Displays V (a.work (displayed a.cur s')) s' := by
  obtain ⟨t, hruns, hcomputes⟩ := hwork.program
  obtain rfl := h.runs.unique hruns
  rw [h.running_eq]
  exact ⟨hcomputes, h.changes hwork.own⟩

/-- The bytes of an application that the frames do not reach. -/
theorem place_spared {c v : Nat} (hc : c < nTasks) (hroom : HasRoom depth s) (hv : Owns c v)
    (hdead : ¬ Dead depth s.cpu v) : place c v ∉ L.bytes ∧ place c v ∉ consoleBytes V ∧
      (place c v + reach depth < stackTop c s.cpu ∨ stackTop c s.cpu ≤ place c v) := by
  have hphys := getTaskPhysAddr_eq hc
  obtain ⟨hlo, hhi⟩ := hroom
  have hle := align16_le (s.cpu.gpr .rsp)
  unfold Dead at hdead
  have hbounds : 0x101000000 ≤ place c v ∧
      (place c v + reach depth < stackTop c s.cpu ∨ stackTop c s.cpu ≤ place c v) := by
    unfold stackTop
    rcases hv with hv | ⟨h0, hv⟩
    · have hplace := place_window (t := c) hv
      obtain ⟨hlo, hhi⟩ := hv
      omega
    · have hplace := place_page (t := c) hv
      rw [onPage_bounds] at hv
      omega
  refine ⟨fun hin => ?_, ?_, hbounds.2⟩
  · have hkernel := V.inKernel_bytes hin
    omega
  · rintro (⟨hlo, hhi, -⟩ | ⟨hlo, hhi⟩) <;> omega

/-- What a handler leaves alone, for the application it returns to. -/
theorem Displays.keeps (h : Displays V a s) (hroom : HasRoom depth s)
    (hmem : ∀ x, x ∉ L.bytes → x ∉ consoleBytes V →
      (x + reach depth < stackTop a.cur s.cpu ∨ stackTop a.cur s.cpu ≤ x) → s'.mem x = s.mem x) :
    Keeps depth a.cur a.running (displayed a.cur s') := by
  intro v hv hdead
  rw [h.running] at hdead
  obtain ⟨htables, hconsole, hframes⟩ := place_spared (L := L) (V := V) h.lt hroom hv hdead
  rw [Tasks.running, h.own _ h.lt, ownMem_own hv]
  exact (ownMem_own hv).trans (hmem _ htables hconsole hframes)

theorem foreign_spared {c x : Nat} (hroom : HasRoom depth s) (hx : x ∈ foreign V c) :
    x ∉ L.bytes ∧ x ∉ consoleBytes V ∧ (x + reach depth < stackTop c s.cpu ∨ stackTop c s.cpu ≤ x) := by
  refine ⟨hx.2.2.2, hx.2.2.1, ?_⟩
  by_contra hframes
  exact hx.1 (window_of_frames hroom hframes)

/-- **A system call** that the program makes prints its message and comes back. -/
theorem Displays.call (h : Displays V a s) (hdl : Handles (system V progs depth) .syscall s w s') :
    (progs a.cur).calls a.running ∧ Calls depth a.cur a.running w (displayed a.cur s')
      ∧ Displays V (a.work (displayed a.cur s')) s' := by
  obtain ⟨hwants, ⟨hroom, -⟩, -⟩ := handles_iff.mp hdl
  have hcalls : (progs a.cur).calls a.running := by
    cases hwants with
    | syscall hruns hcalls =>
        obtain rfl := h.runs.unique hruns
        rwa [h.running_eq]
  refine ⟨hcalls, ?_⟩
  obtain ⟨τ, horder⟩ := h.inOrder
  have hans := handles_syscall horder h.root hdl
  have hkeeps := h.keeps hroom (fun x _ => hans.mem x)
  have hdisplays : ∀ r, s'.cpu = s.cpu.set .rax r → Displays V (a.work (displayed a.cur s')) s' := by
    intro r hcpu
    have hcr3 : s'.cpu.cr3 = s.cpu.cr3 := by rw [hcpu, Cpu.set_cr3]
    refine h.step hcr3 (hans.mem.tablesMapped h.lt hroom h.mapped) ?_
    intro x hx
    obtain ⟨-, hconsole, hframes⟩ := foreign_spared hroom hx
    exact hans.mem x hconsole hframes
  rcases hans.said with ⟨hputs, hpass, hcpu⟩ | ⟨hputs, rfl, r, hcpu⟩
  · refine ⟨.puts (by rwa [h.running]) ?_ (by rw [h.running]; exact hcpu) hkeeps, hdisplays 0 hcpu⟩
    have hbyte : ∀ j ≤ w.length, charAt s ((s.cpu.gpr .rsi).toNat + j) =
        some (a.running.mem ((s.cpu.gpr .rsi).toNat + j)).toInt8 := by
      intro j hj
      obtain ⟨hwin, -⟩ := hpass.own j hj
      rw [charAt_window horder h.root hwin, Tasks.running, h.own _ h.lt, ownMem_own (Or.inl hwin),
        place_window hwin]
      rfl
    rw [h.running]
    refine ⟨fun j hj => ?_, hpass.nonzero, ?_⟩
    · exact Option.some.inj ((hbyte j (by omega)).symm.trans (hpass.chars j hj))
    · exact Option.some.inj ((hbyte _ (Nat.le_refl _)).symm.trans hpass.nul)
  · have hcalls : Calls depth a.cur a.running
        (outsText (unknownSyscall (a.running.cpu.gpr .rdi))) (displayed a.cur s') :=
      .unknown r (by rwa [h.running]) (by rw [h.running]; exact hcpu) hkeeps
    rw [h.running] at hcalls
    exact ⟨hcalls, hdisplays r hcpu⟩

/-- **A handled page fault** of the program prints its line, and the application comes back. -/
theorem Displays.fault {addr : Nat} (h : Displays V a s)
    (hdl : Handles (system V progs depth) (.pageFault addr) s w s') :
    (progs a.cur).touches a.running addr ∧ OnPage addr ∧ w = mappingText
      ∧ Resumes depth a.cur a.running (displayed a.cur s')
      ∧ Displays V (a.work (displayed a.cur s')) s' := by
  obtain ⟨hwants, ⟨hroom, -⟩, -⟩ := handles_iff.mp hdl
  have htouches : (progs a.cur).touches a.running addr := by
    cases hwants with
    | pageFault hruns htouches =>
        obtain rfl := h.runs.unique hruns
        rwa [h.running_eq]
  obtain ⟨τ, horder⟩ := h.inOrder
  obtain ⟨hpage, hmap⟩ := handles_pageFault horder h.root h.mapped hdl
  refine ⟨htouches, hpage, ?_⟩
  refine ⟨hmap.text, ⟨hmap.cpu.trans h.running.symm, h.keeps hroom hmap.mem⟩, ?_⟩
  refine h.step (congrArg Cpu.cr3 hmap.cpu) (Or.inr hmap.tables) ?_
  intro x hx
  obtain ⟨htables, hconsole, hframes⟩ := foreign_spared hroom hx
  exact hmap.mem x htables hconsole hframes

/-- A timer interrupt of task `c` leaves alone what any task owns outside its frames. -/
theorem place_interrupted {i c v lo hi : Nat} (hit : i < nTasks) (hc : c < nTasks) (hv : Owns i v)
    (hhi : hi ≤ 0x1000000)
    (hout : i = c → InWindow v → v < 0x40000000 + lo ∨ 0x40000000 + hi ≤ v) :
    place i v ∈ spared V c lo hi := by
  have hphysi := getTaskPhysAddr_eq hit
  have hphysc := getTaskPhysAddr_eq hc
  have hspb := V.sp_bounds hc
  have hcurb := V.cur_bounds
  have heoi : lapicEoi = 0xfee000b0 := rfl
  rcases hv with hv | ⟨h0, hv⟩
  · have hplace := place_window (t := i) hv
    have hself := fun hic => hout hic hv
    obtain ⟨hlo, hhi⟩ := hv
    exact ⟨by omega, by omega, by omega, by omega⟩
  · have hplace := place_page (t := i) hv
    rw [onPage_bounds] at hv
    exact ⟨by omega, by omega, by omega, by omega⟩

/-- **A timer interrupt** is a switch. -/
theorem Displays.tick (h : Displays V a s) (noise : CallNoise) (hlen : noise.frame.length ≤ depth)
    (hroom : HasRoom depth s) :
    ∃ s' x, timerInterrupt V noise s = some s' ∧ Resumes depth a.cur a.running x
      ∧ Displays V (a.switch nTasks x) s' := by
  obtain ⟨τ, horder⟩ := h.inOrder
  have hcur := h.lt
  have hnext := nextTask_lt a.cur
  have hne := nextTask_ne a.cur
  have hreach : reach depth = 168 + depth := rfl
  obtain ⟨hlo, hhi⟩ := hroom
  obtain ⟨k', hk', hsp, hframe⟩ := h.suspended (nextTask a.cur) hnext hne
  obtain ⟨m, k, hrun, hk, halign, hspc, hsaved, -, hcurTask, hrest⟩ :=
    horder.timerInterrupt noise h.root (show Room noise s from ⟨by omega, hhi⟩) hk' hsp
  rw [← h.roots _ hnext, hframe] at hrun
  let x : Task := ⟨s.cpu, ownMem a.cur m⟩
  have htask : ∀ i, i ≠ a.cur → (a.switch nTasks x).task i = a.task i :=
    fun i hi => Function.update_of_ne hi ..
  have hself : (a.switch nTasks x).task a.cur = x := Function.update_self ..
  have huntouched := hrest.mono (untouched_spared (Nat.le_refl (k + 160)))
  have htables := huntouched.mono (tables_untouched hcur)
  have hcr3s : ∀ i < nTasks, load m (V.cr3 i) 8 = L.addr (.PML4s i) := fun i hi => by
    rw [load_congr (huntouched.mono (tasks_untouched hcur hi (Or.inr rfl))), horder.cr3s i hi]
  refine ⟨_, x, hrun, ⟨h.running.symm, ?_⟩, ?_, ?_, ?_, ?_, ?_⟩
  · -- what the frames do not cover
    intro v hv hdead
    have hle := align16_le (s.cpu.gpr .rsp)
    rw [h.running] at hdead
    unfold Dead at hdead
    rw [Tasks.running, h.own _ hcur, ownMem_own hv]
    exact (ownMem_own hv).trans (hrest (place_interrupted hcur hcur hv hk (fun _ _ => by omega)))
  · exact h.mapped.imp (fun h => ⟨gives_initialForest, h.congr htables, hnext, hcurTask, hcr3s⟩)
      (fun h => ⟨gives_faultForest, h.congr htables, hnext, hcurTask, hcr3s⟩)
  · exact congrArg Task.cpu (htask (nextTask a.cur) hne)
  · intro i hi
    by_cases hic : i = a.cur
    · rw [hic, hself, ← h.roots a.cur hcur]
      exact congrArg Cpu.cr3 h.running.symm
    · rw [htask i hic]
      exact h.roots i hi
  · intro i hi
    by_cases hic : i = a.cur
    · rw [hic, hself]
    · rw [htask i hic, h.own i hi]
      exact (ownMem_congr (fun v hv =>
        hrest (place_interrupted hi hcur hv hk (fun h => absurd h hic)))).symm
  · intro i hi hine
    by_cases hic : i = a.cur
    · -- the application just interrupted
      rw [hic, hself]
      exact ⟨k, hk, hspc, hsaved⟩
    · rw [htask i hic]
      exact (h.suspended i hi hic).congr
        (huntouched.mono (tasks_untouched hcur hi (Or.inl ⟨hic, rfl⟩)))
        (huntouched.mono (other_window_untouched hcur hi hic hk))

end Kernel
end SysproKernel

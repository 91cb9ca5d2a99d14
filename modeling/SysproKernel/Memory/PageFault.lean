import Mathlib.Logic.Relation
import Mathlib.Tactic.IntervalCases
import SysproKernel.Memory.AddressSpaces

/-!
# `Memory.PageFault` — demand mapping

`page_fault_handler_internal` maps one extra page on first use. The faults of a running system are a
step relation on memories, and the tables take exactly two shapes along any run: the forest of
`init_virtual_memory`, or that forest with the additional page hung into task 0 (`faultForest`). Every
statement about all histories is read off the windows of these two forests.

The handler patches `PDPs[0]` whichever task faulted: `demand_mapping_progress` says that only task 0
gets the page it faulted on.
-/

namespace SysproKernel
namespace Memory

open Lib.ByteMem Lib.Loop Lib.Windows

/-! ## The handler -/

/-- What a call of the handler leaves behind: the printed text, the memory, and whether it returns to
    the faulting instruction or spins. -/
structure FaultOutcome where
  out : List Out
  mem : Mem
  returns : Bool

/-- `page_fault_handler_internal`, called with the words at `sp` and the faulting address in `cr2`. -/
def pageFaultHandlerInternal {K : VmConsts} (L : TableLayout K) (m : Mem) (sp : Nat → Nat)
    (cr2 : Nat) : Except String FaultOutcome := do
  let errorCode := sp 15
  let errorAddr := cr2
  if additionalPageStart ≤ errorAddr ∧ errorAddr < additionalPageStart + pageLen then
    assert (additionalPageStart % ptLen == 0) "ADDITIONAL_PAGE_START % PT_LEN == 0"
    let m ← initEntry m (L.slot .additionalPT 0) additionalPhysAddrStart
    let m ← initEntry m (L.slot .additionalPD 0) (L.addr .additionalPT)
    -- app0
    let m ← initEntry m (L.slot (.PDPs 0) (additionalPageStart / pdLen)) (L.addr .additionalPD)
    return { out := [.puts "! kernel: mapping additional page\n"], mem := m, returns := true }
  else
    let isWrite := 1 <<< 1
    let isInstFetch := 1 <<< 4
    let msg :=
      if errorCode &&& isInstFetch ≠ 0 then "Page fault(instruction fetch)\n"
      else if errorCode &&& isWrite ≠ 0 then "Page fault(data write)\n"
      else "Page fault(data read)\n"
    return { out := [.puts msg, .puts "addr:", .puth errorAddr 16, .puts "\n"], mem := m
             returns := false }

/-- One step of the system as far as the tables are concerned: a page fault is handled, or something
    else runs and leaves the tables alone. -/
inductive FaultStep {K : VmConsts} (L : TableLayout K) : Mem → Mem → Prop
  | fault {m : Mem} {sp : Nat → Nat} {cr2 : Nat} {o : FaultOutcome}
      (h : pageFaultHandlerInternal L m sp cr2 = .ok o) : FaultStep L m o.mem
  | other {m m' : Mem} (h : Set.EqOn m' m L.bytes) : FaultStep L m m'

/-- Some finite history of steps leads from one memory to the other. -/
abbrev FaultSteps {K : VmConsts} (L : TableLayout K) : Mem → Mem → Prop :=
  Relation.ReflTransGen (FaultStep L)

/-! ## The forest with the additional page -/

/-- The initial forest with the additional page in task 0. -/
def faultForest : Forest :=
  ((initialForest.set .additionalPT 0 (.page additionalPhysAddrStart)).set
    .additionalPD 0 (.table .additionalPT)).set (.PDPs 0) 12 (.table .additionalPD)

theorem Forest.set_of_eq {τ : Forest} {T : TableId} {k : Nat} {r : Ref} (h : τ T k = some r) :
    τ.set T k r = τ := by
  funext T' k'
  unfold Forest.set
  split
  · next hsame => rw [hsame.1, hsame.2, h]
  · rfl

/-- Away from the three slots the handler writes, the forest is the initial one. -/
theorem faultForest_elsewhere {T : TableId} {k : Nat} (h₁ : T ≠ .additionalPT)
    (h₂ : T ≠ .additionalPD) (h₃ : ¬ (T = .PDPs 0 ∧ k = 12)) : faultForest T k = initialForest T k := by
  unfold faultForest Forest.set
  rw [if_neg h₃, if_neg (fun h => h₂ h.1), if_neg (fun h => h₁ h.1)]

theorem faultForest_PDPs : faultForest (.PDPs 0) 12 = some (.table .additionalPD) := rfl

theorem faultForest_additionalPD {k : Nat} :
    faultForest .additionalPD k = if k = 0 then some (.table .additionalPT) else none := by
  simp [faultForest, Forest.set, forestAfter]

theorem next_additionalPD {k : Nat} :
    faultForest.next .additionalPD k = if k = 0 then some .additionalPT else none := by
  rw [Forest.next, faultForest_additionalPD]
  split_ifs <;> rfl

theorem faultForest_additionalPT {k : Nat} :
    faultForest .additionalPT k = if k = 0 then some (.page additionalPhysAddrStart) else none := by
  simp [faultForest, Forest.set, forestAfter]

/-- Mapping the page again changes nothing. -/
theorem faultForest_idem :
    ((faultForest.set .additionalPT 0 (.page additionalPhysAddrStart)).set
      .additionalPD 0 (.table .additionalPT)).set (.PDPs 0) 12 (.table .additionalPD)
      = faultForest := by
  have hPT := Forest.set_of_eq (faultForest_additionalPT.trans (if_pos rfl))
  have hPD := Forest.set_of_eq (faultForest_additionalPD.trans (if_pos rfl))
  have hPDP := Forest.set_of_eq faultForest_PDPs
  rw [hPT, hPD, hPDP]

/-! ## The two shapes of the tables -/

section Handler

variable {L : TableLayout shipped} {m m' : Mem} {cr2 : Nat} {τ : Forest}

/-- Every state of the tables is one of two forests. -/
def TablesMapped (L : TableLayout shipped) (m : Mem) : Prop :=
  Represents L m initialForest ∨ Represents L m faultForest

/-- **A fault on the additional page** is handled and hangs the page into task 0. -/
theorem handler_inside (sp : Nat → Nat) (h : Represents L m τ)
    (hin : additionalPageStart ≤ cr2 ∧ cr2 < additionalPageStart + pageLen) :
    ∃ o, pageFaultHandlerInternal L m sp cr2 = .ok o ∧ o.returns = true ∧
      Represents L o.mem (((τ.set .additionalPT 0 (.page additionalPhysAddrStart)).set
        .additionalPD 0 (.table .additionalPT)).set (.PDPs 0) 12 (.table .additionalPD)) := by
  obtain ⟨m₁, hok₁, h₁⟩ := initEntry_represents (T := .additionalPT) (k := 0)
    (r := .page additionalPhysAddrStart) h trivial (by decide) ⟨rfl, by decide, by decide⟩
  obtain ⟨m₂, hok₂, h₂⟩ := initEntry_represents (T := .additionalPD) (k := 0)
    (r := .table .additionalPT) h₁ trivial (by decide) ⟨trivial, rfl⟩
  obtain ⟨m₃, hok₃, h₃⟩ := initEntry_represents (T := .PDPs 0) (k := 12)
    (r := .table .additionalPD) h₂ (show 0 < nTasks by decide) (by decide)
    ⟨trivial, rfl⟩
  have hindex : additionalPageStart / pdLen = 12 := by decide
  have hassert : assert (additionalPageStart % ptLen == 0) "ADDITIONAL_PAGE_START % PT_LEN == 0"
      = .ok () := assert_ok (by decide)
  simp only [Ref.addr] at hok₁ hok₂ hok₃
  have hrun : pageFaultHandlerInternal L m sp cr2 = .ok
      { out := [.puts "! kernel: mapping additional page\n"], mem := m₃, returns := true } := by
    rw [pageFaultHandlerInternal, if_pos hin, hindex, bind_of_ok hassert, bind_of_ok hok₁,
      bind_of_ok hok₂, bind_of_ok hok₃]
    rfl
  exact ⟨_, hrun, rfl, h₃⟩

/-- **A fault elsewhere** prints its message and spins, with memory untouched. -/
theorem handler_outside (sp : Nat → Nat)
    (hout : ¬ (additionalPageStart ≤ cr2 ∧ cr2 < additionalPageStart + pageLen)) :
    ∃ o, pageFaultHandlerInternal L m sp cr2 = .ok o ∧ o.returns = false ∧ o.mem = m := by
  rw [pageFaultHandlerInternal, if_neg hout]
  exact ⟨_, rfl, rfl, rfl⟩

theorem handler_inside_mapped (sp : Nat → Nat) (h : TablesMapped L m)
    (hin : additionalPageStart ≤ cr2 ∧ cr2 < additionalPageStart + pageLen) :
    ∃ o, pageFaultHandlerInternal L m sp cr2 = .ok o ∧ o.returns = true ∧
      Represents L o.mem faultForest := by
  rcases h with h | h
  · exact handler_inside sp h hin
  · obtain ⟨o, hok, hret, hrep⟩ := handler_inside sp h hin
    rw [faultForest_idem] at hrep
    exact ⟨o, hok, hret, hrep⟩

theorem tablesMapped_step (hstep : FaultStep L m m') (h : TablesMapped L m) :
    TablesMapped L m' := by
  cases hstep with
  | @fault sp cr2 o hok =>
      by_cases hin : additionalPageStart ≤ cr2 ∧ cr2 < additionalPageStart + pageLen
      · obtain ⟨o', hok', _, hrep⟩ := handler_inside_mapped sp h hin
        rw [hok] at hok'
        rw [Except.ok.inj hok']
        exact Or.inr hrep
      · obtain ⟨o', hok', _, hmem⟩ := handler_outside (L := L) (m := m) sp hin
        rw [hok] at hok'
        rw [Except.ok.inj hok', hmem]
        exact h
  | other heq => exact h.imp (fun h => h.congr heq) (fun h => h.congr heq)

/-- **Along every history the tables keep one of the two shapes.** -/
theorem tablesMapped_run (hrun : FaultSteps L m m') (h : TablesMapped L m) :
    TablesMapped L m' := by
  induction hrun with
  | refl => exact h
  | tail _ hstep ih => exact tablesMapped_step hstep ih

end Handler

/-! ## The windows of the second shape -/

/-- The additional page, mapped right behind the kernel. -/
def additionalWindow : Window :=
  { vbase := additionalPageStart, len := pageLen, pbase := additionalPhysAddrStart }

/-- The address space of task `i` once the additional page is mapped. -/
def faultWindows (i : Nat) : List Window :=
  if i = 0 then additionalWindow :: taskWindows 0 else taskWindows i

theorem additionalWindow_contains {v : Nat} :
    additionalWindow.Contains v ↔ 0x300000000 ≤ v ∧ v < 0x300001000 := by
  have hbase : additionalWindow.vbase = 0x300000000 := rfl
  have hlen : additionalWindow.len = 0x1000 := rfl
  rw [Window.Contains, hbase, hlen]

/-- Two forests that agree along the path of an address translate it alike. -/
theorem Forest.translate_congr {τ τ' : Forest} {root : TableId} {v : Nat}
    (h4 : τ'.next root (v / pdpLen % nPagesInTable) = τ.next root (v / pdpLen % nPagesInTable))
    (h3 : ∀ pdp, τ.next root (v / pdpLen % nPagesInTable) = some pdp →
      τ'.next pdp (v / pdLen % nPagesInTable) = τ.next pdp (v / pdLen % nPagesInTable) ∧
      ∀ pd, τ.next pdp (v / pdLen % nPagesInTable) = some pd →
        τ'.next pd (v / ptLen % nPagesInTable) = τ.next pd (v / ptLen % nPagesInTable) ∧
        ∀ pt, τ.next pd (v / ptLen % nPagesInTable) = some pt →
          τ' pt (v / pageLen % nPagesInTable) = τ pt (v / pageLen % nPagesInTable)) :
    τ'.translate root v = τ.translate root v := by
  unfold Forest.translate
  rw [h4]
  cases hpdp : τ.next root (v / pdpLen % nPagesInTable) with
  | none => rfl
  | some pdp =>
      obtain ⟨hnext3, h2⟩ := h3 pdp hpdp
      simp only [Option.bind_eq_bind, Option.bind_some, hnext3]
      cases hpd : τ.next pdp (v / pdLen % nPagesInTable) with
      | none => rfl
      | some pd =>
          obtain ⟨hnext2, h1⟩ := h2 pd hpd
          simp only [Option.bind_some, hnext2]
          cases hpt : τ.next pd (v / ptLen % nPagesInTable) with
          | none => rfl
          | some pt => simp only [Option.bind_some, h1 pt hpt]

section Tables

variable {i k : Nat}

theorem next_PML4s (hi : i < nTasks) :
    initialForest.next (.PML4s i) k = if k = 0 then some (.PDPs i) else none := by
  have hindex : pdpIndex shipped = 0 := by decide
  simp only [Forest.next, forestAfter, hindex, hi, true_and]
  split_ifs <;> rfl

theorem next_PDPs (hi : i < nTasks) :
    initialForest.next (.PDPs i) k =
      if k = 4 then some .kernelPD else if k = 3 then some .ioPD
      else if k = 1 then some (.PDs i) else none := by
  have hkernel : kernelPdIndex shipped = 4 := by decide
  have hio : ioPdIndex shipped = 3 := by decide
  have htask : pdIndex shipped = 1 := by decide
  simp only [Forest.next, forestAfter, hkernel, hio, htask, if_pos hi]
  split_ifs <;> rfl

theorem next_PDs (hi : i < nTasks) :
    initialForest.next (.PDs i) k = if k < 8 then some (.PTs i k) else none := by
  have hbase : ptIndexBase shipped = 0 := by decide
  have hlen : shipped.nTaskPTs = 8 := by decide
  simp only [Forest.next, forestAfter, hbase, hlen, hi, true_and, Nat.zero_le, Nat.zero_add,
    Nat.sub_zero]
  split_ifs <;> rfl

theorem next_kernelPD :
    initialForest.next .kernelPD k = if k < 8 then some (.kernelPTs k) else none := by
  have hbase : kernelPtBase shipped = 0 := by decide
  have hlen : shipped.nKernelPTs = 8 := by decide
  simp only [Forest.next, forestAfter, hbase, hlen, true_and, Nat.zero_le, Nat.zero_add,
    Nat.sub_zero]
  split_ifs <;> rfl

theorem next_ioPD :
    initialForest.next .ioPD k =
      if k = 0 then some .fbPT else if k = 503 then some .lapicPT else none := by
  have hfb : fbPtIndex shipped = 0 := by decide
  have hlapic : lapicPtIndex shipped = 503 := by decide
  simp only [Forest.next, forestAfter, hfb, hlapic]
  split_ifs <;> rfl

end Tables

/-- What lies below a root of the initial forest. -/
theorem initialForest_pdp {i k : Nat} {pdp : TableId} (hi : i < nTasks)
    (h : initialForest.next (.PML4s i) k = some pdp) : pdp = .PDPs i := by
  rw [next_PML4s hi] at h
  split_ifs at h
  cases h
  rfl

theorem initialForest_pd {i k : Nat} {pd : TableId} (hi : i < nTasks)
    (h : initialForest.next (.PDPs i) k = some pd) :
    pd = .kernelPD ∨ pd = .ioPD ∨ pd = .PDs i := by
  rw [next_PDPs hi] at h
  split_ifs at h <;> cases h <;> simp

theorem initialForest_pt {i k : Nat} {pd pt : TableId} (hi : i < nTasks)
    (hpd : pd = .kernelPD ∨ pd = .ioPD ∨ pd = .PDs i) (h : initialForest.next pd k = some pt) :
    pt = .kernelPTs k ∨ pt = .fbPT ∨ pt = .lapicPT ∨ pt = .PTs i k := by
  rcases hpd with rfl | rfl | rfl
  · rw [next_kernelPD] at h
    split_ifs at h
    cases h
    simp
  · rw [next_ioPD] at h
    split_ifs at h <;> cases h <;> simp
  · rw [next_PDs hi] at h
    split_ifs at h
    cases h
    simp

/-- Off the path through `PDPs[0][12]` both forests translate alike. -/
theorem translate_faultForest_elsewhere {i v : Nat} (hi : i < nTasks)
    (hoff : ¬ (i = 0 ∧ v / pdLen % nPagesInTable = 12)) :
    faultForest.translate (.PML4s i) v = initialForest.translate (.PML4s i) v := by
  have hnext : ∀ {T : TableId} {k : Nat}, faultForest T k = initialForest T k →
      faultForest.next T k = initialForest.next T k := by
    intro T k h
    unfold Forest.next
    rw [h]
  refine Forest.translate_congr (hnext ?_) ?_
  · exact faultForest_elsewhere (by simp) (by simp) (by simp)
  · intro pdp hpdp
    obtain rfl := initialForest_pdp hi hpdp
    refine ⟨hnext (faultForest_elsewhere (by simp) (by simp) ?_), ?_⟩
    · rintro ⟨hT, hk⟩
      exact hoff ⟨TableId.PDPs.inj hT, hk⟩
    · intro pd hpd
      have hpds := initialForest_pd hi hpd
      refine ⟨hnext ?_, ?_⟩
      · rcases hpds with rfl | rfl | rfl <;>
          exact faultForest_elsewhere (by simp) (by simp) (by simp)
      · intro pt hpt
        rcases initialForest_pt hi hpds hpt with rfl | rfl | rfl | rfl <;>
          exact faultForest_elsewhere (by simp) (by simp) (by simp)

/-- **The second shape translates as its windows do**, on every 48-bit address. -/
theorem translate_faultForest {i v : Nat} (hi : i < nTasks) (hv : v < 2 ^ 48) :
    faultForest.translate (.PML4s i) v = lookup (faultWindows i) v := by
  by_cases hpath : i = 0 ∧ v / pdLen % nPagesInTable = 12
  · obtain ⟨rfl, h3⟩ := hpath
    have hpdIndex : v / 2 ^ 30 % 512 = 12 := h3
    have hlow : lookup (taskWindows 0) v = none := by
      rw [lookup_taskWindows, if_neg (by omega), if_neg (by omega)]
    rw [faultWindows, if_pos rfl]
    by_cases h4 : v / 2 ^ 39 % 512 = 0
    · have hpdp : faultForest.next (.PML4s 0) (v / pdpLen % nPagesInTable) = some (.PDPs 0) :=
        (next_PML4s hi).trans (if_pos h4)
      have hpd : faultForest.next (.PDPs 0) (v / pdLen % nPagesInTable) = some .additionalPD := by
        rw [h3]
        rfl
      by_cases h2 : v / 2 ^ 21 % 512 = 0
      · have hpt : faultForest.next .additionalPD (v / ptLen % nPagesInTable)
            = some .additionalPT := next_additionalPD.trans (if_pos h2)
        by_cases h1 : v / 2 ^ 12 % 512 = 0
        · have hin : additionalWindow.Contains v := by
            rw [additionalWindow_contains]
            omega
          rw [translate_page hpdp hpd hpt (faultForest_additionalPT.trans (if_pos h1)),
            lookup_inside hin]
          refine congrArg some ?_
          simp only [additionalWindow, additionalPageStart, additionalPhysAddrStart, pageLen]
          omega
        · have hnot : ¬ additionalWindow.Contains v := by
            rw [additionalWindow_contains]
            omega
          rw [translate_noPage hpdp hpd hpt (faultForest_additionalPT.trans (if_neg h1)),
            lookup_outside hnot, hlow]
      · have hnot : ¬ additionalWindow.Contains v := by
          rw [additionalWindow_contains]
          omega
        have hpt : faultForest.next .additionalPD (v / ptLen % nPagesInTable) = none :=
          next_additionalPD.trans (if_neg h2)
        rw [translate_noPT hpdp hpd hpt, lookup_outside hnot, hlow]
    · have hnot : ¬ additionalWindow.Contains v := by
        rw [additionalWindow_contains]
        omega
      have hpdp : faultForest.next (.PML4s 0) (v / pdpLen % nPagesInTable) = none :=
        (next_PML4s hi).trans (if_neg h4)
      rw [translate_noPDP hpdp, lookup_outside hnot, hlow]
  · rw [translate_faultForest_elsewhere hi hpath, translate_initialForest hi hv, faultWindows]
    split_ifs with h0
    · have hpdIndex : ¬ v / 2 ^ 30 % 512 = 12 := by
        intro h
        exact hpath ⟨h0, h⟩
      have hnot : ¬ additionalWindow.Contains v := by
        rw [additionalWindow_contains]
        omega
      rw [lookup_outside hnot, h0]
    · rfl

/-! ## All histories -/

/-- The shared physical memory: the frame buffer, the LAPIC page and the kernel. -/
def SharedPhys (p : Nat) : Prop :=
  (0xc0000000 ≤ p ∧ p < 0xc0200000) ∨ (0xfee00000 ≤ p ∧ p < 0xfee01000)
    ∨ (0x100000000 ≤ p ∧ p < 0x101000000)

theorem sharedWindows_reach {w : Window} {p : Nat} (hw : w ∈ sharedWindows) (hp : w.Reaches p) :
    SharedPhys p := by
  have hend : shipped.frameBufAddr + shipped.frameBufLen = 0xc0200000 ∧
      shipped.lapicBufAddr + pageLen = 0xfee01000 ∧
      shipped.kernelMemAddr + shipped.kernelMemLen = 0x101000000 := by decide
  obtain ⟨hfb, hlapic, hkernel⟩ := hend
  simp only [sharedWindows, List.mem_cons, List.not_mem_nil, or_false] at hw
  rcases hw with rfl | rfl | rfl
  · exact Or.inl ⟨hp.1, hfb ▸ hp.2⟩
  · exact Or.inr (Or.inl ⟨hp.1, hlapic ▸ hp.2⟩)
  · exact Or.inr (Or.inr ⟨hp.1, hkernel ▸ hp.2⟩)

/-- A window of a task is the additional page of task 0, the private memory, or shared. -/
theorem mem_faultWindows {i : Nat} {w : Window} (hw : w ∈ faultWindows i) :
    (i = 0 ∧ w = additionalWindow) ∨ w = taskWindow i ∨ w ∈ sharedWindows := by
  unfold faultWindows at hw
  split_ifs at hw with h0
  · rcases List.mem_cons.mp hw with hw | hw
    · exact Or.inl ⟨h0, hw⟩
    · exact Or.inr (h0 ▸ List.mem_cons.mp hw)
  · exact Or.inr (List.mem_cons.mp hw)

theorem taskWindows_subset (i : Nat) : taskWindows i ⊆ faultWindows i := by
  unfold faultWindows
  split_ifs with h0
  · rw [h0]
    exact List.subset_cons_self _ _
  · exact List.Subset.refl _

/-- The private windows of distinct tasks reach disjoint physical memory. -/
theorem taskWindow_disjoint {i j p : Nat} (hi : i < nTasks) (hj : j < nTasks) (hij : i ≠ j)
    (hp : (taskWindow i).Reaches p) : ¬ (taskWindow j).Reaches p := by
  have hphys : ∀ k, k < nTasks → getTaskPhysAddr k = 0x104000000 + k * 0x1000000 := by
    intro k hk
    unfold nTasks at hk
    interval_cases k <;> rfl
  have hlen : shipped.taskMemLen = 0x1000000 := rfl
  simp only [Window.Reaches, taskWindow, hphys i hi, hphys j hj, hlen] at hp ⊢
  omega

theorem additionalWindow_private {j p : Nat} (hp : additionalWindow.Reaches p) :
    ¬ (taskWindow j).Reaches p := by
  have hlow : 0x104000000 ≤ getTaskPhysAddr j ∨ getTaskPhysAddr j = 0 := by
    unfold getTaskPhysAddr
    split_ifs <;> decide
  have hlen : shipped.taskMemLen = 0x1000000 := rfl
  simp only [Window.Reaches, taskWindow, additionalWindow, additionalPhysAddrStart, pageLen,
    hlen] at hp ⊢
  omega

/-- Windows of distinct tasks overlap physically in shared memory only. -/
theorem faultWindows_isolated {i j : Nat} (hi : i < nTasks) (hj : j < nTasks) (hij : i ≠ j) :
    ∀ w ∈ faultWindows i, ∀ w' ∈ faultWindows j, ∀ p, w.Reaches p → w'.Reaches p →
      SharedPhys p := by
  intro w hw w' hw' p hp hp'
  rcases mem_faultWindows hw with ⟨hi0, rfl⟩ | rfl | hw
  · rcases mem_faultWindows hw' with ⟨hj0, -⟩ | rfl | hw'
    · exact absurd (hi0.trans hj0.symm) hij
    · exact absurd hp' (additionalWindow_private hp)
    · exact sharedWindows_reach hw' hp'
  · rcases mem_faultWindows hw' with ⟨-, rfl⟩ | rfl | hw'
    · exact absurd hp (additionalWindow_private hp')
    · exact absurd hp' (taskWindow_disjoint hi hj hij hp)
    · exact sharedWindows_reach hw' hp'
  · exact sharedWindows_reach hw hp

/-- The additional page lies outside the windows every task starts with. -/
theorem lookup_additional {i v : Nat} (hv : 0x300000000 ≤ v ∧ v < 0x300001000) :
    lookup (taskWindows i) v = none := by
  rw [lookup_taskWindows, if_neg (by omega), if_neg (by omega)]

/-- Mapping the page keeps every translation and adds those of the page, in task 0. -/
theorem lookup_faultWindows (i v : Nat) :
    lookup (faultWindows i) v =
      if i = 0 ∧ 0x300000000 ≤ v ∧ v < 0x300001000 then some (0x101000000 + (v - 0x300000000))
      else lookup (taskWindows i) v := by
  unfold faultWindows
  by_cases h0 : i = 0
  · rw [if_pos h0]
    by_cases hv : additionalWindow.Contains v
    · rw [lookup_inside hv, if_pos ⟨h0, additionalWindow_contains.mp hv⟩]
      rfl
    · rw [lookup_outside hv, if_neg (fun h => hv (additionalWindow_contains.mpr h.2)), h0]
  · rw [if_neg h0, if_neg (fun h => h0 h.1)]

section Walks

variable {L : TableLayout shipped} {m : Mem}

/-- In every reachable state the walks are given by the windows of one of the two shapes. -/
theorem walk_of_tablesMapped (h : TablesMapped L m) :
    ∃ windows : Nat → List Window, (windows = taskWindows ∨ windows = faultWindows) ∧
      ∀ i < nTasks, ∀ v < 2 ^ 48, walk m (L.addr (.PML4s i)) v = lookup (windows i) v := by
  rcases h with h | h
  · refine ⟨taskWindows, Or.inl rfl, ?_⟩
    intro i hi v hv
    exact walk_eq_lookup h hi hv
  · refine ⟨faultWindows, Or.inr rfl, ?_⟩
    intro i hi v hv
    rw [walk_eq_translate h hi, translate_faultForest hi hv]

end Walks

/-- **Isolation survives demand mapping.** After any history of page faults: distinct tasks meet only
    in shared memory; no translation is lost or changed; only the additional page of task 0 is ever
    added; and a fault elsewhere changes no table entry. -/
theorem isolation_survives_demand_mapping (L : TableLayout shipped) (m : Mem) (cr3 : Nat)
    (hzero : ZeroedTables L m) :
    ∃ s, initVirtualMemory L m cr3 = .ok s ∧ ∀ m', FaultSteps L s.mem m' →
      (∀ i < nTasks, ∀ j < nTasks, i ≠ j → ∀ u < 2 ^ 48, ∀ v < 2 ^ 48, ∀ p,
        walk m' (s.taskCr3s i) u = some p → walk m' (s.taskCr3s j) v = some p → SharedPhys p) ∧
      (∀ i < nTasks, ∀ v < 2 ^ 48, ∀ p,
        walk s.mem (s.taskCr3s i) v = some p → walk m' (s.taskCr3s i) v = some p) ∧
      (∀ i < nTasks, ∀ v < 2 ^ 48, ∀ p,
        walk s.mem (s.taskCr3s i) v = none → walk m' (s.taskCr3s i) v = some p →
          i = 0 ∧ 0x300000000 ≤ v ∧ v < 0x300001000 ∧ p = 0x101000000 + (v - 0x300000000)) ∧
      (∀ sp cr2, ¬ (0x300000000 ≤ cr2 ∧ cr2 < 0x300001000) →
        ∃ o, pageFaultHandlerInternal L m' sp cr2 = .ok o ∧
          ∀ T, T.Valid shipped → ∀ k < nPagesInTable,
            readEntry o.mem (L.slot T k) = readEntry m' (L.slot T k)) := by
  obtain ⟨s, hok, hrep, hroots⟩ := initVirtualMemory_windows hzero cr3
  refine ⟨s, hok, ?_⟩
  intro m' hrun
  obtain ⟨windows, hwindows, hwalk⟩ := walk_of_tablesMapped (tablesMapped_run hrun (Or.inl hrep))
  have hbefore : ∀ i < nTasks, ∀ v < 2 ^ 48,
      walk s.mem (s.taskCr3s i) v = lookup (taskWindows i) v := by
    intro i hi v hv
    rw [hroots i hi, walk_eq_lookup hrep hi hv]
  have hafter : ∀ i < nTasks, ∀ v < 2 ^ 48,
      walk m' (s.taskCr3s i) v = lookup (windows i) v := by
    intro i hi v hv
    rw [hroots i hi, hwalk i hi v hv]
  have hsub : ∀ i, windows i ⊆ faultWindows i := by
    intro i
    rcases hwindows with rfl | rfl
    · exact taskWindows_subset i
    · exact List.Subset.refl _
  refine ⟨?_, ?_, ?_, ?_⟩
  · intro i hi j hj hij u hu v hv p hup hvp
    rw [hafter i hi u hu] at hup
    rw [hafter j hj v hv] at hvp
    refine shared_of_lookup_eq ?_ hup hvp
    intro w hw w' hw'
    exact faultWindows_isolated hi hj hij w (hsub i hw) w' (hsub j hw')
  · intro i hi v hv p hp
    rw [hbefore i hi v hv] at hp
    rw [hafter i hi v hv]
    rcases hwindows with rfl | rfl
    · exact hp
    · rw [lookup_faultWindows, if_neg, hp]
      rintro ⟨-, hpage⟩
      rw [lookup_additional hpage] at hp
      cases hp
  · intro i hi v hv p hnone hp
    rw [hbefore i hi v hv] at hnone
    rw [hafter i hi v hv] at hp
    rcases hwindows with rfl | rfl
    · rw [hnone] at hp
      cases hp
    · rw [lookup_faultWindows, hnone] at hp
      split_ifs at hp with hpage
      exact ⟨hpage.1, hpage.2.1, hpage.2.2, (Option.some.inj hp).symm⟩
  · intro sp cr2 hout
    obtain ⟨o, hok', -, hmem⟩ := handler_outside (L := L) (m := m') sp hout
    refine ⟨o, hok', ?_⟩
    intro T _ k _
    rw [hmem]

/-- A handled fault from any reachable state: the page ends up in task 0 and in no other task. -/
theorem handler_walk {L : TableLayout shipped} {m : Mem} {a t : Nat} (sp : Nat → Nat)
    (h : TablesMapped L m) (ht : t < nTasks) (ha : 0x300000000 ≤ a ∧ a < 0x300001000) :
    ∃ o, pageFaultHandlerInternal L m sp a = .ok o ∧ o.returns = true ∧
      walk o.mem (L.addr (.PML4s t)) a =
        if t = 0 then some (0x101000000 + (a - 0x300000000)) else none := by
  obtain ⟨o, hok, hret, hrep⟩ := handler_inside_mapped sp h ha
  refine ⟨o, hok, hret, ?_⟩
  rw [walk_eq_translate hrep ht, translate_faultForest ht (by omega),
    lookup_faultWindows, lookup_additional ha]
  by_cases h0 : t = 0
  · rw [if_pos ⟨h0, ha⟩, if_pos h0]
  · rw [if_neg (fun h => h0 h.1), if_neg h0]

/-- Isolation after the first fault on the additional page, with packed tables. -/
theorem isolation_packed :
    ∃ s m', initVirtualMemory packedLayout (fun _ => 0) 0 = .ok s ∧
      FaultSteps packedLayout s.mem m' ∧
      walk m' (s.taskCr3s 0) 0x300000000 = some 0x101000000 ∧
      ∀ u < 2 ^ 48, ∀ v < 2 ^ 48, ∀ p, walk m' (s.taskCr3s 0) u = some p →
        walk m' (s.taskCr3s 1) v = some p → SharedPhys p := by
  have hzero := zeroedTables_zero packedLayout
  obtain ⟨s, hok, hall⟩ := isolation_survives_demand_mapping packedLayout (fun _ => 0) 0 hzero
  obtain ⟨s', hok', hrep, hroots⟩ := initVirtualMemory_windows hzero 0
  obtain rfl : s = s' := Except.ok.inj (hok.symm.trans hok')
  obtain ⟨o, hrun, -, hwalk⟩ := handler_walk (a := 0x300000000) (t := 0) (fun _ => 0)
    (Or.inl hrep) (by decide) (by decide)
  have hsteps : FaultSteps packedLayout s.mem o.mem :=
    Relation.ReflTransGen.single (FaultStep.fault hrun)
  refine ⟨s, o.mem, hok, hsteps, ?_, ?_⟩
  · rw [hroots 0 (by decide), hwalk]
    rfl
  · exact (hall o.mem hsteps).1 0 (by decide) 1 (by decide) (by decide)

/-- **Who makes progress.** In every reachable state the handler returns from a fault on the additional
    page, and the faulting task can then read the page exactly when it is task 0: the handler patches
    `PDPs[0]` whoever faulted. -/
theorem demand_mapping_progress (L : TableLayout shipped) (m : Mem) (cr3 : Nat)
    (hzero : ZeroedTables L m) :
    ∃ s, initVirtualMemory L m cr3 = .ok s ∧ ∀ m', FaultSteps L s.mem m' →
      ∀ t < nTasks, ∀ a, 0x300000000 ≤ a → a < 0x300001000 →
        walk m' (s.taskCr3s t) a = none → ∀ sp,
          ∃ o, pageFaultHandlerInternal L m' sp a = .ok o ∧ o.returns = true ∧
            (walk o.mem (s.taskCr3s t) a = some (0x101000000 + (a - 0x300000000)) ↔ t = 0) := by
  obtain ⟨s, hok, hrep, hroots⟩ := initVirtualMemory_windows hzero cr3
  refine ⟨s, hok, ?_⟩
  intro m' hrun t ht a hlo hhi _ sp
  have hmapped := tablesMapped_run hrun (Or.inl hrep)
  obtain ⟨o, hok', hret, hwalk⟩ := handler_walk sp hmapped ht ⟨hlo, hhi⟩
  refine ⟨o, hok', hret, ?_⟩
  rw [hroots t ht, hwalk]
  by_cases h0 : t = 0 <;> simp [h0]

/-- Task 0 gets the page on its first fault, with packed tables. -/
theorem demand_mapping_task0 :
    ∃ s o, initVirtualMemory packedLayout (fun _ => 0) 0 = .ok s ∧
      walk s.mem (s.taskCr3s 0) 0x300000000 = none ∧
      pageFaultHandlerInternal packedLayout s.mem (fun _ => 0) 0x300000000 = .ok o ∧
      walk o.mem (s.taskCr3s 0) 0x300000000 = some 0x101000000 := by
  have hzero := zeroedTables_zero packedLayout
  obtain ⟨s, hok, hall⟩ := demand_mapping_progress packedLayout (fun _ => 0) 0 hzero
  obtain ⟨s', hok', hrep, hroots⟩ := initVirtualMemory_windows hzero 0
  obtain rfl : s = s' := Except.ok.inj (hok.symm.trans hok')
  have hnone : walk s.mem (s.taskCr3s 0) 0x300000000 = none := by
    rw [hroots 0 (by decide), walk_eq_lookup hrep (by decide) (by decide),
      lookup_additional (by decide)]
  obtain ⟨o, hrun, -, hwalk⟩ := hall s.mem Relation.ReflTransGen.refl 0 (by decide) 0x300000000
    (by decide) (by decide) hnone (fun _ => 0)
  exact ⟨s, o, hok, hnone, hrun, hwalk.mpr rfl⟩

/-- Task 1 faults on the page, the handler returns, and the page is still not present: the instruction
    faults again for ever. -/
theorem demand_mapping_task1_stuck :
    ∃ s o, initVirtualMemory packedLayout (fun _ => 0) 0 = .ok s ∧
      FaultSteps packedLayout s.mem s.mem ∧ 1 < nTasks ∧
      walk s.mem (s.taskCr3s 1) 0x300000000 = none ∧
      pageFaultHandlerInternal packedLayout s.mem (fun _ => 0) 0x300000000 = .ok o ∧
      o.returns = true ∧ walk o.mem (s.taskCr3s 1) 0x300000000 = none := by
  obtain ⟨s, hok, hrep, hroots⟩ :=
    initVirtualMemory_windows (zeroedTables_zero packedLayout) 0
  obtain ⟨o, hrun, hret, hwalk⟩ := handler_walk (a := 0x300000000) (t := 1) (fun _ => 0)
    (Or.inl hrep) (by decide) (by decide)
  refine ⟨s, o, hok, Relation.ReflTransGen.refl, by decide, ?_, hrun, hret, ?_⟩
  · rw [hroots 1 (by decide), walk_eq_lookup hrep (by decide) (by decide),
      lookup_additional (by decide)]
  · rw [hroots 1 (by decide), hwalk]
    rfl

end Memory
end SysproKernel

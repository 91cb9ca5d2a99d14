import SysproKernel.Kernel.Code

/-!
# `Kernel.Finish` — what a handler does from a point on

`Finishes` is the rest of a handler: its steps to the end of the stub, and `iretq`. One equivalence for
each kind of step turns it into the big steps of `Lib.X86.run`, so that the specifications of the stubs
apply. One rule for each kind of step leads what holds of every way to the end (`Ends`, `Unstuck`) back
from the end (`Backward`).

`system_masks`: from its entry to its end a handler runs with interrupts disabled. `alive_mapped`: where a
handler can go on or leave, its next access is mapped.
-/

namespace SysproKernel
namespace Kernel

open Lib.ByteMem Lib.X86 Lib.Handlers Memory Sched Interrupt

variable {L : TableLayout shipped} {V : SchedVars L} {progs : Nat → Program} {depth : Nat} {h : Handler}
  {p p' : Point}
  {s s' s₁ : Machine} {w : List Int8} {i : Instr} {is js : List Instr} {addr : Nat}

/-! ## The interrupt flag -/

theorem push_rflags {v : UInt64} (hpush : push translate v s = some s') :
    s'.cpu.rflags = s.cpu.rflags := by
  obtain ⟨m, -, hs⟩ := Option.bind_eq_some_iff.mp hpush
  rw [← Option.some.inj hs]
  rfl

theorem pop_rflags {v : UInt64} (hpop : pop translate s = some (v, s')) :
    s'.cpu.rflags = s.cpu.rflags := by
  obtain ⟨n, -, hs⟩ := Option.bind_eq_some_iff.mp hpop
  cases hs
  rfl

/-- The processor masks interrupts when it enters a handler. -/
theorem interrupt_disables (hint : interrupt translate s = some s') : ¬ Enabled s' := by
  obtain ⟨s₁, -, hs⟩ := Option.bind_eq_some_iff.mp hint
  rw [← Option.some.inj hs]
  have hmask : ~~~gateFlags &&& interruptFlag = 0 := by decide
  show ¬ (s.cpu.rflags &&& ~~~gateFlags) &&& interruptFlag ≠ 0
  rw [UInt64.and_assoc, hmask, UInt64.and_zero, ne_eq, not_not]

/-- A bit that is set without the interrupt flag. -/
theorem or_interruptFlag (a : UInt64) {v : UInt64} (b : Bool) (hv : v &&& interruptFlag = 0) :
    (a ||| if b then v else 0) &&& interruptFlag = a &&& interruptFlag := by
  have hdistrib : ∀ c, (a ||| c) &&& interruptFlag = a &&& interruptFlag ||| c &&& interruptFlag := by
    intro c
    apply UInt64.toBitVec_inj.mp
    ext i hi
    simp [Bool.and_or_distrib_right]
  rw [hdistrib]
  cases b
  · exact (congrArg _ UInt64.zero_and).trans UInt64.or_zero
  · exact (congrArg _ hv).trans UInt64.or_zero

/-- `add` leaves the interrupt flag alone. -/
theorem addFlags_interruptFlag (flags a b : UInt64) :
    addFlags flags a b &&& interruptFlag = flags &&& interruptFlag := by
  have hkeep : ~~~(0x8D5 : UInt64) &&& interruptFlag = interruptFlag := by decide
  unfold addFlags
  rw [or_interruptFlag _ _ (by decide), or_interruptFlag _ _ (by decide),
    or_interruptFlag _ _ (by decide), or_interruptFlag _ _ (by decide),
    or_interruptFlag _ _ (by decide), or_interruptFlag _ _ (by decide), UInt64.and_assoc, hkeep]

/-- No instruction of a stub but `iretq` enables interrupts. -/
theorem exec_interruptFlag (hi : i ≠ .iretq) (hexec : exec translate (fun _ => none) s i = some s') :
    s'.cpu.rflags &&& interruptFlag = s.cpu.rflags &&& interruptFlag := by
  cases i with
  | push r => rw [push_rflags hexec]
  | pop r =>
      obtain ⟨⟨v, s₁⟩, hpop, hs⟩ := Option.bind_eq_some_iff.mp hexec
      have hflags := pop_rflags hpop
      rw [← Option.some.inj hs, ← hflags]
      rfl
  | mov src dst =>
      rw [← Option.some.inj hexec]
      rfl
  | load disp base dst =>
      obtain ⟨n, -, hs⟩ := Option.bind_eq_some_iff.mp hexec
      rw [← Option.some.inj hs]
      rfl
  | movCr3 src =>
      rw [← Option.some.inj hexec]
  | add imm dst =>
      rw [← Option.some.inj hexec]
      exact addFlags_interruptFlag ..
  | call => cases hexec
  | iretq => exact absurd rfl hi

/-- **From entry to exit interrupts are masked.** -/
theorem system_masks (V : SchedVars L) (progs : Nat → Program) (depth : Nat) :
    Masks (system V progs depth) where
  enter := by
    rintro e s p s' ⟨-, -, henter⟩
    cases henter with
    | timer _ _ hint => exact interrupt_disables hint
    | syscall _ _ hint => exact interrupt_disables hint
    | pageFault error _ _ _ _ hint =>
        obtain ⟨s₁, hint, hpush⟩ := Option.bind_eq_some_iff.mp hint
        have hoff := interrupt_disables hint
        show ¬ s'.cpu.rflags &&& interruptFlag ≠ 0
        rwa [push_rflags hpush]
  step := by
    intro p s w p' s' hstep hoff
    cases hstep with
    | instr hi hexec =>
        show ¬ s'.cpu.rflags &&& interruptFlag ≠ 0
        rwa [exec_interruptFlag hi hexec]
    | @ret h =>
        show ¬ h.noise.rflags &&& interruptFlag ≠ 0
        rw [h.quiet, ne_eq, not_not]
    | _ => exact hoff

/-! ## The rest of a handler -/

/-- From a point of a handler to the program it interrupted. -/
def Finishes (V : SchedVars L) (progs : Nat → Program) (depth : Nat) (p : Point) (s : Machine)
    (w : List Int8) (s' : Machine) : Prop :=
  ∃ p' s₁, Steps (system V progs depth) p s w p' s₁ ∧ Leaves p' s₁ s'

theorem finishes_iff : Finishes V progs depth p s w s' ↔ (w = [] ∧ Leaves p s s') ∨
    ∃ w₁ p₁ s₁ w₂, Step V p s w₁ p₁ s₁ ∧ Finishes V progs depth p₁ s₁ w₂ s' ∧ w = w₁ ++ w₂ := by
  constructor
  · rintro ⟨p', s₁, hsteps, hleave⟩
    cases hsteps with
    | refl => exact .inl ⟨rfl, hleave⟩
    | head hstep hrest => exact .inr ⟨_, _, _, _, hstep, ⟨_, _, hrest, hleave⟩, rfl⟩
  · rintro (⟨rfl, hleave⟩ | ⟨w₁, p₁, s₁, w₂, hstep, ⟨p', s₂, hrest, hleave⟩, rfl⟩)
    · exact ⟨p, s, .refl, hleave⟩
    · exact ⟨p', s₂, .head hstep hrest, hleave⟩

theorem handles_iff {e : Cause} : Handles (system V progs depth) e s w s' ↔
    Wants L progs e s ∧ Behaves depth e s ∧
      ∃ p s₁, Enter V depth e s p s₁ ∧ Finishes V progs depth p s₁ w s' := by
  constructor
  · rintro ⟨p, s₁, p', s₂, ⟨hwants, hbehaves, henter⟩, hsteps, hleave⟩
    exact ⟨hwants, hbehaves, p, s₁, henter, p', s₂, hsteps, hleave⟩
  · rintro ⟨hwants, hbehaves, p, s₁, henter, p', s₂, hsteps, hleave⟩
    exact ⟨p, s₁, p', s₂, ⟨hwants, hbehaves, henter⟩, hsteps, hleave⟩

theorem finishes_of_ends (hends : Ends (system V progs depth) p s) :
    ∃ w s', Finishes V progs depth p s w s' := by
  obtain ⟨w, p', s₁, s', hsteps, hleave⟩ := hends.leaves
  exact ⟨w, s', p', s₁, hsteps, hleave⟩

/-- The instructions a stub executes by itself. -/
def Plain (is : List Instr) : Prop := Instr.call ∉ is ∧ Instr.iretq ∉ is

instance (is : List Instr) : Decidable (Plain is) := inferInstanceAs (Decidable (_ ∧ _))

theorem finishes_instr (hcall : i ≠ .call) (hiretq : i ≠ .iretq) :
    Finishes V progs depth (.stub h (i :: is)) s w s' ↔
      ∃ s₁, exec translate (fun _ => none) s i = some s₁ ∧ Finishes V progs depth (.stub h is) s₁ w s' := by
  rw [finishes_iff]
  constructor
  · rintro (⟨-, h', hp, -⟩ | ⟨w₁, p₁, s₁, w₂, hstep, hrest, rfl⟩)
    · cases hp
      exact absurd rfl hiretq
    · cases hstep with
      | instr _ hexec => exact ⟨s₁, hexec, hrest⟩
      | call => exact absurd rfl hcall
  · rintro ⟨s₁, hexec, hrest⟩
    exact .inr ⟨[], _, s₁, w, .instr hiretq hexec, hrest, rfl⟩

/-- Instructions of a stub run as in one go. -/
theorem finishes_run (callee : Machine → Option Machine) (hplain : Plain is) :
    Finishes V progs depth (.stub h (is ++ js)) s w s' ↔
      ∃ s₁, run translate callee is s = some s₁ ∧ Finishes V progs depth (.stub h js) s₁ w s' := by
  induction is generalizing s with
  | nil =>
      rw [List.nil_append, run]
      simp
  | cons i is ih =>
      obtain ⟨hcall, hiretq⟩ := hplain
      rw [List.mem_cons, not_or] at hcall hiretq
      -- only `call` asks what the C function does
      have hsame : exec translate (fun _ => none) s i = exec translate callee s i := by
        cases i <;> first | rfl | exact absurd rfl hcall.1
      rw [List.cons_append, finishes_instr (Ne.symm hcall.1) (Ne.symm hiretq.1), run, hsame]
      cases hexec : exec translate callee s i with
      | none => simp
      | some s₁ =>
          rw [Option.bind_some, ← ih ⟨hcall.2, hiretq.2⟩]
          simp

theorem finishes_iretq : Finishes V progs depth (.stub h [.iretq]) s w s' ↔
    w = [] ∧ iretq translate s = some s' := by
  rw [finishes_iff]
  constructor
  · rintro (⟨rfl, h', -, hiretq⟩ | ⟨w₁, p₁, s₁, w₂, hstep, -, -⟩)
    · exact ⟨rfl, hiretq⟩
    · cases hstep with
      | instr hi _ => exact absurd rfl hi
  · rintro ⟨rfl, hiretq⟩
    exact .inl ⟨rfl, h, rfl, hiretq⟩

/-- The end of a stub. -/
theorem finishes_end (callee : Machine → Option Machine) (hplain : Plain is) :
    Finishes V progs depth (.stub h (is ++ [.iretq])) s w s' ↔
      w = [] ∧ run translate callee (is ++ [.iretq]) s = some s' := by
  rw [finishes_run callee hplain, run_append]
  have hlast : ∀ s₁, run translate callee [.iretq] s₁ = iretq translate s₁ :=
    fun s₁ => Option.bind_fun_some (iretq translate s₁)
  cases run translate callee is s with
  | none => simp
  | some s₁ =>
      rw [Option.bind_some, hlast]
      simp only [Option.some.injEq, exists_eq_left', finishes_iretq]

theorem finishes_call : Finishes V progs depth (.stub h (.call :: is)) s w s' ↔
    ∃ m, vwrite translate s.mem s.cpu.cr3.toNat ((s.cpu.gpr .rsp).toNat - h.noise.frame.length)
        h.noise.frame s.mem = some m ∧
      Finishes V progs depth (.code h (h.callee { s with mem := m }) is) { s with mem := m } w s' := by
  rw [finishes_iff]
  constructor
  · rintro (⟨-, h', hp, -⟩ | ⟨w₁, p₁, s₁, w₂, hstep, hrest, rfl⟩)
    · cases hp
    · cases hstep with
      | instr _ hexec => cases hexec
      | call hframe => exact ⟨_, hframe, hrest⟩
  · rintro ⟨m, hframe, hrest⟩
    exact .inr ⟨[], _, _, w, .call hframe, hrest, rfl⟩

/-! ## The C function -/

variable {next : Code} {text : List Int8} {f : Nat → Mem → Option (UInt64 × Mem)}

theorem not_leaves_code {c : Code} : ¬ Leaves (.code h c is) s s' := by
  rintro ⟨h', hp, -⟩
  cases hp

theorem finishes_ret : Finishes V progs depth (.code h (.ret f) is) s w s' ↔
    ∃ res m, f s.cpu.cr3.toNat s.mem = some (res, m) ∧
      Finishes V progs depth (.stub h is) (returned h.noise res m s) w s' := by
  rw [finishes_iff]
  constructor
  · rintro (⟨-, hleave⟩ | ⟨w₁, p₁, s₁, w₂, hstep, hrest, rfl⟩)
    · exact absurd hleave not_leaves_code
    · cases hstep with
      | ret hf => exact ⟨_, _, hf, hrest⟩
  · rintro ⟨res, m, hf, hrest⟩
    exact .inr ⟨[], _, _, w, .ret hf, hrest, rfl⟩

/-- A function that spins never comes back. -/
theorem not_finishes_spin : ¬ Finishes V progs depth (.code h .spin is) s w s' := by
  rintro ⟨p', s₁, hsteps, hleave⟩
  -- every step leads back to the same point, which is not the end of a stub
  generalize hp : Point.code h .spin is = p at hsteps
  induction hsteps with
  | refl =>
      subst hp
      exact not_leaves_code hleave
  | head hstep _ ih =>
      subst hp
      cases hstep
      exact ih hleave rfl

/-- The memory is as it was, except for the console's. -/
def Prints (V : SchedVars L) (m m' : Mem) : Prop := ∀ x, x ∉ consoleBytes V → m' x = m x

theorem Prints.trans {m m₁ m₂ : Mem} (h : Prints V m m₁) (h' : Prints V m₁ m₂) : Prints V m m₂ :=
  fun x hx => (h' x hx).trans (h x hx)

/-- A text is printed character by character. -/
theorem finishes_print (hfin : Finishes V progs depth (.code h (.print text next) is) s w s') :
    ∃ m w', w = text ++ w' ∧ Prints V s.mem m ∧
      Finishes V progs depth (.code h next is) { s with mem := m } w' s' := by
  induction text generalizing s w with
  | nil =>
      rcases finishes_iff.mp hfin with ⟨-, hleave⟩ | ⟨w₁, p₁, s₁, w₂, hstep, hrest, rfl⟩
      · exact absurd hleave not_leaves_code
      · cases hstep with
        | printed => exact ⟨s.mem, w₂, rfl, fun _ _ => rfl, hrest⟩
  | cons c text ih =>
      rcases finishes_iff.mp hfin with ⟨-, hleave⟩ | ⟨w₁, p₁, s₁, w₂, hstep, hrest, rfl⟩
      · exact absurd hleave not_leaves_code
      · cases hstep with
        | print hm =>
            obtain ⟨m, w', rfl, hprints, hrest⟩ := ih hrest
            exact ⟨m, w', rfl, Prints.trans hm hprints, hrest⟩

/-- The string at virtual address `str`, whatever printing does to the console's memory. -/
structure StringAt (V : SchedVars L) (s : Machine) (str : Nat) (text : List Int8) : Prop where
  chars : ∀ m, Prints V s.mem m → ∀ j (hj : j < text.length),
    charAt { s with mem := m } (str + j) = some text[j]
  nonzero : ∀ c ∈ text, c ≠ 0
  nul : ∀ m, Prints V s.mem m → charAt { s with mem := m } (str + text.length) = some 0

theorem StringAt.tail {str : Nat} {c : Int8} {m : Mem} (hstr : StringAt V s str (c :: text))
    (hm : Prints V s.mem m) : StringAt V { s with mem := m } (str + 1) text where
  chars m' hm' j hj := by
    have hchar := hstr.chars m' (hm.trans hm') (j + 1) (Nat.succ_lt_succ hj)
    rw [List.getElem_cons_succ] at hchar
    rw [Nat.add_assoc, Nat.add_comm 1 j]
    exact hchar
  nonzero d hd := hstr.nonzero d (List.mem_cons_of_mem c hd)
  nul m' hm' := by
    have hnul := hstr.nul m' (hm.trans hm')
    rw [Nat.add_assoc, Nat.add_comm 1 text.length]
    exact hnul

/-- `puts` prints the string it is given. -/
theorem finishes_puts {str : Nat} (hstr : StringAt V s str text)
    (hfin : Finishes V progs depth (.code h (.puts str next) is) s w s') :
    ∃ m w', w = text ++ w' ∧ Prints V s.mem m ∧
      Finishes V progs depth (.code h next is) { s with mem := m } w' s' := by
  induction text generalizing s w str with
  | nil =>
      have hend : charAt s str = some 0 := hstr.nul s.mem (fun _ _ => rfl)
      rcases finishes_iff.mp hfin with ⟨-, hleave⟩ | ⟨w₁, p₁, s₁, w₂, hstep, hrest, rfl⟩
      · exact absurd hleave not_leaves_code
      · cases hstep with
        | putc hc hne =>
            rw [hend, Option.some.injEq] at hc
            exact absurd hc.symm hne
        | nul => exact ⟨s.mem, w₂, rfl, fun _ _ => rfl, hrest⟩
  | cons c text ih =>
      have hchar : charAt s str = some c := hstr.chars s.mem (fun _ _ => rfl) 0 (Nat.succ_pos _)
      rcases finishes_iff.mp hfin with ⟨-, hleave⟩ | ⟨w₁, p₁, s₁, w₂, hstep, hrest, rfl⟩
      · exact absurd hleave not_leaves_code
      · cases hstep with
        | @putc _ _ _ _ _ d m hd hne hm =>
            -- printing leaves the rest of the string as it is
            rw [hchar, Option.some.injEq] at hd
            subst hd
            obtain ⟨m', w', rfl, hprints, hrest⟩ := ih (hstr.tail hm) hrest
            exact ⟨m', w', rfl, Prints.trans hm hprints, hrest⟩
        | nul hzero =>
            rw [hchar, Option.some.injEq] at hzero
            exact absurd hzero (hstr.nonzero c List.mem_cons_self)

/-! ## From the end backwards -/

section Backwards

variable {P : Point → Machine → Prop}

theorem backward_instr (hP : Backward (system V progs depth) P) (hcall : i ≠ .call) (hiretq : i ≠ .iretq)
    (hexec : exec translate (fun _ => none) s i = some s₁) (hrest : P (.stub h is) s₁) :
    P (.stub h (i :: is)) s := by
  refine hP _ _ ⟨[], _, s₁, .instr hiretq hexec⟩ (fun w p' s' hstep => ?_)
  cases hstep with
  | instr _ hexec' =>
      obtain rfl : s₁ = s' := Option.some.inj (hexec.symm.trans hexec')
      exact hrest
  | call => exact absurd rfl hcall

theorem backward_run (hP : Backward (system V progs depth) P) (callee : Machine → Option Machine)
    (hplain : Plain is) (hrun : run translate callee is s = some s₁) (hrest : P (.stub h js) s₁) :
    P (.stub h (is ++ js)) s := by
  induction is generalizing s with
  | nil =>
      obtain rfl : s = s₁ := Option.some.inj hrun
      exact hrest
  | cons i is ih =>
      obtain ⟨hcall, hiretq⟩ := hplain
      rw [List.mem_cons, not_or] at hcall hiretq
      have hsame : exec translate (fun _ => none) s i = exec translate callee s i := by
        cases i <;> first | rfl | exact absurd rfl hcall.1
      obtain ⟨s₂, hexec, hrun⟩ := Option.bind_eq_some_iff.mp hrun
      exact backward_instr hP (Ne.symm hcall.1) (Ne.symm hiretq.1) (hsame.trans hexec)
        (ih ⟨hcall.2, hiretq.2⟩ hrun)

theorem backward_call (hP : Backward (system V progs depth) P) {m : Mem}
    (hframe : vwrite translate s.mem s.cpu.cr3.toNat ((s.cpu.gpr .rsp).toNat - h.noise.frame.length)
      h.noise.frame s.mem = some m)
    (hrest : P (.code h (h.callee { s with mem := m }) is) { s with mem := m }) :
    P (.stub h (.call :: is)) s := by
  refine hP _ _ ⟨[], _, _, .call hframe⟩ (fun w p' s' hstep => ?_)
  cases hstep with
  | instr _ hexec => cases hexec
  | call hframe' =>
      obtain rfl := Option.some.inj (hframe.symm.trans hframe')
      exact hrest

theorem backward_ret (hP : Backward (system V progs depth) P) {res : UInt64} {m : Mem}
    (hf : f s.cpu.cr3.toNat s.mem = some (res, m))
    (hrest : P (.stub h is) (returned h.noise res m s)) : P (.code h (.ret f) is) s := by
  refine hP _ _ ⟨[], _, _, .ret hf⟩ (fun w p' s' hstep => ?_)
  cases hstep with
  | ret hf' =>
      cases hf.symm.trans hf'
      exact hrest

theorem backward_print (hP : Backward (system V progs depth) P)
    (hrest : ∀ m, Prints V s.mem m → P (.code h next is) { s with mem := m }) :
    P (.code h (.print text next) is) s := by
  induction text generalizing s with
  | nil =>
      refine hP _ _ ⟨[], _, _, .printed⟩ (fun w p' s' hstep => ?_)
      cases hstep with
      | printed => exact hrest s.mem (fun _ _ => rfl)
  | cons c text ih =>
      refine hP _ _ ⟨[c], _, s, .print (fun _ _ => rfl)⟩ (fun w p' s' hstep => ?_)
      cases hstep with
      | print hm => exact ih (fun m hm' => hrest m (Prints.trans hm hm'))

theorem backward_puts (hP : Backward (system V progs depth) P) {str : Nat}
    (hstr : StringAt V s str text)
    (hrest : ∀ m, Prints V s.mem m → P (.code h next is) { s with mem := m }) :
    P (.code h (.puts str next) is) s := by
  induction text generalizing s str with
  | nil =>
      have hend : charAt s str = some 0 := hstr.nul s.mem (fun _ _ => rfl)
      refine hP _ _ ⟨[], _, _, .nul hend⟩ (fun w p' s' hstep => ?_)
      cases hstep with
      | putc hc hne =>
          rw [hend, Option.some.injEq] at hc
          exact absurd hc.symm hne
      | nul => exact hrest s.mem (fun _ _ => rfl)
  | cons c text ih =>
      have hchar : charAt s str = some c := hstr.chars s.mem (fun _ _ => rfl) 0 (Nat.succ_pos _)
      have hnonzero : c ≠ 0 := hstr.nonzero c List.mem_cons_self
      refine hP _ _ ⟨[c], _, s, .putc hchar hnonzero (fun _ _ => rfl)⟩ (fun w p' s' hstep => ?_)
      cases hstep with
      | putc _ _ hm => exact ih (hstr.tail hm) (fun m hm' => hrest m (Prints.trans hm hm'))
      | nul hzero =>
          rw [hchar, Option.some.injEq] at hzero
          exact absurd hzero hnonzero

/-- The end of a stub is the end of the handler. -/
theorem ends_end (callee : Machine → Option Machine) (hplain : Plain is)
    (hrun : run translate callee (is ++ [.iretq]) s = some s') :
    Ends (system V progs depth) (.stub h (is ++ [.iretq])) s := by
  rw [run_append] at hrun
  obtain ⟨s₁, hrun, hend⟩ := Option.bind_eq_some_iff.mp hrun
  obtain ⟨s₂, hiretq, -⟩ := Option.bind_eq_some_iff.mp hend
  refine backward_run Ends.backward callee hplain hrun (.leave ⟨h, rfl, hiretq⟩ (fun w p' s' hstep => ?_))
  cases hstep with
  | instr hne _ => exact absurd rfl hne

/-- Spinning is not being stuck. -/
theorem unstuck_spin : Unstuck (system V progs depth) (.code h .spin is) s := by
  intro w p' s' hsteps
  generalize hp : Point.code h .spin is = p at hsteps
  induction hsteps with
  | refl =>
      subst hp
      exact .inl ⟨_, _, _, .spin⟩
  | head hstep _ ih =>
      subst hp
      cases hstep
      exact ih rfl

end Backwards

/-! ## Accesses -/

theorem pop_mapped {v : UInt64} (hpop : pop translate s = some (v, s')) :
    (∀ addr ∈ wordAt (s.cpu.gpr .rsp), translate s.mem s.cpu.cr3.toNat addr ≠ none)
      ∧ s'.mem = s.mem ∧ s'.cpu.cr3 = s.cpu.cr3 ∧ s'.cpu.gpr .rsp = s.cpu.gpr .rsp + 8 := by
  obtain ⟨n, hload, hs⟩ := Option.bind_eq_some_iff.mp hpop
  cases hs
  exact ⟨fun addr h => translated_of_vload hload h.1 h.2, rfl, rfl, Cpu.set_gpr_self ..⟩

/-- One more word from the stack. -/
theorem words_mapped {n : Nat} {v : UInt64} (hpop : pop translate s = some (v, s₁))
    (hrest : ∀ addr ∈ wordsAt n (s₁.cpu.gpr .rsp), translate s₁.mem s₁.cpu.cr3.toNat addr ≠ none) :
    ∀ addr ∈ wordsAt (n + 1) (s.cpu.gpr .rsp), translate s.mem s.cpu.cr3.toNat addr ≠ none := by
  obtain ⟨hword, hmem, hcr3, hrsp⟩ := pop_mapped hpop
  rw [hmem, hcr3, hrsp] at hrest
  rintro addr (h | h)
  · exact hword addr h
  · exact hrest addr h

theorem iretq_mapped (hiretq : iretq translate s = some s') :
    ∀ addr ∈ wordsAt 5 (s.cpu.gpr .rsp), translate s.mem s.cpu.cr3.toNat addr ≠ none := by
  obtain ⟨⟨_, s₁⟩, hpop₁, hiretq⟩ := Option.bind_eq_some_iff.mp hiretq
  obtain ⟨⟨_, s₂⟩, hpop₂, hiretq⟩ := Option.bind_eq_some_iff.mp hiretq
  obtain ⟨⟨_, s₃⟩, hpop₃, hiretq⟩ := Option.bind_eq_some_iff.mp hiretq
  obtain ⟨⟨_, s₄⟩, hpop₄, hiretq⟩ := Option.bind_eq_some_iff.mp hiretq
  obtain ⟨⟨_, s₅⟩, hpop₅, -⟩ := Option.bind_eq_some_iff.mp hiretq
  refine words_mapped hpop₁ (words_mapped hpop₂ (words_mapped hpop₃ (words_mapped hpop₄
    (words_mapped hpop₅ (n := 0) ?_))))
  exact fun _ h => absurd h (Set.notMem_empty _)

/-- An instruction that is executed accesses what is mapped. -/
theorem exec_mapped (hi : i ≠ .iretq) (hexec : exec translate (fun _ => none) s i = some s') :
    ∀ addr ∈ accesses s (.stub h (i :: is)), translate s.mem s.cpu.cr3.toNat addr ≠ none := by
  cases i with
  | push r =>
      obtain ⟨m, hstore, -⟩ := Option.bind_eq_some_iff.mp hexec
      intro addr haddr
      obtain ⟨hlo, hhi⟩ : addr ∈ wordAt (s.cpu.gpr .rsp - 8) := haddr
      exact translated_of_vwrite hstore hlo (by rwa [leBytes_length])
  | pop r =>
      obtain ⟨⟨v, s₁⟩, hpop, -⟩ := Option.bind_eq_some_iff.mp hexec
      exact (pop_mapped hpop).1
  | load disp base dst =>
      obtain ⟨n, hload, -⟩ := Option.bind_eq_some_iff.mp hexec
      intro addr haddr
      obtain ⟨hlo, hhi⟩ : addr ∈ wordAt (s.cpu.gpr base + disp) := haddr
      exact translated_of_vload hload hlo hhi
  | mov src dst => exact fun _ h => absurd h (Set.notMem_empty _)
  | movCr3 src => exact fun _ h => absurd h (Set.notMem_empty _)
  | add imm dst => exact fun _ h => absurd h (Set.notMem_empty _)
  | call => cases hexec
  | iretq => exact absurd rfl hi

theorem charAt_mapped {v : Nat} {c : Int8} (hchar : charAt s v = some c) :
    translate s.mem s.cpu.cr3.toNat v ≠ none := by
  intro hnone
  rw [charAt, hnone] at hchar
  cases hchar

/-- **A handler that can go on does not fault.** -/
theorem alive_mapped (halive : Alive (system V progs depth) p s) : ¬ Faults s p addr := by
  intro hfaults
  rcases halive with ⟨w, p', s', hstep⟩ | ⟨s', h, rfl, hiretq⟩
  · cases hfaults with
    | access haddr hnone =>
        cases hstep with
        | instr hi hexec => exact exec_mapped hi hexec addr haddr hnone
        | call hframe => exact translated_of_vwrite hframe haddr.1 haddr.2 hnone
        | putc hchar _ _ =>
            obtain rfl : addr = _ := haddr
            exact charAt_mapped hchar hnone
        | nul hchar =>
            obtain rfl : addr = _ := haddr
            exact charAt_mapped hchar hnone
        | print _ => exact haddr
        | printed => exact haddr
        | ret _ => exact haddr
        | spin => exact haddr
    | ret hf =>
        cases hstep with
        | ret hf' => cases hf.symm.trans hf'
  · cases hfaults with
    | access haddr hnone => exact iretq_mapped hiretq addr haddr hnone

end Kernel
end SysproKernel

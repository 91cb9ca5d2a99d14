import Mathlib.Data.Nat.ModEq
import Mathlib.Logic.Function.Basic
import Mathlib.Tactic.SplitIfs

/-!
# `Lib.RoundRobin` — independent sequential tasks taking turns

What a preemptive round-robin scheduler is for, with nothing said about machines. There are `N` tasks,
each with a state of its own in `σ`; one of them runs. While it runs its state moves by `Works`; when
it is switched out its state may change by `Parks` once more, and until its next turn by nothing at all.

`Run` records every switch with the state before and after it. By its invariant (`Run.inv`) a task comes
back with the state it was interrupted in `N` switches ago, parked once (`Run.resumed`), or with its
initial one (`Run.entered`).
-/

namespace Lib.RoundRobin

/-- The tasks, and the one whose turn it is. -/
structure Tasks (σ : Type) where
  task : Nat → σ
  cur : Nat

variable {σ : Type}

/-- The state of the running task. -/
def Tasks.running (a : Tasks σ) : σ := a.task a.cur

/-- The running task moves to state `x`. -/
def Tasks.work (a : Tasks σ) (x : σ) : Tasks σ := { a with task := Function.update a.task a.cur x }

/-- The running task is parked in state `x`, and the next one of the `N` tasks runs. -/
def Tasks.switch (N : Nat) (a : Tasks σ) (x : σ) : Tasks σ :=
  { task := Function.update a.task a.cur x, cur := (a.cur + 1) % N }

/-- A switch, as seen from outside. -/
structure Switch (α : Type) where
  before : α
  after : α

section Runs

variable (N : Nat) (Works Parks : σ → σ → Prop)

/-- Runs of the tasks from `init`, with the switches made so far. -/
inductive Run (init : Tasks σ) : List (Switch (Tasks σ)) → Tasks σ → Prop
  | start : Run init [] init
  | work {h : List (Switch (Tasks σ))} {a : Tasks σ} {x : σ} :
      Run init h a → Works a.running x → Run init h (a.work x)
  | switch {h : List (Switch (Tasks σ))} {a : Tasks σ} {x : σ} :
      Run init h a → Parks a.running x → Run init (h ++ [⟨a, a.switch N x⟩]) (a.switch N x)

/-- Where the state `x` a task has before its `j`-th turn (turns counted over all tasks) comes from: its
    initial state in the first round, and afterwards the state it was last interrupted in. -/
def Saved (init : Tasks σ) (h : List (Switch (Tasks σ))) (j : Nat) (x : σ) : Prop :=
  if j < N then x = init.task j
  else ∃ hj : j - N < h.length, Parks h[j - N].before.running x

variable {N Works Parks} {init a : Tasks σ} {h : List (Switch (Tasks σ))} {x : σ}

/-- Later switches do not change where a saved state comes from. -/
theorem Saved.append {j : Nat} (hs : Saved N Parks init h j x) (t : List (Switch (Tasks σ))) :
    Saved N Parks init (h ++ t) j x := by
  unfold Saved at *
  split_ifs at * with hj
  · exact hs
  · obtain ⟨hlt, hparks⟩ := hs
    refine ⟨by rw [List.length_append]; omega, ?_⟩
    rwa [List.getElem_append_left hlt]

/-- The turns before which a task keeps its state: those of the next `N - 1` switches. -/
structure Inv (N : Nat) (Parks : σ → σ → Prop) (init : Tasks σ) (h : List (Switch (Tasks σ)))
    (a : Tasks σ) : Prop where
  cur : a.cur = h.length % N
  saved : ∀ j, h.length < j → j < h.length + N → Saved N Parks init h j (a.task (j % N))

/-- Two of `N` consecutive turns belong to different tasks. -/
theorem turn_ne {n j : Nat} (hlo : n < j) (hhi : j < n + N) : j % N ≠ n % N := by
  intro heq
  obtain ⟨c, hc⟩ : N ∣ j - n := (Nat.modEq_iff_dvd' (Nat.le_of_lt hlo)).mp heq.symm
  cases c with
  | zero => omega
  | succ c =>
      rw [Nat.mul_succ] at hc
      have hle : 0 ≤ N * c := Nat.zero_le _
      omega

/-- Work of the running task keeps the invariant. -/
theorem Inv.work (hinv : Inv N Parks init h a) (x : σ) : Inv N Parks init h (a.work x) where
  cur := hinv.cur
  saved j hlo hhi := by
    have hne : j % N ≠ a.cur := hinv.cur ▸ turn_ne hlo hhi
    show Saved N Parks init h j (Function.update a.task a.cur x (j % N))
    rw [Function.update_of_ne hne]
    exact hinv.saved j hlo hhi

/-- Right after a switch every task is saved, the one about to run included. -/
theorem Inv.saved_switch (hinv : Inv N Parks init h a) (hparks : Parks a.running x) {j : Nat}
    (hlo : h.length < j) (hhi : j ≤ h.length + N) :
    Saved N Parks init (h ++ [⟨a, a.switch N x⟩]) j ((a.switch N x).task (j % N)) := by
  show Saved N Parks init _ j (Function.update a.task a.cur x (j % N))
  by_cases hlast : j = h.length + N
  · -- the task just interrupted: this very switch is the one it is saved by
    subst hlast
    have hcur : (h.length + N) % N = a.cur := by rw [Nat.add_mod_right, hinv.cur]
    rw [hcur, Function.update_self]
    unfold Saved
    rw [if_neg (by omega)]
    refine ⟨by simp, ?_⟩
    simpa using hparks
  · have hne : j % N ≠ a.cur := hinv.cur ▸ turn_ne hlo (by omega)
    rw [Function.update_of_ne hne]
    exact (hinv.saved j hlo (by omega)).append _

theorem Inv.switch (hinv : Inv N Parks init h a) (hparks : Parks a.running x) :
    Inv N Parks init (h ++ [⟨a, a.switch N x⟩]) (a.switch N x) where
  cur := by
    show (a.cur + 1) % N = _
    rw [hinv.cur, List.length_append, List.length_singleton, Nat.mod_add_mod]
  saved j hlo hhi := by
    rw [List.length_append, List.length_singleton] at hlo hhi
    exact hinv.saved_switch hparks (by omega) (by omega)

/-- The recorded switch with index `k` hands the processor from turn `k` to turn `k + 1`. -/
structure Turn (N : Nat) (Parks : σ → σ → Prop) (init : Tasks σ) (h : List (Switch (Tasks σ)))
    (k : Nat) (w : Switch (Tasks σ)) : Prop where
  before : w.before.cur = k % N
  after : w.after.cur = (k + 1) % N
  saved : Saved N Parks init h (k + 1) w.after.running

theorem Run.inv (hrun : Run N Works Parks init h a) (hinit : init.cur = 0) (hN : 0 < N) :
    Inv N Parks init h a ∧ ∀ k (hk : k < h.length), Turn N Parks init h k h[k] := by
  induction hrun with
  | start =>
      refine ⟨⟨by rw [hinit]; exact (Nat.zero_mod N).symm, ?_⟩, by simp⟩
      intro j _ hj
      have hlt : j < N := by simpa using hj
      unfold Saved
      rw [if_pos hlt, Nat.mod_eq_of_lt hlt]
  | work _ _ ih => exact ⟨ih.1.work _, ih.2⟩
  | @switch h a x _ hparks ih =>
      obtain ⟨hinv, hturns⟩ := ih
      have hinv' := hinv.switch hparks
      refine ⟨hinv', fun k hk => ?_⟩
      rw [List.length_append, List.length_singleton] at hk
      by_cases hlast : k = h.length
      · subst hlast
        rw [List.getElem_concat_length rfl]
        have hafter : (a.switch N x).cur = (h.length + 1) % N := by
          rw [hinv'.cur, List.length_append, List.length_singleton]
        refine ⟨hinv.cur, hafter, ?_⟩
        unfold Tasks.running
        rw [hafter]
        exact hinv.saved_switch hparks (Nat.lt_succ_self _) (by omega)
      · have hlt : k < h.length := by omega
        rw [List.getElem_append_left hlt]
        have hturn := hturns k hlt
        exact ⟨hturn.before, hturn.after, hturn.saved.append _⟩

/-- A run whose parked states are known better is a run all the same. -/
theorem Run.mono {Parks' : σ → σ → Prop} (hrun : Run N Works Parks' init h a)
    (hle : ∀ x y, Parks' x y → Parks x y) : Run N Works Parks init h a := by
  induction hrun with
  | start => exact .start
  | work _ hworks ih => exact .work ih hworks
  | switch _ hparks ih => exact .switch ih (hle _ _ hparks)

/-- **The tasks run in turn.** -/
theorem Run.cur_eq (hrun : Run N Works Parks init h a) (hinit : init.cur = 0) (hN : 0 < N) :
    a.cur = h.length % N :=
  (hrun.inv hinit hN).1.cur

/-- **A first turn** finds the task in its initial state. -/
theorem Run.entered (hrun : Run N Works Parks init h a) (hinit : init.cur = 0) {k : Nat}
    (hk : k < h.length) (hfirst : k + 1 < N) : h[k].after.running = init.task (k + 1) := by
  have hsaved := ((hrun.inv hinit (by omega)).2 k hk).saved
  unfold Saved at hsaved
  rwa [if_pos hfirst] at hsaved

/-- **Every later turn** finds the task as it was interrupted `N` switches ago. -/
theorem Run.resumed (hrun : Run N Works Parks init h a) (hinit : init.cur = 0) (hN : 0 < N) {k : Nat}
    (hk : k < h.length) (hlater : N ≤ k + 1) :
    ∃ hj : k + 1 - N < h.length, Parks h[k + 1 - N].before.running h[k].after.running := by
  have hsaved := ((hrun.inv hinit hN).2 k hk).saved
  unfold Saved at hsaved
  rwa [if_neg (by omega)] at hsaved

end Runs

end Lib.RoundRobin

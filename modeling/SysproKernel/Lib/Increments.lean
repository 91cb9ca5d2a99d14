import Mathlib.Algebra.Order.BigOperators.Group.Finset
import Mathlib.Data.Fintype.BigOperators
import Mathlib.Logic.Relation

/-!
# `Lib.Increments` — a shared cell that is updated without a lock

Threads that each update one cell `k` times, where an update is a load and, any time later, a store of
`inc` of the loaded value. A store overwrites whatever was stored in between, so updates are lost.

For a counter, how many can be lost is the whole result: with two threads or more and `k ≥ 2` the final
value is anything from 2 up to the number of increments, and nothing else (`final_iff`). The bounds are
invariants of a step; every value between them has a schedule (`exists_run`). A cell of another type that
counts is an image of the counter (`Run.map`, `Run.lift`).
-/

namespace Lib.Increments

variable {ι α β : Type*}

/-- A thread: the updates it has finished, and the value it has loaded for the next one. -/
structure Thread (α : Type*) where
  done : Nat
  loaded : Option α

structure State (ι α : Type*) where
  cell : α
  threads : ι → Thread α

/-- No thread has done anything yet. -/
def start (cell : α) : State ι α := { cell, threads := fun _ => ⟨0, none⟩ }

/-- Every thread is through. -/
def Finished (k : Nat) (s : State ι α) : Prop := ∀ t, s.threads t = ⟨k, none⟩

section Set

variable [DecidableEq ι]

/-- The state with another cell and another thread `t`. -/
def State.set (s : State ι α) (cell : α) (t : ι) (thread : Thread α) : State ι α :=
  { cell, threads := Function.update s.threads t thread }

variable (s : State ι α) (c : α) (t : ι) (thread : Thread α)

@[simp] theorem State.set_cell : (s.set c t thread).cell = c := rfl

@[simp] theorem State.set_self : (s.set c t thread).threads t = thread := Function.update_self ..

theorem State.set_ne {u : ι} (h : u ≠ t) : (s.set c t thread).threads u = s.threads u :=
  Function.update_of_ne h ..

theorem State.set_set (c' : α) (thread' : Thread α) :
    (s.set c t thread).set c' t thread' = s.set c' t thread' :=
  congrArg (State.mk c') (Function.update_idem ..)

variable {s t thread}

theorem State.set_same (h : s.threads t = thread) : s.set s.cell t thread = s :=
  congrArg (State.mk s.cell) (by rw [← h, Function.update_eq_self])

end Set

variable [DecidableEq ι]

/-- A thread loads the cell, or stores what becomes of the value it has loaded. -/
inductive Step (inc : α → α) (k : Nat) : State ι α → State ι α → Prop
  | load {s : State ι α} (t : ι) : (s.threads t).loaded = none → (s.threads t).done < k →
      Step inc k s (s.set s.cell t ⟨(s.threads t).done, some s.cell⟩)
  | store {s : State ι α} (t : ι) (v : α) : (s.threads t).loaded = some v →
      Step inc k s (s.set (inc v) t ⟨(s.threads t).done + 1, none⟩)

/-- The states after some steps. -/
abbrev Run (inc : α → α) (k : Nat) : State ι α → State ι α → Prop := Relation.ReflTransGen (Step inc k)

variable {inc : α → α} {k : Nat} {s s' : State ι α}

theorem step_load (inc : α → α) {t : ι} {d : Nat} (ht : s.threads t = ⟨d, none⟩) (hd : d < k) :
    Step inc k s (s.set s.cell t ⟨d, some s.cell⟩) := by
  have hstep : Step inc k s _ := .load t (by rw [ht]) (by rw [ht]; exact hd)
  rwa [ht] at hstep

theorem step_store (inc : α → α) {t : ι} {d : Nat} {v : α} (ht : s.threads t = ⟨d, some v⟩) :
    Step inc k s (s.set (inc v) t ⟨d + 1, none⟩) := by
  have hstep : Step inc k s _ := .store t v (by rw [ht])
  rwa [ht] at hstep

/-! ## Every run ends -/

/-- The steps of a thread so far. -/
def Thread.spent (thread : Thread α) : Nat := 2 * thread.done + thread.loaded.isSome.toNat

/-- No thread has more than its `k` increments, and the last of them is not begun twice. -/
def Within (k : Nat) (s : State ι α) : Prop := ∀ t, (s.threads t).spent ≤ 2 * k

theorem Step.within (h : Within k s) (hstep : Step inc k s s') : Within k s' := by
  intro u
  cases hstep with
  | load t hnone hlt =>
      by_cases hut : u = t
      · subst hut
        rw [State.set_self]
        show 2 * (s.threads u).done + 1 ≤ 2 * k
        omega
      · rw [State.set_ne _ _ _ _ hut]
        exact h u
  | store t v hv =>
      by_cases hut : u = t
      · subst hut
        have hspent : 2 * (s.threads u).done + (s.threads u).loaded.isSome.toNat ≤ 2 * k := h u
        rw [hv, Option.isSome_some, Bool.toNat_true] at hspent
        rw [State.set_self]
        show 2 * ((s.threads u).done + 1) + 0 ≤ 2 * k
        omega
      · rw [State.set_ne _ _ _ _ hut]
        exact h u

omit [DecidableEq ι] in
theorem within_start (c : α) : Within k (start c : State ι α) := fun _ => Nat.zero_le _

theorem Within.run (h : Within k s) (hrun : Run inc k s s') : Within k s' := by
  induction hrun with
  | refl => exact h
  | tail _ hstep ih => exact hstep.within ih

/-- **And it stops only when all threads are through.** -/
theorem Within.step_or_finished (h : Within k s) : Finished k s ∨ ∃ s', Step inc k s s' := by
  by_cases hfin : Finished k s
  · exact Or.inl hfin
  · right
    obtain ⟨t, ht⟩ := not_forall.mp hfin
    have hspent : 2 * (s.threads t).done + (s.threads t).loaded.isSome.toNat ≤ 2 * k := h t
    cases hloaded : (s.threads t).loaded with
    | some v => exact ⟨_, .store t v hloaded⟩
    | none =>
        have hne : (s.threads t).done ≠ k := by
          intro hdone
          apply ht
          rw [← hdone, ← hloaded]
        exact ⟨_, .load t hloaded (by omega)⟩

/-! ## Sums over the threads -/

/-- What a change of one thread does to a sum over some. -/
theorem sum_set {S : Finset ι} {t : ι} (ht : t ∈ S) (w : Thread α → Nat) (s : State ι α) (c : α)
    (thread : Thread α) :
    ∑ u ∈ S, w ((s.set c t thread).threads u) + w (s.threads t) = ∑ u ∈ S, w (s.threads u) + w thread := by
  have hsplit : ∀ f : ι → Thread α, ∑ u ∈ S, w (f u) = w (f t) + ∑ u ∈ S.erase t, w (f u) :=
    fun f => (Finset.add_sum_erase _ _ ht).symm
  have hrest : ∑ u ∈ S.erase t, w ((s.set c t thread).threads u) = ∑ u ∈ S.erase t, w (s.threads u) :=
    Finset.sum_congr rfl (fun u hu => by rw [State.set_ne _ _ _ _ (Finset.ne_of_mem_erase hu)])
  rw [hsplit, hsplit s.threads, hrest, State.set_self]
  omega

section Sums

variable [Fintype ι]

/-- The increments finished so far. -/
def total (s : State ι α) : Nat := ∑ t, (s.threads t).done

/-- The steps so far. -/
def spent (s : State ι α) : Nat := ∑ t, (s.threads t).spent

theorem Step.spent (hstep : Step inc k s s') : spent s' = spent s + 1 := by
  cases hstep with
  | load t hnone hlt =>
      have hsum := sum_set (Finset.mem_univ t) Thread.spent s s.cell ⟨(s.threads t).done, some s.cell⟩
      have hold : (s.threads t).spent = 2 * (s.threads t).done := by rw [Thread.spent, hnone]; rfl
      have hnew : Thread.spent ⟨(s.threads t).done, some s.cell⟩ = 2 * (s.threads t).done + 1 := rfl
      rw [hold, hnew] at hsum
      show ∑ u, _ = ∑ u, _ + 1
      omega
  | store t v hv =>
      have hsum := sum_set (Finset.mem_univ t) Thread.spent s (inc v) ⟨(s.threads t).done + 1, none⟩
      have hold : (s.threads t).spent = 2 * (s.threads t).done + 1 := by rw [Thread.spent, hv]; rfl
      have hnew : (⟨(s.threads t).done + 1, none⟩ : Thread α).spent = 2 * (s.threads t).done + 2 := rfl
      rw [hold, hnew] at hsum
      show ∑ u, _ = ∑ u, _ + 1
      omega

/-- **A schedule has no more than `2k` steps for each thread.** -/
theorem schedule_le {c : α} {f : Nat → State ι α} (h0 : f 0 = start c) {n : Nat}
    (hsteps : ∀ i < n, Step inc k (f i) (f (i + 1))) : n ≤ Fintype.card ι * (2 * k) := by
  have hall : ∀ i ≤ n, Within k (f i) ∧ Increments.spent (f i) = i := by
    intro i hi
    induction i with
    | zero =>
        rw [h0]
        exact ⟨within_start c, Finset.sum_eq_zero (fun _ _ => rfl)⟩
    | succ i ih =>
        obtain ⟨hwithin, hspent⟩ := ih (by omega)
        exact ⟨(hsteps i (by omega)).within hwithin, by rw [(hsteps i (by omega)).spent, hspent]⟩
  obtain ⟨hwithin, hspent⟩ := hall n (Nat.le_refl n)
  calc n = ∑ t, ((f n).threads t).spent := hspent.symm
    _ ≤ ∑ _t : ι, 2 * k := Finset.sum_le_sum (fun t _ => hwithin t)
    _ = Fintype.card ι * (2 * k) := Finset.sum_const_nat (fun _ _ => rfl)

omit [DecidableEq ι] in
theorem Finished.total (h : Finished k s) : total s = Fintype.card ι * k :=
  Finset.sum_const_nat (fun t _ => by rw [h t])

end Sums

/-! ## A counter -/

section Counter

variable {s s' : State ι Nat}

/-- A cell that has been stored to is not zero any more, a later increment of a thread starts from such a
    value, and so stores 2 at least. -/
structure AtLeast (s : State ι Nat) : Prop where
  cell : ∀ t, 1 ≤ (s.threads t).done → 1 ≤ s.cell
  loaded : ∀ t v, 1 ≤ (s.threads t).done → (s.threads t).loaded = some v → 1 ≤ v
  two : 2 ≤ s.cell ∨ ∃ t, (s.threads t).done ≤ 1

omit [DecidableEq ι] in
theorem atLeast_start [Nonempty ι] : AtLeast (start 0 : State ι Nat) where
  cell _ h := absurd h (Nat.not_succ_le_zero 0)
  loaded _ _ h := absurd h (Nat.not_succ_le_zero 0)
  two := Or.inr ⟨Classical.arbitrary ι, Nat.zero_le 1⟩

theorem AtLeast.step (h : AtLeast s) (hstep : Step Nat.succ k s s') : AtLeast s' := by
  cases hstep with
  | load t hnone hlt =>
      refine ⟨fun u hu => ?_, fun u v hu hv => ?_, ?_⟩
      · by_cases hut : u = t
        · subst hut
          rw [State.set_self] at hu
          exact h.cell u hu
        · rw [State.set_ne _ _ _ _ hut] at hu
          exact h.cell u hu
      · by_cases hut : u = t
        · subst hut
          rw [State.set_self] at hu hv
          rw [← Option.some.inj hv]
          exact h.cell u hu
        · rw [State.set_ne _ _ _ _ hut] at hu hv
          exact h.loaded u v hu hv
      · rcases h.two with htwo | ⟨u, hu⟩
        · exact Or.inl htwo
        · refine Or.inr ⟨u, ?_⟩
          by_cases hut : u = t
          · subst hut
            rw [State.set_self]
            exact hu
          · rw [State.set_ne _ _ _ _ hut]
            exact hu
  | store t v hv =>
      refine ⟨fun _ _ => Nat.le_add_left 1 v, fun u w hu hw => ?_, ?_⟩
      · by_cases hut : u = t
        · subst hut
          rw [State.set_self] at hw
          cases hw
        · rw [State.set_ne _ _ _ _ hut] at hu hw
          exact h.loaded u w hu hw
      · by_cases hfirst : 1 ≤ (s.threads t).done
        · exact Or.inl (Nat.succ_le_succ (h.loaded t v hfirst hv))
        · refine Or.inr ⟨t, ?_⟩
          rw [State.set_self]
          show (s.threads t).done + 1 ≤ 1
          omega

theorem AtLeast.run (h : AtLeast s) (hrun : Run Nat.succ k s s') : AtLeast s' := by
  induction hrun with
  | refl => exact h
  | tail _ hstep ih => exact ih.step hstep

section Total

variable [Fintype ι]

/-- Neither the cell nor a loaded value is more than the increments finished. -/
structure AtMost (s : State ι Nat) : Prop where
  cell : s.cell ≤ total s
  loaded : ∀ t v, (s.threads t).loaded = some v → v ≤ total s

omit [DecidableEq ι] in
theorem atMost_start : AtMost (start 0 : State ι Nat) where
  cell := Nat.zero_le _
  loaded _ _ h := by cases h

theorem AtMost.step (h : AtMost s) (hstep : Step Nat.succ k s s') : AtMost s' := by
  cases hstep with
  | load t hnone hlt =>
      have heq : total (s.set s.cell t ⟨(s.threads t).done, some s.cell⟩) = total s :=
        Nat.add_right_cancel (sum_set (Finset.mem_univ t) Thread.done ..)
      refine ⟨heq ▸ h.cell, fun u v hv => ?_⟩
      rw [heq]
      by_cases hut : u = t
      · subst hut
        rw [State.set_self] at hv
        rw [← Option.some.inj hv]
        exact h.cell
      · rw [State.set_ne _ _ _ _ hut] at hv
        exact h.loaded u v hv
  | store t v hv =>
      have heq : total (s.set (v + 1) t ⟨(s.threads t).done + 1, none⟩) = total s + 1 :=
        Nat.add_right_cancel ((sum_set (Finset.mem_univ t) Thread.done ..).trans (by
          show total s + ((s.threads t).done + 1) = total s + 1 + (s.threads t).done
          omega))
      have hle := h.loaded t v hv
      refine ⟨?_, fun u w hw => ?_⟩
      · rw [heq, State.set_cell]
        omega
      · rw [heq]
        by_cases hut : u = t
        · subst hut
          rw [State.set_self] at hw
          cases hw
        · rw [State.set_ne _ _ _ _ hut] at hw
          exact Nat.le_succ_of_le (h.loaded u w hw)

theorem AtMost.run (h : AtMost s) (hrun : Run Nat.succ k s s') : AtMost s' := by
  induction hrun with
  | refl => exact h
  | tail _ hstep ih => exact ih.step hstep

end Total

/-- A thread that runs alone for `j` increments loses none. -/
theorem run_alone {t : ι} {d : Nat} (j : Nat) (ht : s.threads t = ⟨d, none⟩) (hj : d + j ≤ k) :
    Run Nat.succ k s (s.set (s.cell + j) t ⟨d + j, none⟩) := by
  induction j with
  | zero => rw [Nat.add_zero, Nat.add_zero, State.set_same ht]
  | succ j ih =>
      have hload := step_load Nat.succ (k := k) (State.set_self s (s.cell + j) t ⟨d + j, none⟩) hj
      rw [State.set_set, State.set_cell] at hload
      have hstore := step_store Nat.succ (k := k) (State.set_self s (s.cell + j) t ⟨d + j, some (s.cell + j)⟩)
      rw [State.set_set] at hstore
      exact ((ih (by omega)).tail hload).tail hstore

/-- Some threads that are between increments: how far the threads in `S` have come together. -/
structure Between (k : Nat) (S : Finset ι) (s : State ι Nat) : Prop where
  none : ∀ t ∈ S, (s.threads t).loaded = none
  le : ∀ t ∈ S, (s.threads t).done ≤ k

/-- Threads that run while no other does, for `m` increments in all. -/
theorem run_some {S : Finset ι} (h : Between k S s) (m : Nat)
    (hm : ∑ t ∈ S, (s.threads t).done + m ≤ S.card * k) :
    ∃ s', Run Nat.succ k s s' ∧ Between k S s' ∧ s'.cell = s.cell + m ∧ (∀ t ∉ S, s'.threads t = s.threads t)
      ∧ ∑ t ∈ S, (s'.threads t).done = ∑ t ∈ S, (s.threads t).done + m := by
  induction m with
  | zero => exact ⟨s, .refl, h, rfl, fun _ _ => rfl, rfl⟩
  | succ m ih =>
      obtain ⟨s', hrun, hbetween, hcell, hother, hsum⟩ := ih (by omega)
      have hlt : ∑ t ∈ S, (s'.threads t).done < ∑ _t ∈ S, k := by
        rw [Finset.sum_const_nat (fun _ _ => rfl)]
        omega
      obtain ⟨t, ht, hdone⟩ := Finset.exists_lt_of_sum_lt hlt
      have hthread : s'.threads t = ⟨(s'.threads t).done, Option.none⟩ := by
        rw [← hbetween.none t ht]
      refine ⟨s'.set (s'.cell + 1) t ⟨(s'.threads t).done + 1, Option.none⟩,
        hrun.trans (run_alone 1 hthread hdone), ⟨fun u hu => ?_, fun u hu => ?_⟩, ?_, fun u hu => ?_, ?_⟩
      · by_cases hut : u = t
        · rw [hut, State.set_self]
        · rw [State.set_ne _ _ _ _ hut]
          exact hbetween.none u hu
      · by_cases hut : u = t
        · rw [hut, State.set_self]
          exact hdone
        · rw [State.set_ne _ _ _ _ hut]
          exact hbetween.le u hu
      · rw [State.set_cell, hcell, Nat.add_assoc]
      · rw [State.set_ne _ _ _ _ (fun hut => hu (by rw [hut]; exact ht)), hother u hu]
      · have hset := sum_set ht Thread.done s' (s'.cell + 1) ⟨(s'.threads t).done + 1, Option.none⟩
        dsimp only at hset
        omega

/-- **A schedule that loses `j + m` increments**: the first load of one thread and the last store of
    another enclose what is lost. -/
theorem exists_run [Fintype ι] {t₀ t₁ : ι} (hne : t₁ ≠ t₀) {j m : Nat} (hj : j + 1 ≤ k)
    (hm : m + 1 ≤ (Fintype.card ι - 1) * k) :
    ∃ s : State ι Nat, Run Nat.succ k (start 0) s ∧ Finished k s ∧ s.cell + j + m = Fintype.card ι * k := by
  -- `t₁` loads 0, and stores it plus one after `j` increments of `t₀`
  let s₁ : State ι Nat := (start 0).set 0 t₁ ⟨0, some 0⟩
  have h₁ : Run Nat.succ k (start 0) s₁ := .single (step_load Nat.succ rfl (by omega))
  have hfirst : s₁.threads t₀ = ⟨0, none⟩ := State.set_ne _ _ _ _ hne.symm
  let s₂ := s₁.set j t₀ ⟨j, none⟩
  have h₂ : Run Nat.succ k s₁ s₂ := by
    have hrun := run_alone (k := k) j hfirst (by omega)
    rwa [State.set_cell, Nat.zero_add] at hrun
  have hloaded : s₂.threads t₁ = ⟨0, some 0⟩ := by
    rw [State.set_ne _ _ _ _ hne, State.set_self]
  let s₃ := s₂.set 1 t₁ ⟨1, none⟩
  have h₃ : Run Nat.succ k s₂ s₃ := .single (step_store Nat.succ hloaded)
  have hback : s₃.threads t₀ = ⟨j, none⟩ := by
    rw [State.set_ne _ _ _ _ hne.symm, State.set_self]
  -- `t₀` goes on up to its last load
  let s₄ := s₃.set (k - j) t₀ ⟨k - 1, none⟩
  have h₄ : Run Nat.succ k s₃ s₄ := by
    have hrun := run_alone (k := k) (k - 1 - j) hback (by omega)
    rwa [State.set_cell, show 1 + (k - 1 - j) = k - j by omega, show j + (k - 1 - j) = k - 1 by omega]
      at hrun
  let s₅ := s₃.set (k - j) t₀ ⟨k - 1, some (k - j)⟩
  have h₅ : Run Nat.succ k s₄ s₅ := by
    have hstep := step_load Nat.succ (k := k) (State.set_self s₃ (k - j) t₀ ⟨k - 1, none⟩) (by omega)
    rw [State.set_set, State.set_cell] at hstep
    exact .single hstep
  -- the others make `m` increments before its last store, and the rest behind it
  let S := Finset.univ.erase t₀
  have hS : S.card = Fintype.card ι - 1 := by
    rw [Finset.card_erase_of_mem (Finset.mem_univ t₀), Finset.card_univ]
  have hone : t₁ ∈ S := Finset.mem_erase.mpr ⟨hne, Finset.mem_univ t₁⟩
  have hthreads : ∀ t ∈ S, s₅.threads t = if t = t₁ then ⟨1, none⟩ else ⟨0, none⟩ := by
    intro t ht
    have htne := Finset.ne_of_mem_erase ht
    rw [State.set_ne _ _ _ _ htne]
    by_cases htt : t = t₁
    · rw [htt, State.set_self, if_pos rfl]
    · rw [State.set_ne _ _ _ _ htt, State.set_ne _ _ _ _ htne, State.set_ne _ _ _ _ htt, if_neg htt]
      rfl
  have hbetween : Between k S s₅ := by
    refine ⟨fun t ht => ?_, fun t ht => ?_⟩ <;> rw [hthreads t ht] <;> split
    · rfl
    · rfl
    · show 1 ≤ k
      omega
    · exact Nat.zero_le k
  have hsum₅ : ∑ t ∈ S, (s₅.threads t).done = 1 := by
    rw [Finset.sum_eq_single t₁]
    · rw [hthreads t₁ hone, if_pos rfl]
    · intro t ht htt
      rw [hthreads t ht, if_neg htt]
    · exact fun h => absurd hone h
  obtain ⟨s₆, h₆, hbetween₆, -, hother₆, hsum₆⟩ := run_some hbetween m (by rw [hsum₅, hS]; omega)
  have hlast : s₆.threads t₀ = ⟨k - 1, some (k - j)⟩ := by
    rw [hother₆ t₀ (Finset.notMem_erase t₀ _), State.set_self]
  let s₇ := s₆.set (k - j + 1) t₀ ⟨k - 1 + 1, none⟩
  have h₇ : Run Nat.succ k s₆ s₇ := .single (step_store Nat.succ hlast)
  have hsame : ∀ t ∈ S, s₇.threads t = s₆.threads t :=
    fun t ht => State.set_ne _ _ _ _ (Finset.ne_of_mem_erase ht)
  have hbetween₇ : Between k S s₇ :=
    ⟨fun t ht => by rw [hsame t ht]; exact hbetween₆.none t ht,
      fun t ht => by rw [hsame t ht]; exact hbetween₆.le t ht⟩
  have hsum₇ : ∑ t ∈ S, (s₇.threads t).done = 1 + m := by
    rw [Finset.sum_congr rfl (fun t ht => congrArg Thread.done (hsame t ht)), hsum₆, hsum₅]
  obtain ⟨s₈, h₈, hbetween₈, hcell, hother₈, hsum₈⟩ :=
    run_some hbetween₇ (S.card * k - (1 + m)) (by rw [hsum₇, hS]; omega)
  have hend : s₈.threads t₀ = ⟨k, none⟩ := by
    rw [hother₈ t₀ (Finset.notMem_erase t₀ _), State.set_self, show k - 1 + 1 = k by omega]
  have hfull : ∀ t ∈ S, (s₈.threads t).done = k := by
    apply (Finset.sum_eq_sum_iff_of_le hbetween₈.le).mp
    rw [Finset.sum_const_nat (fun _ _ => rfl), hsum₈, hsum₇, hS]
    omega
  refine ⟨s₈, h₁.trans (h₂.trans (h₃.trans (h₄.trans (h₅.trans (h₆.trans (h₇.trans h₈)))))), ?_, ?_⟩
  · intro t
    by_cases ht : t = t₀
    · rw [ht, hend]
    · have hin : t ∈ S := Finset.mem_erase.mpr ⟨ht, Finset.mem_univ t⟩
      rw [← hfull t hin, ← hbetween₈.none t hin]
  · have hcard : 1 ≤ Fintype.card ι := Fintype.card_pos_iff.mpr ⟨t₀⟩
    have hall : Fintype.card ι * k = (Fintype.card ι - 1) * k + k := by
      conv_lhs => rw [← Nat.sub_add_cancel hcard]
      rw [Nat.succ_mul]
    rw [hcell, State.set_cell, hall, hS]
    omega

/-- **What two threads or more leave behind**: any value from 2 up to the number of increments. -/
theorem final_iff [Fintype ι] (hcard : 2 ≤ Fintype.card ι) (hk : 2 ≤ k) (v : Nat) :
    (∃ s : State ι Nat, Run Nat.succ k (start 0) s ∧ Finished k s ∧ s.cell = v) ↔
      2 ≤ v ∧ v ≤ Fintype.card ι * k := by
  obtain ⟨t₀, t₁, hne⟩ := Fintype.exists_pair_of_one_lt_card hcard
  have hnonempty : Nonempty ι := ⟨t₀⟩
  constructor
  · rintro ⟨s, hrun, hfin, rfl⟩
    refine ⟨?_, hfin.total ▸ (atMost_start.run hrun).cell⟩
    rcases (atLeast_start.run hrun).two with htwo | ⟨t, ht⟩
    · exact htwo
    · rw [hfin t] at ht
      exact absurd ht (by show ¬ k ≤ 1; omega)
  · rintro ⟨hlo, hhi⟩
    have hall : Fintype.card ι * k = (Fintype.card ι - 1) * k + k := by
      conv_lhs => rw [← Nat.sub_add_cancel (show 1 ≤ Fintype.card ι by omega)]
      rw [Nat.succ_mul]
    have hothers : 1 * k ≤ (Fintype.card ι - 1) * k := Nat.mul_le_mul_right k (by omega)
    -- the first window takes as much of the loss as it can
    obtain ⟨s, hrun, hfin, hcell⟩ := exists_run (k := k) hne.symm
      (j := min (Fintype.card ι * k - v) (k - 1))
      (m := Fintype.card ι * k - v - min (Fintype.card ι * k - v) (k - 1)) (by omega) (by omega)
    exact ⟨s, hrun, hfin, by omega⟩

/-- A single thread loses nothing: the cell is its count, and what it has loaded still is the cell. -/
structure Alone (s : State ι Nat) : Prop where
  cell : ∀ t, s.cell = (s.threads t).done
  loaded : ∀ t v, (s.threads t).loaded = some v → v = s.cell

theorem Alone.step [Subsingleton ι] (h : Alone s) (hstep : Step Nat.succ k s s') : Alone s' := by
  cases hstep with
  | load t hnone hlt =>
      refine ⟨fun u => ?_, fun u v hv => ?_⟩ <;> rw [Subsingleton.elim u t] at *
      · rw [State.set_self]
        exact h.cell t
      · rw [State.set_self] at hv
        exact (Option.some.inj hv).symm
  | store t v hv =>
      refine ⟨fun u => ?_, fun u w hw => ?_⟩ <;> rw [Subsingleton.elim u t] at *
      · rw [State.set_self, State.set_cell, h.loaded t v hv, h.cell t]
      · rw [State.set_self] at hw
        cases hw

theorem Alone.run [Subsingleton ι] (h : Alone s) (hrun : Run Nat.succ k s s') : Alone s' := by
  induction hrun with
  | refl => exact h
  | tail _ hstep ih => exact ih.step hstep

omit [DecidableEq ι] in
theorem alone_start : Alone (start 0 : State ι Nat) where
  cell _ := rfl
  loaded _ _ h := by cases h

/-- **What any number of threads leaves behind.** -/
theorem result_iff [Fintype ι] [Nonempty ι] (hk : 2 ≤ k) (v : Nat) :
    (∃ s : State ι Nat, Run Nat.succ k (start 0) s ∧ Finished k s ∧ s.cell = v) ↔
      if Fintype.card ι = 1 then v = k else 2 ≤ v ∧ v ≤ Fintype.card ι * k := by
  have hpos : 0 < Fintype.card ι := Fintype.card_pos
  split
  case isTrue hone =>
    have hsub : Subsingleton ι := Fintype.card_le_one_iff_subsingleton.mp hone.le
    obtain ⟨t⟩ := ‹Nonempty ι›
    constructor
    · rintro ⟨s, hrun, hfin, rfl⟩
      rw [(alone_start.run hrun).cell t, hfin t]
    · rintro rfl
      have hrun := run_alone v (s := start 0) (t := t) rfl (Nat.le_of_eq (Nat.zero_add v))
      refine ⟨_, hrun, fun u => ?_, Nat.zero_add v⟩
      rw [Subsingleton.elim u t, State.set_self, Nat.zero_add]
  case isFalse hmore => exact final_iff (by omega) hk v

end Counter

/-! ## Images of a counter -/

section Map

variable (f : α → β) {g : β → β} (hf : ∀ v, f (inc v) = g (f v))

def Thread.map (thread : Thread α) : Thread β := ⟨thread.done, thread.loaded.map f⟩

def State.map (s : State ι α) : State ι β := ⟨f s.cell, fun t => (s.threads t).map f⟩

theorem State.map_set (c : α) (t : ι) (thread : Thread α) :
    (s.set c t thread).map f = (s.map f).set (f c) t (thread.map f) := by
  refine congrArg (State.mk (f c)) (funext fun u => ?_)
  by_cases hut : u = t
  · rw [hut, State.set_self, Function.update_self]
  · rw [State.set_ne _ _ _ _ hut, Function.update_of_ne hut]
    rfl

omit [DecidableEq ι] in
theorem finished_map : Finished k (s.map f) ↔ Finished k s := by
  refine forall_congr' fun t => ?_
  show (⟨(s.threads t).done, (s.threads t).loaded.map f⟩ : Thread β) = _ ↔ _
  rw [Thread.mk.injEq, Option.map_eq_none_iff]
  cases s.threads t
  simp

include hf

theorem Step.map (hstep : Step inc k s s') : Step g k (s.map f) (s'.map f) := by
  cases hstep with
  | load t hnone hlt =>
      rw [State.map_set]
      have hnone' : ((s.map f).threads t).loaded = none := Option.map_eq_none_iff.mpr hnone
      exact .load t hnone' hlt
  | store t v hv =>
      rw [State.map_set, hf]
      have hv' : ((s.map f).threads t).loaded = some (f v) := congrArg (Option.map f) hv
      exact .store t (f v) hv'

/-- A step of the image is the image of a step. -/
theorem Step.lift {q : State ι β} (hstep : Step g k (s.map f) q) : ∃ s', Step inc k s s' ∧ s'.map f = q := by
  generalize hp : s.map f = p at hstep
  cases hstep with
  | load t hnone hlt =>
      subst hp
      exact ⟨_, .load t (Option.map_eq_none_iff.mp hnone) hlt, State.map_set ..⟩
  | store t v hv =>
      subst hp
      obtain ⟨w, hw, rfl⟩ := Option.map_eq_some_iff.mp hv
      exact ⟨_, .store t w hw, by rw [State.map_set, hf]; rfl⟩

theorem Run.map (hrun : Run inc k s s') : Run g k (s.map f) (s'.map f) := by
  induction hrun with
  | refl => exact .refl
  | tail _ hstep ih => exact ih.tail (hstep.map f hf)

theorem Run.lift {q : State ι β} (hrun : Run g k (s.map f) q) : ∃ s', Run inc k s s' ∧ s'.map f = q := by
  induction hrun with
  | refl => exact ⟨s, .refl, rfl⟩
  | tail _ hstep ih =>
      obtain ⟨s₁, hrun₁, rfl⟩ := ih
      obtain ⟨s₂, hstep₂, heq⟩ := hstep.lift f hf
      exact ⟨s₂, hrun₁.tail hstep₂, heq⟩

end Map

end Lib.Increments

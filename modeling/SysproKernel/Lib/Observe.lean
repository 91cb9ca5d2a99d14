import SysproKernel.Lib.Driver

/-!
# `Lib.Observe` — what a program does while memory stands still

While its environment leaves memory alone, a program that only loads and prints has one run. `observe`
computes its result and, in order, the places it loads from and the items it prints. `Observed` has one
rule per constructor, one for sequencing and one for counted loops, and says what every run of the program
beside such an environment returns and prints (`Observed.interleaves`).
-/

namespace Lib.Observe

open Lib.ByteMem (Mem)
open Lib.Driver
open Relation (ReflTransGen)

/-- One action of a program: a load of `n` bytes from `a`, or a printed item. -/
inductive Action (ω : Type) where
  | load (a n : Nat)
  | print (o : ω)
  deriving DecidableEq, Repr

variable {ω δ α β : Type}

/-- The items printed. -/
def printed (t : List (Action ω)) : List ω :=
  t.filterMap fun
    | .print o  => some o
    | .load _ _ => none

theorem printed_append (t t' : List (Action ω)) : printed (t ++ t') = printed t ++ printed t' :=
  List.filterMap_append

theorem printed_flatMap {ι : Type} (l : List ι) (t : ι → List (Action ω)) :
    printed (l.flatMap t) = l.flatMap (fun i => printed (t i)) :=
  List.filterMap_flatMap

/-- The result of a program and its actions in memory `m`; `none` if it does anything but load and print,
    or waits for something that is not there. -/
def observe (m : Mem) : Prog ω α → Option (α × List (Action ω))
  | .ret a           => some (a, [])
  | .loadThen a n k  => (observe m (k (Lib.ByteMem.load m a n))).map fun r => (r.1, .load a n :: r.2)
  | .printThen o k   => (observe m k).map fun r => (r.1, .print o :: r.2)
  | .awaitThen a n r k =>
      if r (Lib.ByteMem.load m a n) then (observe m k).map fun r => (r.1, .load a n :: r.2) else none
  | _                => none

/-- In memory `m`, the program returns `a` after the actions `t`. -/
structure Observed (m : Mem) (p : Prog ω α) (a : α) (t : List (Action ω)) : Prop where
  eq : observe m p = some (a, t)

section Rules

variable {m : Mem} {t t' : List (Action ω)}

theorem Observed.ret (m : Mem) (a : α) : Observed m (pure a : Prog ω α) a [] := ⟨rfl⟩

theorem Observed.bind {p : Prog ω α} {f : α → Prog ω β} {a : α} {b : β} (hp : Observed m p a t)
    (hf : Observed m (f a) b t') : Observed m (p >>= f) b (t ++ t') := by
  constructor
  replace hp := hp.eq
  induction p generalizing t with
  | ret a' =>
      cases hp
      exact hf.eq
  | loadThen x n k ih =>
      obtain ⟨⟨a', t₀⟩, hk, heq⟩ := Option.map_eq_some_iff.mp hp
      cases heq
      exact Option.map_eq_some_iff.mpr ⟨_, ih _ hk, rfl⟩
  | printThen o k ih =>
      obtain ⟨⟨a', t₀⟩, hk, heq⟩ := Option.map_eq_some_iff.mp hp
      cases heq
      exact Option.map_eq_some_iff.mpr ⟨_, ih hk, rfl⟩
  | awaitThen x n r k ih =>
      by_cases hr : r (Lib.ByteMem.load m x n) = true
      · obtain ⟨⟨a', t₀⟩, hk, heq⟩ := Option.map_eq_some_iff.mp ((if_pos hr).symm.trans hp)
        cases heq
        exact (if_pos hr).trans (Option.map_eq_some_iff.mpr ⟨_, ih hk, rfl⟩)
      · cases (if_neg hr).symm.trans hp
  | storeThen x n v k _ => cases hp
  | ioReadThen n port k _ => cases hp
  | ioWriteThen n port v k _ => cases hp
  | hang => cases hp
  | fault => cases hp

/-- The last part of a program, followed by a value computed from its result. -/
theorem Observed.map {p : Prog ω α} {f : α → β} {a : α} (h : Observed m p a t) :
    Observed m (p >>= fun a => (pure (f a) : Prog ω β)) (f a) t := by
  have hall : Observed m (p >>= fun a => (pure (f a) : Prog ω β)) (f a) (t ++ []) :=
    h.bind (.ret m (f a))
  rwa [List.append_nil] at hall

theorem Observed.load (m : Mem) (a n : Nat) :
    Observed m (Prog.load a n : Prog ω Nat) (Lib.ByteMem.load m a n) [.load a n] := ⟨rfl⟩

theorem Observed.print (m : Mem) (o : ω) : Observed m (Prog.print o) () [.print o] := ⟨rfl⟩

theorem Observed.await {a n : Nat} {r : Nat → Bool} (h : r (Lib.ByteMem.load m a n) = true) :
    Observed m (Prog.await a n r : Prog ω Unit) () [.load a n] :=
  ⟨if_pos h⟩

/-- **Loop rule.** The actions of the iterations, in order. -/
theorem Observed.forLoop {n : Nat} {body : Nat → Unit → Prog ω Unit} (t : Nat → List (Action ω))
    (h : ∀ i < n, Observed m (body i ()) () (t i)) :
    Observed m (Lib.Loop.forLoop n body ()) () ((List.range n).flatMap t) := by
  induction n with
  | zero => exact .ret m ()
  | succ n ih =>
      rw [List.range_succ, List.flatMap_append, List.flatMap_singleton]
      exact (ih (fun i hi => h i (Nat.lt_succ_of_lt hi))).bind (h n (Nat.lt_succ_self n))

end Rules

/-! ## Runs -/

/-- The environment leaves memory alone. -/
def Still (E : Env δ) : Prop := ∀ m d m' d', E.step m d m' d' → m' = m

section Runs

variable {E : Env δ} {p : Prog ω α} {w u : World ω δ} {a a' : α} {t : List (Action ω)}

/-- The run that is observed. -/
theorem Observed.returns (h : Observed w.mem p a t) :
    Returns E p w a { w with out := w.out ++ printed t } := by
  replace h := h.eq
  induction p generalizing w t with
  | ret a' =>
      cases h
      have hout : { w with out := w.out ++ printed [] } = w := by
        show { w with out := w.out ++ [] } = w
        rw [List.append_nil]
      rw [hout]
      exact .refl
  | loadThen x n k ih =>
      obtain ⟨⟨a', t₀⟩, hk, heq⟩ := Option.map_eq_some_iff.mp h
      cases heq
      have hrest := ih _ (t := t₀) hk
      exact .head .load hrest
  | printThen o k ih =>
      obtain ⟨⟨a', t₀⟩, hk, heq⟩ := Option.map_eq_some_iff.mp h
      cases heq
      have hrest := ih (w := w.print o) hk
      have hout : (w.print o).out ++ printed t₀ = w.out ++ printed (.print o :: t₀) := by
        show w.out ++ [o] ++ printed t₀ = w.out ++ (o :: printed t₀)
        rw [List.append_assoc, List.singleton_append]
      rw [hout] at hrest
      exact .head .print hrest
  | awaitThen x n r k ih =>
      by_cases hr : r (Lib.ByteMem.load w.mem x n) = true
      · obtain ⟨⟨a', t₀⟩, hk, heq⟩ := Option.map_eq_some_iff.mp ((if_pos hr).symm.trans h)
        cases heq
        have hrest := ih (t := t₀) hk
        exact .head (.await hr) hrest
      · cases (if_neg hr).symm.trans h
  | storeThen x n v k _ => cases h
  | ioReadThen n port k _ => cases h
  | ioWriteThen n port v k _ => cases h
  | hang => cases h
  | fault => cases h

/-- **Every run** beside an environment that leaves memory alone returns and prints what is observed. -/
theorem Observed.interleaves (hstill : Still E) (h : Observed w.mem p a t)
    (hrun : Interleaves E (p, w) (.ret a', u)) : a' = a ∧ u.out = w.out ++ printed t := by
  replace h := h.eq
  generalize hc : (p, w) = c at hrun
  induction hrun using ReflTransGen.head_induction_on generalizing p w t with
  | refl =>
      cases hc
      cases h
      exact ⟨rfl, (List.append_nil _).symm⟩
  | head hnext hrest ih =>
      subst hc
      cases hnext with
      | env hm =>
          have hmem := hstill _ _ _ _ hm.1
          rw [← hm.2]
          exact ih (hmem ▸ h) rfl
      | prog hs =>
          cases hs with
          | load =>
              obtain ⟨⟨a₀, t₀⟩, hk, heq⟩ := Option.map_eq_some_iff.mp h
              cases heq
              exact ih (t := t₀) hk rfl
          | print =>
              obtain ⟨⟨a₀, t₀⟩, hk, heq⟩ := Option.map_eq_some_iff.mp h
              cases heq
              obtain ⟨hret, hout⟩ := ih (t := t₀) (w := w.print _) hk rfl
              refine ⟨hret, hout.trans ?_⟩
              show w.out ++ [_] ++ printed t₀ = w.out ++ (_ :: printed t₀)
              rw [List.append_assoc, List.singleton_append]
          | await hr =>
              obtain ⟨⟨a₀, t₀⟩, hk, heq⟩ := Option.map_eq_some_iff.mp ((if_pos hr).symm.trans h)
              cases heq
              exact ih (t := t₀) hk rfl
          | store => cases h
          | ioRead hv => cases h
          | ioWrite => cases h

end Runs

end Lib.Observe

import Mathlib.Data.List.Basic
import Mathlib.Logic.Function.Basic
import Mathlib.Logic.Relation

/-!
# `Lib.Links` — machines connected by links

Machines that move one at a time, each emitting and accepting messages, and one link into each machine from
its peer. A link delivers in order; it may lose a message but neither invents, doubles nor reorders one.
Of a machine only two lists are seen, all that it has emitted and all that it has accepted.

The invariant of a link is that what its machine has accepted, followed by what is under way, is a sublist of
what the peer has emitted, and all of it if nothing was lost (`Linked`).
-/

namespace Lib.Links

open Relation (ReflTransGen)

/-- The machines, what is under way to each of them, and how much of it has been lost. -/
structure Net (ι σ φ : Type) where
  host : ι → σ
  wire : ι → List φ
  lost : ι → Nat

/-- How the machines move, what they have emitted and accepted, and whose messages each is sent. -/
structure System (ι σ φ : Type) where
  step : ι → σ → σ → Prop
  emitted : σ → List φ
  accepted : σ → List φ
  peer : ι → ι

variable {ι σ φ : Type} {N : System ι σ φ}

/-- One machine moves, or a link loses a message. -/
inductive Step [DecidableEq ι] (N : System ι σ φ) : Net ι σ φ → Net ι σ φ → Prop
  | host {n n' : Net ι σ φ} (i : ι) (hstep : N.step i (n.host i) (n'.host i))
      (hothers : ∀ j, j ≠ i → n'.host j = n.host j) (hlost : n'.lost = n.lost)
      (hlinks : ∀ j, ∃ new taken,
        N.emitted (n'.host (N.peer j)) = N.emitted (n.host (N.peer j)) ++ new ∧
        N.accepted (n'.host j) = N.accepted (n.host j) ++ taken ∧
        n.wire j ++ new = taken ++ n'.wire j) :
      Step N n n'
  | lose {n : Net ι σ φ} (j : ι) {before after : List φ} {x : φ}
      (hx : n.wire j = before ++ x :: after) :
      Step N n { n with
        wire := Function.update n.wire j (before ++ after)
        lost := Function.update n.lost j (n.lost j + 1) }

def Reaches [DecidableEq ι] (N : System ι σ φ) : Net ι σ φ → Net ι σ φ → Prop := ReflTransGen (Step N)

/-- The invariant of the link into `j`. -/
structure Linked (N : System ι σ φ) (n : Net ι σ φ) (j : ι) : Prop where
  sublist : (N.accepted (n.host j) ++ n.wire j).Sublist (N.emitted (n.host (N.peer j)))
  lossless : n.lost j = 0 → N.accepted (n.host j) ++ n.wire j = N.emitted (n.host (N.peer j))

section Runs

variable [DecidableEq ι] {n n' : Net ι σ φ}

/-- **Every step keeps every link.** -/
theorem Linked.step {j : ι} (h : Linked N n j) (hs : Step N n n') : Linked N n' j := by
  cases hs with
  | host i hstep hothers hlost hlinks =>
      obtain ⟨new, taken, hemitted, haccepted, hwire⟩ := hlinks j
      have hkept : N.accepted (n'.host j) ++ n'.wire j
          = (N.accepted (n.host j) ++ n.wire j) ++ new := by
        rw [haccepted, List.append_assoc, List.append_assoc, hwire]
      constructor
      · rw [hkept, hemitted]
        exact h.sublist.append_right new
      · intro hnone
        rw [hkept, hemitted, h.lossless (by rw [← hlost]; exact hnone)]
  | @lose k before after x hx =>
      by_cases hjk : j = k
      · subst hjk
        constructor
        · dsimp only
          refine List.Sublist.trans ?_ h.sublist
          rw [Function.update_self, hx]
          exact ((List.sublist_cons_self x after).append_left before).append_left _
        · intro hnone
          dsimp only at hnone
          rw [Function.update_self] at hnone
          omega
      · constructor
        · dsimp only
          rw [Function.update_of_ne hjk]
          exact h.sublist
        · intro hnone
          dsimp only at hnone ⊢
          rw [Function.update_of_ne hjk] at hnone ⊢
          exact h.lossless hnone

theorem Linked.reaches {j : ι} (h : Linked N n j) (hs : Reaches N n n') : Linked N n' j := by
  induction hs with
  | refl => exact h
  | tail _ hstep ih => exact ih.step hstep

/-- **Each machine runs as if it were alone.** -/
theorem host_run (hs : Reaches N n n') (i : ι) :
    ReflTransGen (N.step i) (n.host i) (n'.host i) := by
  induction hs with
  | refl => exact .refl
  | tail _ hstep ih =>
      cases hstep with
      | host k hk hothers hlost hlinks =>
          by_cases hik : i = k
          · subst hik
            exact ih.tail hk
          · rw [hothers i hik]
            exact ih
      | lose j hx => exact ih

end Runs

/-! ## Building runs -/

/-- A machine's moves only add to what it has emitted and accepted. -/
def Grows (N : System ι σ φ) (i : ι) : Prop :=
  ∀ s s', N.step i s s' → N.emitted s <+: N.emitted s' ∧ N.accepted s <+: N.accepted s'

theorem Grows.run {i : ι} {s s' : σ} (h : Grows N i) (hs : ReflTransGen (N.step i) s s') :
    N.emitted s <+: N.emitted s' ∧ N.accepted s <+: N.accepted s' := by
  induction hs with
  | refl => exact ⟨List.prefix_refl _, List.prefix_refl _⟩
  | tail _ hstep ih => exact ⟨ih.1.trans (h _ _ hstep).1, ih.2.trans (h _ _ hstep).2⟩

variable [DecidableEq ι]

/-- The net after machine `i` has moved to `s` and accepted nothing on the way. -/
def Net.after (N : System ι σ φ) (n : Net ι σ φ) (i : ι) (s : σ) : Net ι σ φ :=
  { n with
    host := Function.update n.host i s
    wire := fun j => if N.peer j = i then
      n.wire j ++ (N.emitted s).drop (N.emitted (n.host i)).length else n.wire j }

@[simp] theorem Net.after_self (n : Net ι σ φ) (i : ι) (s : σ) : (n.after N i s).host i = s := by
  simp only [Net.after, Function.update_self]

theorem Net.after_other (n : Net ι σ φ) {i j : ι} (hj : j ≠ i) (s : σ) :
    (n.after N i s).host j = n.host j := by
  simp only [Net.after, Function.update_of_ne hj]

/-- **A run of one machine that accepts nothing** is a run of the net. -/
theorem Reaches.quiet {n : Net ι σ φ} {i : ι} {s : σ} (hgrows : Grows N i)
    (hs : ReflTransGen (N.step i) (n.host i) s) (hquiet : N.accepted s = N.accepted (n.host i)) :
    Reaches N n (n.after N i s) := by
  induction hs with
  | refl =>
      have hsame : n.after N i (n.host i) = n := by
        simp only [Net.after, Function.update_eq_self, List.drop_length, List.append_nil, ite_self]
      rw [hsame]
      exact .refl
  | @tail s s' hrun hstep ih =>
      obtain ⟨hemits, haccepts⟩ := hgrows.run hrun
      obtain ⟨hemits', haccepts'⟩ := hgrows _ _ hstep
      have hmid : N.accepted s = N.accepted (n.host i) := by
        refine (haccepts.eq_of_length_le ?_).symm
        rw [← hquiet]
        exact haccepts'.length_le
      refine (ih hmid).tail (.host i ?_ ?_ rfl ?_)
      · rw [Net.after_self, Net.after_self]
        exact hstep
      · intro j hj
        rw [Net.after_other n hj, Net.after_other n hj]
      · intro j
        have hacc : N.accepted ((n.after N i s').host j) = N.accepted ((n.after N i s).host j) := by
          by_cases hj : j = i
          · rw [hj, Net.after_self, Net.after_self]
            exact hquiet.trans hmid.symm
          · rw [Net.after_other n hj, Net.after_other n hj]
        by_cases hp : N.peer j = i
        · obtain ⟨new, hnew⟩ := hemits'
          refine ⟨new, [], ?_, hacc.trans (List.append_nil _).symm, ?_⟩
          · rw [hp, Net.after_self, Net.after_self]
            exact hnew.symm
          · simp only [Net.after, if_pos hp, List.nil_append]
            rw [← hnew, List.drop_append_of_le_length hemits.length_le, List.append_assoc]
        · refine ⟨[], [], ?_, hacc.trans (List.append_nil _).symm, ?_⟩
          · rw [Net.after_other n hp, Net.after_other n hp, List.append_nil]
          · simp only [Net.after, if_neg hp, List.append_nil, List.nil_append]

/-- The net after machine `i` has moved to `s` and taken the first message from its link. -/
def Net.handed (n : Net ι σ φ) (i : ι) (s : σ) (rest : List φ) : Net ι σ φ :=
  { n with host := Function.update n.host i s, wire := Function.update n.wire i rest }

@[simp] theorem Net.handed_self (n : Net ι σ φ) (i : ι) (s : σ) (rest : List φ) :
    (n.handed i s rest).host i = s := by
  simp only [Net.handed, Function.update_self]

theorem Net.handed_other (n : Net ι σ φ) {i j : ι} (hj : j ≠ i) (s : σ) (rest : List φ) :
    (n.handed i s rest).host j = n.host j := by
  simp only [Net.handed, Function.update_of_ne hj]

theorem Step.hand {n : Net ι σ φ} {i : ι} {s : σ} {x : φ} {rest : List φ}
    (hstep : N.step i (n.host i) s) (hemitted : N.emitted s = N.emitted (n.host i))
    (haccepted : N.accepted s = N.accepted (n.host i) ++ [x]) (hwire : n.wire i = x :: rest) :
    Step N n (n.handed i s rest) := by
  have hsame : ∀ j, N.emitted ((n.handed i s rest).host j) = N.emitted (n.host j) := by
    intro j
    by_cases hj : j = i
    · rw [hj, Net.handed_self, hemitted]
    · rw [Net.handed_other n hj]
  refine .host i ?_ (fun j hj => Net.handed_other n hj s rest) rfl ?_
  · rw [Net.handed_self]
    exact hstep
  · intro j
    by_cases hj : j = i
    · subst hj
      refine ⟨[], [x], ?_, ?_, ?_⟩
      · rw [hsame, List.append_nil]
      · rw [Net.handed_self, haccepted]
      · simp only [Net.handed, Function.update_self, hwire, List.append_nil, List.singleton_append]
    · refine ⟨[], [], ?_, ?_, ?_⟩
      · rw [hsame, List.append_nil]
      · rw [Net.handed_other n hj, List.append_nil]
      · simp only [Net.handed, Function.update_of_ne hj, List.append_nil, List.nil_append]

end Lib.Links

/-!
# `Lib.Windows` — address spaces as finite lists of linear windows

A window maps the virtual interval `[vbase, vbase + len)` linearly onto `[pbase, pbase + len)`. An
address space is a list of windows, looked up in order; an address outside every window is unmapped.
The isolation rule `shared_of_lookup_eq` says when a physical address reachable from two spaces must lie
in a shared set: it suffices to compare the windows pairwise.
-/

namespace Lib.Windows

/-- A linear window of an address space. -/
structure Window where
  vbase : Nat
  len : Nat
  pbase : Nat
  deriving DecidableEq, Repr

/-- The window mapping `[base, base + len)` to itself. -/
def Window.identity (base len : Nat) : Window := { vbase := base, len, pbase := base }

/-- The virtual address lies in the window. -/
def Window.Contains (w : Window) (v : Nat) : Prop := w.vbase ≤ v ∧ v < w.vbase + w.len

theorem Window.identity_contains {base len v : Nat} :
    (Window.identity base len).Contains v ↔ base ≤ v ∧ v < base + len := Iff.rfl

instance (w : Window) (v : Nat) : Decidable (w.Contains v) := inferInstanceAs (Decidable (_ ∧ _))

/-- The physical address lies in the window's image. -/
def Window.Reaches (w : Window) (p : Nat) : Prop := w.pbase ≤ p ∧ p < w.pbase + w.len

/-- The translation of an address space: the first window containing the address decides. -/
def lookup : List Window → Nat → Option Nat
  | [],      _ => none
  | w :: ws, v => if w.Contains v then some (w.pbase + (v - w.vbase)) else lookup ws v

theorem lookup_inside {w : Window} {ws : List Window} {v : Nat} (h : w.Contains v) :
    lookup (w :: ws) v = some (w.pbase + (v - w.vbase)) := if_pos h

theorem lookup_outside {w : Window} {ws : List Window} {v : Nat} (h : ¬ w.Contains v) :
    lookup (w :: ws) v = lookup ws v := if_neg h

/-- Inside an identity window an address is its own translation. -/
theorem lookup_identity {base len : Nat} {ws : List Window} {v : Nat}
    (h : (Window.identity base len).Contains v) :
    lookup (.identity base len :: ws) v = some v := by
  rw [lookup_inside h]
  exact congrArg some (Nat.add_sub_of_le h.1)

/-- A mapped address lies in one of the windows, which determines its translation. -/
theorem exists_window {ws : List Window} {v p : Nat} (h : lookup ws v = some p) :
    ∃ w ∈ ws, w.Contains v ∧ p = w.pbase + (v - w.vbase) := by
  induction ws with
  | nil => simp [lookup] at h
  | cons w ws ih =>
      by_cases hw : w.Contains v
      · rw [lookup_inside hw] at h
        exact ⟨w, List.mem_cons_self, hw, (Option.some.inj h).symm⟩
      · rw [lookup_outside hw] at h
        obtain ⟨w', hmem, hin, hp⟩ := ih h
        exact ⟨w', List.mem_cons_of_mem w hmem, hin, hp⟩

/-- Windows no two of which contain the same address. -/
def Apart (ws : List Window) : Prop := ws.Pairwise fun w w' => ∀ v, w.Contains v → ¬ w'.Contains v

/-- Where windows are apart their order does not matter. -/
theorem Apart.lookup_of_mem {ws : List Window} {w : Window} {v : Nat} (h : Apart ws) (hw : w ∈ ws)
    (hv : w.Contains v) : lookup ws v = some (w.pbase + (v - w.vbase)) := by
  induction ws with
  | nil => cases hw
  | cons u us ih =>
      obtain ⟨hhead, htail⟩ := List.pairwise_cons.mp h
      rcases List.mem_cons.mp hw with rfl | hmem
      · exact lookup_inside hv
      · rw [lookup_outside fun hu => hhead w hmem v hu hv]
        exact ih htail hmem

theorem Apart.lookup_eq_some_iff {ws : List Window} {v p : Nat} (h : Apart ws) :
    lookup ws v = some p ↔ ∃ w ∈ ws, w.Contains v ∧ p = w.pbase + (v - w.vbase) := by
  constructor
  · exact exists_window
  · rintro ⟨w, hw, hv, rfl⟩
    exact h.lookup_of_mem hw hv

theorem exists_reaches {ws : List Window} {v p : Nat} (h : lookup ws v = some p) :
    ∃ w ∈ ws, w.Reaches p := by
  obtain ⟨w, hmem, hin, hp⟩ := exists_window h
  have hlo := hin.1
  have hhi := hin.2
  exact ⟨w, hmem, by unfold Window.Reaches; omega⟩

/-- **Isolation.** If every pair of windows of two spaces that reaches a common physical address
    reaches it inside `Shared`, then every address translated alike by both spaces is in `Shared`. -/
theorem shared_of_lookup_eq {ws ws' : List Window} {Shared : Nat → Prop} {u v p : Nat}
    (hpair : ∀ w ∈ ws, ∀ w' ∈ ws', ∀ p, w.Reaches p → w'.Reaches p → Shared p)
    (hu : lookup ws u = some p) (hv : lookup ws' v = some p) : Shared p := by
  obtain ⟨w, hw, hp⟩ := exists_reaches hu
  obtain ⟨w', hw', hp'⟩ := exists_reaches hv
  exact hpair w hw w' hw' p hp hp'

end Lib.Windows

import Mathlib.Data.List.TakeWhile
import Mathlib.Algebra.Group.Defs

/-!
# `Lib.CStr` — NUL-terminated strings in a row of cells

A row of cells (`Nat → α`) holds the string `s` when its first cells are the non-NUL characters of `s`
and the next cell is NUL (`Holds`). What lies behind the terminator is not part of the string, and is
exactly what a copy leaves behind: `overwrite` is the effect of copying a string with its terminator
over a row. `text` reads the string back, cut at a given number of cells.
-/

namespace Lib.CStr

variable {α : Type} [Zero α]

/-- The cells start with the characters of `s`, none of them NUL, and then NUL. -/
structure Holds (cells : Nat → α) (s : List α) : Prop where
  chars : ∀ j (h : j < s.length), cells j = s[j]
  nonzero : ∀ c ∈ s, c ≠ 0
  nul : cells s.length = 0

theorem holds_nil {cells : Nat → α} (h : cells 0 = 0) : Holds cells [] where
  chars j hj := absurd hj (Nat.not_lt_zero j)
  nonzero _ hc := absurd hc List.not_mem_nil
  nul := h

theorem Holds.ne_zero {cells : Nat → α} {s : List α} (h : Holds cells s) {j : Nat}
    (hj : j < s.length) : cells j ≠ 0 := by
  rw [h.chars j hj]
  exact h.nonzero _ (List.getElem_mem hj)

/-- Up to its terminator the row reads as the string followed by NUL. -/
theorem Holds.cell {cells : Nat → α} {s : List α} (h : Holds cells s) {j : Nat}
    (hj : j ≤ s.length) : cells j = s.getD j 0 := by
  by_cases hlt : j < s.length
  · rw [h.chars j hlt]
    simp [hlt]
  · obtain rfl : j = s.length := by omega
    rw [h.nul]
    simp

/-- A row with a NUL at cell `n` holds a string of at most `n` characters. -/
theorem exists_holds {cells : Nat → α} {n : Nat} (h : cells n = 0) :
    ∃ s, s.length ≤ n ∧ Holds cells s := by
  induction n generalizing cells with
  | zero => exact ⟨[], Nat.le_refl 0, holds_nil h⟩
  | succ n ih =>
      by_cases h0 : cells 0 = 0
      · exact ⟨[], Nat.zero_le _, holds_nil h0⟩
      · have htail : ∃ s, s.length ≤ n ∧ Holds (fun j => cells (j + 1)) s := ih h
        obtain ⟨s, hlen, hs⟩ := htail
        refine ⟨cells 0 :: s, Nat.succ_le_succ hlen, ?_, ?_, hs.nul⟩
        · intro j hj
          cases j with
          | zero => rfl
          | succ j => exact hs.chars j (Nat.lt_of_succ_lt_succ hj)
        · intro c hc
          rcases List.mem_cons.mp hc with rfl | hc
          · exact h0
          · exact hs.nonzero c hc

/-- The string of a row ends at or before any NUL. -/
theorem Holds.length_le {cells : Nat → α} {s : List α} (h : Holds cells s) {n : Nat}
    (hn : cells n = 0) : s.length ≤ n := by
  by_contra hlt
  exact h.ne_zero (Nat.lt_of_not_le hlt) hn

/-- A character stored in front of a string. -/
theorem Holds.store_front {cells : Nat → α} {ptr : Nat} {s : List α}
    (h : Holds (fun j => cells (ptr + 1 + j)) s) {c : α} (hc : c ≠ 0) :
    Holds (fun j => Function.update cells ptr c (ptr + j)) (c :: s) := by
  have hrest : ∀ j, Function.update cells ptr c (ptr + (j + 1)) = cells (ptr + 1 + j) := by
    intro j
    rw [Function.update_of_ne (by omega), Nat.add_assoc, Nat.add_comm 1 j]
  refine ⟨?_, ?_, (hrest s.length).trans h.nul⟩
  · intro j hj
    cases j with
    | zero => exact Function.update_self ptr c cells
    | succ j => exact (hrest j).trans (h.chars j (Nat.lt_of_succ_lt_succ hj))
  · intro d hd
    rcases List.mem_cons.mp hd with rfl | hd
    · exact hc
    · exact h.nonzero d hd

/-! ## Copying -/

/-- The row after `s` and its terminator have been copied over it. -/
def overwrite (cells : Nat → α) (s : List α) : Nat → α :=
  fun j => if j < s.length then s.getD j 0 else if j = s.length then 0 else cells j

theorem overwrite_behind {cells : Nat → α} {s : List α} {j : Nat} (h : s.length < j) :
    overwrite cells s j = cells j := by
  rw [overwrite, if_neg (by omega), if_neg (by omega)]

theorem overwrite_nul (cells : Nat → α) (s : List α) : overwrite cells s s.length = 0 := by
  rw [overwrite, if_neg (Nat.lt_irrefl _), if_pos rfl]

/-- Copying leaves exactly the copied string. -/
theorem holds_overwrite {cells : Nat → α} {s : List α} (h : ∀ c ∈ s, c ≠ 0) :
    Holds (overwrite cells s) s where
  chars j hj := by
    simp [overwrite, hj]
  nonzero := h
  nul := overwrite_nul cells s

theorem overwrite_nil (cells : Nat → α) : overwrite cells [] = Function.update cells 0 0 := by
  funext j
  by_cases hj : j = 0
  · subst hj
    exact (overwrite_nul cells []).trans (Function.update_self 0 0 cells).symm
  · rw [Function.update_of_ne hj, overwrite_behind (Nat.pos_of_ne_zero hj)]

/-! ## Reading back -/

variable [DecidableEq α]

/-- The characters of the first `n` cells up to the first NUL. -/
def text (cells : Nat → α) (n : Nat) : List α :=
  ((List.range n).map cells).takeWhile (fun c => c ≠ 0)

/-- **Reading a string back**, cut at `n` characters. -/
theorem Holds.text_eq {cells : Nat → α} {s : List α} (h : Holds cells s) (n : Nat) :
    text cells n = s.take n := by
  induction n generalizing cells s with
  | zero => rfl
  | succ n ih =>
      unfold text
      rw [List.range_succ_eq_map, List.map_cons, List.map_map]
      cases s with
      | nil =>
          have hnul : cells 0 = 0 := h.nul
          rw [List.takeWhile_cons_of_neg (by simp [hnul]), List.take_nil]
      | cons c s =>
          have hhead : cells 0 = c := h.chars 0 (Nat.succ_pos _)
          have hc : c ≠ 0 := h.nonzero c List.mem_cons_self
          have htail : Holds (cells ∘ Nat.succ) s := by
            refine ⟨?_, fun d hd => h.nonzero d (List.mem_cons_of_mem c hd), h.nul⟩
            intro j hj
            exact h.chars (j + 1) (Nat.succ_lt_succ hj)
          rw [List.takeWhile_cons_of_pos (by simp [hhead, hc]), hhead, List.take_succ_cons]
          exact congrArg (List.cons c) (ih htail)

/-- A string that fits is read back whole. -/
theorem Holds.text_of_le {cells : Nat → α} {s : List α} {n : Nat} (h : Holds cells s)
    (hn : s.length ≤ n) : text cells n = s := by
  rw [h.text_eq, List.take_of_length_le hn]

/-- A row holds one string. -/
theorem Holds.unique {cells : Nat → α} {s s' : List α} (h : Holds cells s) (h' : Holds cells s') :
    s = s' := by
  rw [← h.text_of_le (Nat.le_max_left s.length s'.length),
    h'.text_of_le (Nat.le_max_right s.length s'.length)]

end Lib.CStr

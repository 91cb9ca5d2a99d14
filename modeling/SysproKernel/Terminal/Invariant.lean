import Mathlib.Tactic.SplitIfs
import SysproKernel.Terminal.Buffer

/-!
# `Terminal.Invariant` — what `putc` does, and the representation invariant

Nothing in `putc` writes a terminator behind an appended character; what keeps every row a string is
the last column, which no operation overwrites with anything but NUL. `State.Ok` says so, together
with the bounds of the cursor. Under it `putc` is the total function `State.next` (`putc_ok`): it
never leaves a row, and scrolling moves every string up by one row.
-/

namespace SysproKernel
namespace Terminal

open Lib.Loop Lib.CStr

/-! ## The invariant -/

/-- The cursor and the sizes are in range, and the last column of every row is NUL. -/
structure State.Ok (t : State) : Prop where
  line_lt : t.curLine < t.nLines
  lines_le : t.nLines ≤ maxLines
  pos_le : t.curPosInLine ≤ t.nCharsInLine
  chars_pos : 0 < t.nCharsInLine
  chars_le : t.nCharsInLine ≤ maxCharsInLine
  nul : ∀ r < maxLines, t.buf r maxCharsInLine = 0

/-- The string each row of a buffer holds. -/
def Strings (buf : Buf) (str : Nat → List Int8) : Prop := ∀ r < maxLines, Holds (buf r) (str r)

theorem State.Ok.exists_strings {t : State} (h : t.Ok) : ∃ str, Strings t.buf str := by
  have hrow : ∀ r, ∃ s, r < maxLines → Holds (t.buf r) s := by
    intro r
    by_cases hr : r < maxLines
    · obtain ⟨s, -, hs⟩ := exists_holds (h.nul r hr)
      exact ⟨s, fun _ => hs⟩
    · exact ⟨[], fun hlt => absurd hlt hr⟩
  choose str hstr using hrow
  exact ⟨str, hstr⟩

theorem State.Ok.length_le {t : State} (h : t.Ok) {str : Nat → List Int8}
    (hstr : Strings t.buf str) {r : Nat} (hr : r < maxLines) : (str r).length ≤ maxCharsInLine :=
  (hstr r hr).length_le (h.nul r hr)

/-! ## Cells -/

theorem readCell_ok {buf : Buf} {row col : Nat} (hr : row < maxLines) (hc : col ≤ maxCharsInLine) :
    readCell buf row col = .ok (buf row col) :=
  if_pos ⟨hr, Nat.lt_succ_of_le hc⟩

theorem writeCell_ok {buf : Buf} {row col : Nat} {c : Int8} (hr : row < maxLines)
    (hc : col ≤ maxCharsInLine) : writeCell buf row col c = .ok (setCell buf row col c) :=
  if_pos ⟨hr, Nat.lt_succ_of_le hc⟩

@[simp] theorem setCell_self (buf : Buf) (row col : Nat) (c : Int8) :
    setCell buf row col c row = Function.update (buf row) col c :=
  Function.update_self _ _ _

theorem setCell_of_ne {buf : Buf} {row col r : Nat} {c : Int8} (h : r ≠ row) :
    setCell buf row col c r = buf r :=
  Function.update_of_ne h _ _

/-! ## `my_strcpy` -/

/-- Copying from character `j` on, `k` characters before the terminator. -/
theorem myStrcpyFrom_ok {dst : Nat} {t : Source} {s : List Int8} (hd : dst < maxLines)
    (hs : ∀ c ∈ s, c ≠ 0) (hlen : s.length ≤ maxCharsInLine) (k : Nat) :
    ∀ (buf : Buf) (j n : Nat), j + k = s.length → k < n →
      (∀ row i, j ≤ i → i ≤ s.length → t (Function.update buf dst row) i = .ok (s.getD i 0)) →
      myStrcpyFrom dst t buf j n = .ok (Function.update buf dst
        (fun i => if j ≤ i ∧ i < s.length then s.getD i 0 else if i = s.length then 0
          else buf dst i)) := by
  induction k with
  | zero =>
      intro buf j n hj hn ht
      obtain ⟨n, rfl⟩ : ∃ n', n = n' + 1 := ⟨n - 1, by omega⟩
      have hread : t buf j = .ok 0 := by
        have h := ht (buf dst) j (Nat.le_refl j) (by omega)
        rwa [Function.update_eq_self, show s.getD j 0 = 0 by simp [show j = s.length by omega]] at h
      rw [myStrcpyFrom, bind_of_ok hread, if_pos rfl, writeCell_ok hd (by omega), setCell]
      refine congrArg (fun row => Except.ok (Function.update buf dst row)) ?_
      funext i
      by_cases hi : i = j
      · rw [hi, Function.update_self, if_neg (by omega), if_pos (by omega)]
      · rw [Function.update_of_ne hi, if_neg (by omega), if_neg (by omega)]
  | succ k ih =>
      intro buf j n hj hn ht
      obtain ⟨n, rfl⟩ : ∃ n', n = n' + 1 := ⟨n - 1, by omega⟩
      have hlt : j < s.length := by omega
      have hread : t buf j = .ok s[j] := by
        have h := ht (buf dst) j (Nat.le_refl j) (by omega)
        rwa [Function.update_eq_self, show s.getD j 0 = s[j] by simp [hlt]] at h
      have hne : s[j] ≠ 0 := hs _ (List.getElem_mem hlt)
      have hrest := ih (setCell buf dst j s[j]) (j + 1) n (by omega) (by omega) (by
        intro row i hji hi
        have h := ht row i (by omega) hi
        rwa [setCell, Function.update_idem])
      rw [myStrcpyFrom, bind_of_ok hread, if_neg hne, bind_of_ok (writeCell_ok hd (by omega)), hrest,
        setCell, Function.update_idem, Function.update_self]
      refine congrArg (fun row => Except.ok (Function.update buf dst row)) ?_
      funext i
      by_cases hi : i = j
      · subst hi
        rw [if_neg (by omega), if_neg (by omega), Function.update_self, if_pos (by omega)]
        simp [hlt]
      · rw [Function.update_of_ne hi]
        by_cases hrange : j ≤ i ∧ i < s.length
        · rw [if_pos hrange, if_pos (by omega)]
        · rw [if_neg hrange, if_neg (by omega)]

/-- **`my_strcpy`** of a string that fits overwrites the row with it. -/
theorem myStrcpy_ok {dst : Nat} {t : Source} {buf : Buf} {s : List Int8} (hd : dst < maxLines)
    (hs : ∀ c ∈ s, c ≠ 0) (hlen : s.length ≤ maxCharsInLine)
    (ht : ∀ row i, i ≤ s.length → t (Function.update buf dst row) i = .ok (s.getD i 0)) :
    myStrcpy dst t buf = .ok (Function.update buf dst (overwrite (buf dst) s)) := by
  have h := myStrcpyFrom_ok hd hs hlen s.length buf 0 (maxCharsInLine + 1) (Nat.zero_add _) (by omega)
    (fun row i _ hi => ht row i hi)
  rw [myStrcpy, h]
  refine congrArg (fun row => Except.ok (Function.update buf dst row)) ?_
  funext i
  simp [overwrite]

/-! ## Scrolling -/

/-- The buffer after the lines have been shifted: each row takes over the string of the next, the last
    row becomes empty. What lay behind the terminators stays. -/
def shiftRows (buf : Buf) (str : Nat → List Int8) (n : Nat) : Buf := fun r =>
  if r + 1 < n then overwrite (buf r) (str (r + 1))
  else if r + 1 = n then overwrite (buf r) []
  else buf r

/-- The buffer after the first `i` iterations of the shifting loop. -/
def shiftedUpTo (buf : Buf) (str : Nat → List Int8) (i : Nat) : Buf := fun r =>
  if r < i then overwrite (buf r) (str (r + 1)) else buf r

theorem shiftLine_ok {t : State} {str : Nat → List Int8} {i : Nat} (h : t.Ok)
    (hstr : Strings t.buf str) (hi : i + 1 < maxLines) :
    myStrcpy i (rowSource (i + 1)) (shiftedUpTo t.buf str i)
      = .ok (shiftedUpTo t.buf str (i + 1)) := by
  have hnext := hstr (i + 1) hi
  have hlen := h.length_le hstr hi
  rw [myStrcpy_ok (s := str (i + 1)) (by omega) hnext.nonzero hlen]
  · refine congrArg Except.ok ?_
    funext r
    unfold shiftedUpTo
    by_cases hr : r = i
    · rw [hr, Function.update_self, if_neg (Nat.lt_irrefl i), if_pos (Nat.lt_succ_self i)]
    · have hlt : r < i + 1 ↔ r < i := by omega
      simp only [Function.update_of_ne hr, hlt]
  · intro row j hj
    -- the source row lies behind the rows done so far
    rw [rowSource, readCell_ok hi (by omega), Function.update_of_ne (by omega), shiftedUpTo,
      if_neg (by omega), hnext.cell hj]

theorem shiftLines_ok {t : State} {str : Nat → List Int8} (h : t.Ok) (hstr : Strings t.buf str) :
    t.shiftLines = .ok (shiftRows t.buf str t.nLines) := by
  have hlines := h.lines_le
  have hpos : 0 < t.nLines := Nat.lt_of_le_of_lt (Nat.zero_le _) h.line_lt
  have hstart : shiftedUpTo t.buf str 0 = t.buf := by
    funext r
    exact if_neg (Nat.not_lt_zero r)
  have hloop := forLoop_eq (n := t.nLines - 1) (shiftedUpTo t.buf str)
    (fun i hi => shiftLine_ok h hstr (i := i) (by omega))
  rw [hstart] at hloop
  rw [State.shiftLines, bind_of_ok hloop,
    myStrcpy_ok (s := []) (by omega) (by simp) (Nat.zero_le _) (fun _ _ _ => rfl)]
  refine congrArg Except.ok ?_
  funext r
  unfold shiftRows shiftedUpTo
  by_cases hr : r = t.nLines - 1
  · rw [hr, Function.update_self, if_neg (by omega), if_neg (by omega), if_pos (by omega)]
  · rw [Function.update_of_ne hr]
    by_cases hlt : r < t.nLines - 1
    · rw [if_pos hlt, if_pos (by omega)]
    · rw [if_neg hlt, if_neg (by omega), if_neg (by omega)]

/-! ## Drawing -/

section Drawing

variable {fb : FrameBuffer} {font : Font}

/-- The writes drawing a text on a line from a column on. -/
def drawText (fb : FrameBuffer) (font : Font) (line : Nat) : Nat → List Int8 → List Write
  | _,   []      => []
  | pos, c :: cs => drawCell fb font c line pos ++ drawText fb font line (pos + 1) cs

theorem redrawRow_ok {t : State} {i : Nat} {s : List Int8} (hi : i < maxLines)
    (hs : Holds (t.buf i) s) (n : Nat) :
    ∀ j, j ≤ s.length → j + n ≤ maxCharsInLine + 1 →
      redrawRow fb font t i j n = .ok (drawText fb font i j ((s.drop j).take n)) := by
  induction n with
  | zero =>
      intro j _ _
      rfl
  | succ n ih =>
      intro j hj hn
      rw [redrawRow, bind_of_ok (readCell_ok hi (by omega)), hs.cell hj]
      by_cases hlt : j < s.length
      · have hne : s.getD j 0 ≠ 0 := by
          rw [← hs.cell hj]
          exact hs.ne_zero hlt
        have hget : s.getD j 0 = s[j] := by simp [hlt]
        rw [if_neg hne, bind_of_ok (ih (j + 1) hlt (by omega)), List.drop_eq_getElem_cons hlt,
          List.take_succ_cons, drawText, hget]
        rfl
      · have hend : j = s.length := by omega
        rw [if_pos (by simp [hend]), hend, List.drop_length, List.take_nil]
        rfl

/-- The writes of `redraw_terminal` up to row `n`, when the rows hold the given strings. -/
def redrawWrites (fb : FrameBuffer) (font : Font) (t : State) (str : Nat → List Int8) (n : Nat) :
    List Write :=
  fill fb colorBlack ++
    (List.range n).flatMap (fun i => drawText fb font i 0 ((str i).take t.nCharsInLine))

theorem redrawWrites_succ (t : State) (str : Nat → List Int8) (n : Nat) :
    redrawWrites fb font t str (n + 1)
      = redrawWrites fb font t str n ++ drawText fb font n 0 ((str n).take t.nCharsInLine) := by
  simp [redrawWrites, List.range_succ, List.flatMap_append, List.append_assoc]

/-- **`redraw_terminal`** stays inside the rows and draws the string of each. -/
theorem redrawTerminal_ok (fb : FrameBuffer) (font : Font) {t : State} {str : Nat → List Int8} (h : t.Ok)
    (hstr : Strings t.buf str) :
    redrawTerminal fb font t = .ok (redrawWrites fb font t str t.nLines) := by
  have hlines := h.lines_le
  have hchars := h.chars_le
  have hstep : ∀ i < t.nLines, (do
      let row ← redrawRow fb font t i 0 t.nCharsInLine
      return redrawWrites fb font t str i ++ row : Except OutOfRow (List Write))
        = .ok (redrawWrites fb font t str (i + 1)) := by
    intro i hi
    rw [bind_of_ok (redrawRow_ok (by omega) (hstr i (by omega)) t.nCharsInLine 0 (Nat.zero_le _)
      (by omega)), redrawWrites_succ]
    rfl
  have hstart : redrawWrites fb font t str 0 = fill fb colorBlack := List.append_nil _
  rw [redrawTerminal, ← hstart]
  exact forLoop_eq (redrawWrites fb font t str) hstep

end Drawing

/-! ## `putc` as a function -/

/-- The call breaks the line and no row is left below. -/
def State.Scrolls (t : State) (c : Int8) : Prop :=
  (c = newline ∨ t.curPosInLine = t.nCharsInLine) ∧ t.curLine + 1 = t.nLines

instance (t : State) (c : Int8) : Decidable (t.Scrolls c) := inferInstanceAs (Decidable (_ ∧ _))

/-- The terminal after a line break. -/
def State.breakLine (t : State) (str : Nat → List Int8) : State :=
  if t.curLine + 1 = t.nLines then
    { t with buf := shiftRows t.buf str t.nLines, curPosInLine := 0 }
  else { t with curLine := t.curLine + 1, curPosInLine := 0 }

/-- The terminal with a character stored at the cursor. -/
def State.append (t : State) (c : Int8) : State :=
  { t with buf := setCell t.buf t.curLine t.curPosInLine c, curPosInLine := t.curPosInLine + 1 }

theorem State.append_row_of_ne {t : State} {c : Int8} {r : Nat} (h : r ≠ t.curLine) :
    (t.append c).buf r = t.buf r :=
  setCell_of_ne h

@[simp] theorem State.append_row (t : State) (c : Int8) :
    (t.append c).buf t.curLine = Function.update (t.buf t.curLine) t.curPosInLine c :=
  setCell_self _ _ _ _

/-- The terminal after `putc`. -/
def State.next (t : State) (str : Nat → List Int8) (c : Int8) : State :=
  if c = newline then t.breakLine str
  else if t.curPosInLine = t.nCharsInLine then (t.breakLine str).append c
  else t.append c

theorem setCell_nul {buf : Buf} {row col r : Nat} {c : Int8} (h : buf r maxCharsInLine = 0)
    (hcol : col < maxCharsInLine) : setCell buf row col c r maxCharsInLine = 0 := by
  by_cases hr : r = row
  · subst hr
    rw [setCell_self, Function.update_of_ne (by omega), h]
  · rw [setCell_of_ne hr, h]

theorem overwrite_last {cells : Nat → Int8} {s : List Int8} (h : cells maxCharsInLine = 0)
    (hlen : s.length ≤ maxCharsInLine) : overwrite cells s maxCharsInLine = 0 := by
  by_cases hs : s.length = maxCharsInLine
  · rw [← hs, overwrite_nul]
  · rw [overwrite_behind (by omega), h]

/-- **Storing a character keeps the invariant**: it never reaches the last column. -/
theorem State.Ok.append {t : State} (h : t.Ok) (c : Int8) (hpos : t.curPosInLine < t.nCharsInLine) :
    (t.append c).Ok where
  line_lt := h.line_lt
  lines_le := h.lines_le
  pos_le := hpos
  chars_pos := h.chars_pos
  chars_le := h.chars_le
  nul r hr := setCell_nul (h.nul r hr) (Nat.lt_of_lt_of_le hpos h.chars_le)

/-- **A line break keeps the invariant**, and leaves the cursor at the start of a line. -/
theorem State.Ok.breakLine {t : State} {str : Nat → List Int8} (h : t.Ok)
    (hstr : Strings t.buf str) : (t.breakLine str).Ok := by
  have hline := h.line_lt
  have hlines := h.lines_le
  unfold State.breakLine
  split_ifs with hlast
  · refine ⟨hline, hlines, Nat.zero_le _, h.chars_pos, h.chars_le, ?_⟩
    intro r hr
    simp only [shiftRows]
    split_ifs with h1 h2
    · exact overwrite_last (h.nul r hr) (h.length_le hstr (by omega))
    · exact overwrite_last (h.nul r hr) (Nat.zero_le _)
    · exact h.nul r hr
  · exact ⟨by simp only; omega, hlines, Nat.zero_le _, h.chars_pos, h.chars_le, h.nul⟩

theorem State.breakLine_sizes (t : State) (str : Nat → List Int8) :
    (t.breakLine str).nLines = t.nLines ∧ (t.breakLine str).nCharsInLine = t.nCharsInLine ∧
      (t.breakLine str).curPosInLine = 0 := by
  unfold State.breakLine
  split_ifs <;> exact ⟨rfl, rfl, rfl⟩

theorem State.Ok.next {t : State} {str : Nat → List Int8} (h : t.Ok) (hstr : Strings t.buf str)
    (c : Int8) : (t.next str c).Ok := by
  unfold State.next
  split_ifs with hc hpos
  · exact h.breakLine hstr
  · obtain ⟨-, hchars, hzero⟩ := t.breakLine_sizes str
    refine (h.breakLine hstr).append c ?_
    rw [hzero, hchars]
    exact h.chars_pos
  · exact h.append c (Nat.lt_of_le_of_ne h.pos_le hpos)

theorem store_ok {t : State} (h : t.Ok) (c : Int8) : t.store c = .ok (t.append c) := by
  have hline := h.line_lt
  have hlines := h.lines_le
  have hpos := h.pos_le
  have hchars := h.chars_le
  rw [State.store, bind_of_ok (writeCell_ok (by omega) (by omega))]
  rfl

/-- **What `putc` does.** It never leaves a row; the terminal becomes `State.next`; a call that scrolls
    redraws everything, any other draws at most the one character. -/
theorem putc_ok (fb : FrameBuffer) (font : Font) {t : State} {str : Nat → List Int8} (h : t.Ok)
    (hstr : Strings t.buf str) (c : Int8) :
    ∃ ws, putc fb font t c = .ok (t.next str c, ws) ∧
      (t.Scrolls c → redrawTerminal fb font (t.next str c) = .ok ws) ∧
      (¬ t.Scrolls c → ws = if c = newline then []
        else drawCell fb font c (t.next str c).curLine ((t.next str c).curPosInLine - 1)) := by
  have hok := h.next hstr c
  by_cases hbreak : c = newline ∨ t.curPosInLine = t.nCharsInLine
  · have hbroken := h.breakLine hstr
    by_cases hlast : t.curLine + 1 = t.nLines
    · have hscrolls : t.Scrolls c := ⟨hbreak, hlast⟩
      have hbuf : { t with buf := shiftRows t.buf str t.nLines, curPosInLine := 0 }
          = t.breakLine str := (if_pos hlast).symm
      obtain ⟨str', hstr'⟩ := hok.exists_strings
      have hdraw := redrawTerminal_ok fb font hok hstr'
      refine ⟨_, ?_, fun _ => hdraw, fun hnot => absurd hscrolls hnot⟩
      rw [putc, if_pos hbreak, if_pos hlast, bind_of_ok (shiftLines_ok h hstr)]
      simp only [pure_bind, hbuf]
      by_cases hc : c = newline
      · have hnext : t.next str c = t.breakLine str := if_pos hc
        rw [hnext] at hdraw ⊢
        rw [if_neg (not_not_intro hc)]
        simp only [if_true, bind_of_ok hdraw]
        rfl
      · have hnext : t.next str c = (t.breakLine str).append c := by
          rw [State.next, if_neg hc, if_pos (hbreak.resolve_left hc)]
        rw [hnext] at hdraw ⊢
        rw [if_pos hc]
        simp only [bind_of_ok (store_ok hbroken c), if_true, bind_of_ok hdraw]
        rfl
    · have hscrolls : ¬ t.Scrolls c := fun hs => hlast hs.2
      have hline : { t with curLine := t.curLine + 1, curPosInLine := 0 } = t.breakLine str :=
        (if_neg hlast).symm
      refine ⟨_, ?_, fun hs => absurd hs hscrolls, fun _ => rfl⟩
      rw [putc, if_pos hbreak, if_neg hlast]
      simp only [pure_bind, hline]
      by_cases hc : c = newline
      · have hnext : t.next str c = t.breakLine str := if_pos hc
        rw [hnext, if_neg (not_not_intro hc), if_pos hc]
        rfl
      · have hnext : t.next str c = (t.breakLine str).append c := by
          rw [State.next, if_neg hc, if_pos (hbreak.resolve_left hc)]
        have hcell : drawCell fb font c (t.curLine + 1) 0 = drawCell fb font c
            ((t.breakLine str).append c).curLine (((t.breakLine str).append c).curPosInLine - 1) := by
          rw [← hline]
          rfl
        rw [hnext, if_pos hc, if_neg hc, bind_of_ok (store_ok hbroken c), ← hcell]
        simp only [Bool.false_eq_true, if_false]
        rfl
  · have hscrolls : ¬ t.Scrolls c := fun hs => hbreak hs.1
    have hc : c ≠ newline := fun hc => hbreak (Or.inl hc)
    have hnext : t.next str c = t.append c := by
      rw [State.next, if_neg hc, if_neg (fun hpos => hbreak (Or.inr hpos))]
    refine ⟨_, ?_, fun hs => absurd hs hscrolls, fun _ => rfl⟩
    rw [putc, if_neg hbreak, bind_of_ok (store_ok h c), hnext, if_neg hc]
    rfl

/-! ## Runs -/

/-- **Run rule.** A relation between the characters so far, the terminal and the writes that every call
    of `putc` extends holds after every run, and the run never leaves a row. -/
theorem putcs_run {fb : FrameBuffer} {font : Font} {R : List Int8 → State → List Write → Prop}
    {Char : Int8 → Prop}
    (hstep : ∀ cs t ws c, Char c → R cs t ws →
      ∃ t' ws', putc fb font t c = .ok (t', ws') ∧ R (cs ++ [c]) t' (ws ++ ws')) :
    ∀ (cs before : List Int8) (t : State) (ws : List Write), R before t ws → (∀ c ∈ cs, Char c) →
      ∃ t' ws', putcs fb font t cs = .ok (t', ws') ∧ R (before ++ cs) t' (ws ++ ws') := by
  intro cs
  induction cs with
  | nil =>
      intro before t ws h _
      exact ⟨t, [], rfl, by simpa using h⟩
  | cons c cs ih =>
      intro before t ws h hchars
      obtain ⟨t₁, ws₁, hputc, h₁⟩ := hstep before t ws c (hchars c List.mem_cons_self) h
      obtain ⟨t₂, ws₂, hputcs, h₂⟩ := ih (before ++ [c]) t₁ (ws ++ ws₁) h₁
        (fun d hd => hchars d (List.mem_cons_of_mem c hd))
      refine ⟨t₂, ws₁ ++ ws₂, ?_, ?_⟩
      · rw [putcs, bind_of_ok hputc]
        simp only [bind_of_ok hputcs]
        rfl
      · rwa [List.append_assoc, List.append_assoc] at h₂

theorem clamp_bounds {n k : Nat} (hn : 0 < n) (hk : 0 < k) :
    0 < (if n > k then k else n) ∧ (if n > k then k else n) ≤ k := by
  split_ifs with h
  · exact ⟨hk, Nat.le_refl k⟩
  · exact ⟨hn, Nat.le_of_not_gt h⟩

/-- `init_draw` establishes the invariant on every frame buffer that has room for a character. -/
theorem initDraw_ok {fb : FrameBuffer} (hw : 8 ≤ fb.width) (hh : 8 ≤ fb.height) :
    (initDraw fb .start).1.Ok := by
  obtain ⟨hline, hlines⟩ := clamp_bounds (k := maxLines)
    (Nat.div_pos hh (by decide) : 0 < fb.height / fontHeight) (by decide)
  obtain ⟨hchar, hchars⟩ := clamp_bounds (k := maxCharsInLine)
    (Nat.div_pos hw (by decide) : 0 < fb.width / fontWidth) (by decide)
  exact ⟨hline, hlines, Nat.zero_le _, hchar, hchars, fun _ _ => rfl⟩

/-- The visible text of a row. -/
def State.visible (t : State) (i : Nat) : List Int8 := text (t.buf i) t.nCharsInLine

theorem State.next_sizes (t : State) (str : Nat → List Int8) (c : Int8) :
    (t.next str c).nLines = t.nLines ∧ (t.next str c).nCharsInLine = t.nCharsInLine := by
  obtain ⟨hlines, hchars, -⟩ := t.breakLine_sizes str
  unfold State.next
  split_ifs
  · exact ⟨hlines, hchars⟩
  · exact ⟨hlines, hchars⟩
  · exact ⟨rfl, rfl⟩

/-- Scrolling overwrites every row but the last with the string of the next. -/
theorem State.next_row {t : State} {str : Nat → List Int8} {c : Int8} {i : Nat}
    (hs : t.Scrolls c) (hi : i + 1 < t.nLines) :
    (t.next str c).buf i = overwrite (t.buf i) (str (i + 1)) := by
  have hlast := hs.2
  have hbuf : (t.breakLine str).buf i = overwrite (t.buf i) (str (i + 1)) := by
    rw [State.breakLine, if_pos hlast]
    exact if_pos hi
  have hline : (t.breakLine str).curLine = t.curLine := by rw [State.breakLine, if_pos hlast]
  unfold State.next
  split_ifs with hc hpos
  · exact hbuf
  · rw [State.append_row_of_ne (by omega), hbuf]
  · exact absurd (hs.1.resolve_left hc) hpos

theorem scroll_visible {t : State} {str : Nat → List Int8} {c : Int8} {i : Nat} (h : t.Ok)
    (hstr : Strings t.buf str) (hs : t.Scrolls c) (hi : i + 1 < t.nLines) :
    (t.next str c).visible i = t.visible (i + 1) := by
  have hlines := h.lines_le
  have hnext := hstr (i + 1) (by omega)
  rw [State.visible, State.visible, (t.next_sizes str c).2, State.next_row hs hi, hnext.text_eq,
    (holds_overwrite hnext.nonzero).text_eq]

/-- **Representation invariant.** After any characters: the cursor and the sizes are in range, the last
    column is NUL, redrawing and any further `putc` stay inside the rows, and a `putc` that scrolls
    moves every visible text up by one row. -/
theorem representation_invariant (fb : FrameBuffer) (font : Font) (hw : 8 ≤ fb.width)
    (hh : 8 ≤ fb.height) (cs : List Int8) :
    ∃ t ws, putcs fb font (initDraw fb .start).1 cs = .ok (t, ws) ∧
      t.curLine < t.nLines ∧ t.nLines ≤ maxLines ∧
      t.curPosInLine ≤ t.nCharsInLine ∧ t.nCharsInLine ≤ maxCharsInLine ∧
      (∀ r < maxLines, t.buf r maxCharsInLine = 0) ∧
      (∃ ws', redrawTerminal fb font t = .ok ws') ∧
      ∀ c, ∃ t' ws', putc fb font t c = .ok (t', ws') ∧
        (t.Scrolls c → ∀ i, i + 1 < t.nLines → t'.visible i = t.visible (i + 1)) := by
  have hstep : ∀ (cs : List Int8) (t : State) (ws : List Write) (c : Int8), True → t.Ok →
      ∃ t' ws', putc fb font t c = .ok (t', ws') ∧ t'.Ok := by
    intro _ t _ c _ h
    obtain ⟨str, hstr⟩ := h.exists_strings
    obtain ⟨ws', hputc, -⟩ := putc_ok fb font h hstr c
    exact ⟨_, ws', hputc, h.next hstr c⟩
  obtain ⟨t, ws, hrun, h⟩ := putcs_run (R := fun _ t _ => t.Ok) hstep cs [] _ []
    (initDraw_ok hw hh) (fun _ _ => trivial)
  obtain ⟨str, hstr⟩ := h.exists_strings
  refine ⟨t, ws, hrun, h.line_lt, h.lines_le, h.pos_le, h.chars_le, h.nul,
    ⟨_, redrawTerminal_ok fb font h hstr⟩, ?_⟩
  intro c
  obtain ⟨ws', hputc, -⟩ := putc_ok fb font h hstr c
  exact ⟨_, ws', hputc, fun hs i hi => scroll_visible h hstr hs hi⟩

/-- The invariant after "A\nB" on the smallest frame buffer. -/
theorem representation_invariant_smallest :
    ∃ t ws, putcs { base := 0, width := 8, height := 8 } font
        (initDraw { base := 0, width := 8, height := 8 } .start).1 [65, newline, 66] = .ok (t, ws) ∧
      t.curLine < t.nLines ∧ t.buf 0 maxCharsInLine = 0 := by
  obtain ⟨t, ws, hrun, hline, -, -, -, hnul, -⟩ :=
    representation_invariant { base := 0, width := 8, height := 8 } font (by decide) (by decide)
      [65, newline, 66]
  exact ⟨t, ws, hrun, hline, hnul 0 (by decide)⟩

end Terminal
end SysproKernel

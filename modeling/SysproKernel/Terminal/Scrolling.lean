import Mathlib.Data.List.GetD
import Mathlib.Data.List.Induction
import SysproKernel.Terminal.Invariant

/-!
# `Terminal.Scrolling` — the buffer against a scrolling text terminal

The reference terminal lays the text out into lines and shows the last ones. `terminal_buf` shows
something else: scrolling clears the last row by storing one NUL at its start, and appending never
stores a terminator, so as soon as a new line has a character the rest of the row comes back. What comes
back is `residue`: the overlay of all earlier lines of the last row. `Sim` ties the buffer to the
layout with its residue; `visible_text_iff` reads off when nothing comes back.
-/

namespace SysproKernel
namespace Terminal

open Lib.CStr

/-! ## The reference -/

/-- A text laid out into lines: the finished lines, the current one, and whether the current line was
    started because the previous one was full. -/
structure Layout where
  done : List (List Int8)
  cur : List Int8
  wrapped : Bool
  deriving DecidableEq, Repr

namespace Layout

def start : Layout := { done := [], cur := [], wrapped := false }

/-- The next character: lines are broken at `'\n'` and before a character too many. -/
def add (n : Nat) (s : Layout) (c : Int8) : Layout :=
  if c = newline then { done := s.done ++ [s.cur], cur := [], wrapped := false }
  else if s.cur.length = n then { done := s.done ++ [s.cur], cur := [c], wrapped := true }
  else { s with cur := s.cur ++ [c] }

def lines (s : Layout) : List (List Int8) := s.done ++ [s.cur]

end Layout

/-- The layout of a text into lines of at most `n` characters. -/
def layout (n : Nat) (cs : List Int8) : Layout := cs.foldl (Layout.add n) Layout.start

theorem layout_snoc (n : Nat) (cs : List Int8) (c : Int8) :
    layout n (cs ++ [c]) = (layout n cs).add n c := by
  simp [layout]

/-- Row `r` of a screen of `n` rows showing the last lines. -/
def referenceRow (n : Nat) (lines : List (List Int8)) (r : Nat) : List Int8 :=
  lines.getD (lines.length - n + r) []

/-! ## What the last row keeps -/

/-- A line written over an older text. -/
def overlay (l old : List Int8) : List Int8 := l ++ old.drop l.length

/-- What the last row of `n` rows has kept of the lines finished so far. -/
def residue (n : Nat) (done : List (List Int8)) : List Int8 :=
  (done.drop (n - 1)).foldl (fun old l => overlay l old) []

/-- The text a row shows for the line `l` over an older text. -/
def shown (l old : List Int8) : List Int8 := if l = [] then [] else overlay l old

/-- The text a row shows for line `i`. -/
def shownLine (n : Nat) (lines : List (List Int8)) (i : Nat) : List Int8 :=
  shown (lines.getD i []) (residue n (lines.take i))

theorem overlay_length (l old : List Int8) : (overlay l old).length = max l.length old.length := by
  simp only [overlay, List.length_append, List.length_drop]
  omega

theorem overlay_getD {l old : List Int8} {j : Nat} :
    (overlay l old).getD j 0 = if j < l.length then l.getD j 0 else old.getD j 0 := by
  simp only [overlay, List.getD_eq_getElem?_getD]
  split_ifs with hj
  · rw [List.getElem?_append_left hj]
  · rw [List.getElem?_append_right (by omega), List.getElem?_drop,
      Nat.add_sub_cancel' (Nat.le_of_not_lt hj)]

theorem take_getD {lines : List (List Int8)} {i j : Nat} (h : j < i) :
    (lines.take i).getD j [] = lines.getD j [] := by
  simp [h]

/-- The residue before the last row is reached is empty. -/
theorem residue_eq_nil {n : Nat} {done : List (List Int8)} (h : done.length + 1 ≤ n) :
    residue n done = [] := by
  rw [residue, List.drop_eq_nil_of_le (by omega)]
  rfl

/-- Each line finished in the last row is laid over what was there. -/
theorem residue_snoc {n : Nat} {done : List (List Int8)} {l : List Int8} (h : n ≤ done.length + 1) :
    residue n (done ++ [l]) = overlay l (residue n done) := by
  rw [residue, residue, List.drop_append_of_le_length (by omega), List.foldl_append]
  rfl

/-- The residue is as long as the longest line laid over the last row. -/
theorem residue_length_le {n k : Nat} {done : List (List Int8)} :
    (residue n done).length ≤ k ↔
      ∀ j, n - 1 ≤ j → j < done.length → (done.getD j []).length ≤ k := by
  induction done using List.reverseRecOn with
  | nil => simp [residue]
  | append_singleton done l ih =>
      by_cases h : n ≤ done.length + 1
      · rw [residue_snoc h, overlay_length, Nat.max_le, ih, List.length_append, List.length_singleton]
        constructor
        · rintro ⟨hl, hall⟩ j hlo hj
          by_cases hlast : j = done.length
          · simpa [hlast] using hl
          · have := hall j hlo (by omega)
            rwa [List.getD_append _ _ _ _ (by omega)]
        · intro hall
          refine ⟨by simpa using hall done.length (by omega) (by omega), ?_⟩
          intro j hlo hj
          have := hall j hlo (by omega)
          rwa [List.getD_append _ _ _ _ hj] at this
      · rw [residue_eq_nil (by simp; omega)]
        simp only [List.length_nil, Nat.zero_le, true_iff, List.length_append, List.length_singleton]
        intro j hlo hj
        omega

/-- A line is shown as it is exactly when nothing of the older text reaches past it. -/
theorem shown_eq_self {l old : List Int8} : shown l old = l ↔ l = [] ∨ old.length ≤ l.length := by
  unfold shown
  split_ifs with h
  · simp [h]
  · simp [overlay, h, List.drop_eq_nil_iff]

theorem mem_residue {n : Nat} {done : List (List Int8)} {c : Int8} (h : c ∈ residue n done) :
    ∃ l ∈ done, c ∈ l := by
  induction done using List.reverseRecOn with
  | nil => simp [residue] at h
  | append_singleton done l ih =>
      by_cases hn : n ≤ done.length + 1
      · rw [residue_snoc hn] at h
        rcases List.mem_append.mp h with h | h
        · exact ⟨l, by simp, h⟩
        · obtain ⟨l', hl', hc⟩ := ih (List.mem_of_mem_drop h)
          exact ⟨l', List.mem_append_left _ hl', hc⟩
      · rw [residue_eq_nil (by simp; omega)] at h
        cases h

/-- Finishing another line does not change what is shown of the earlier ones. -/
theorem shownLine_append {n i : Nat} {done rest : List (List Int8)} (h : i < done.length) :
    shownLine n (done ++ rest) i = shownLine n done i := by
  rw [shownLine, shownLine, List.getD_append _ _ _ _ h, List.take_append_of_le_length (by omega)]

theorem shownLine_last (n : Nat) (done : List (List Int8)) (l : List Int8) :
    shownLine n (done ++ [l]) done.length = shown l (residue n done) := by
  simp [shownLine]

/-! ## The simulation -/

/-- The cells of the current row: the current line, and behind it the residue, whose first character
    the scroll has replaced by NUL. -/
def currentRow (cur old : List Int8) : Nat → Int8 := fun j =>
  if j < cur.length then cur.getD j 0 else if j = 0 then 0 else old.getD j 0

theorem currentRow_nil_nil : currentRow [] [] = fun _ => 0 := by
  funext j
  simp [currentRow]

/-- The current row holds the line with what sticks out of the residue behind it. -/
theorem holds_currentRow {cur old : List Int8} (hcur : ∀ c ∈ cur, c ≠ 0) (hold : ∀ c ∈ old, c ≠ 0) :
    Holds (currentRow cur old) (shown cur old) := by
  unfold shown
  split_ifs with h
  · subst h
    exact holds_nil rfl
  · have hpos : 0 < cur.length := List.length_pos_iff.mpr h
    have hcell : ∀ j, currentRow cur old j = (overlay cur old).getD j 0 := by
      intro j
      rw [currentRow, overlay_getD]
      split_ifs with hj h0
      · rfl
      · omega
      · rfl
    refine ⟨?_, ?_, ?_⟩
    · intro j hj
      rw [hcell]
      simp [hj]
    · intro c hc
      rcases List.mem_append.mp hc with hc | hc
      · exact hcur c hc
      · exact hold c (List.mem_of_mem_drop hc)
    · rw [hcell]
      simp

/-- **The simulation.** The cursor is where the layout ends; the rows above show the lines before it,
    the current row holds the current line over its residue, the rows below are untouched. -/
structure Sim (t : State) (s : Layout) : Prop where
  ok : t.Ok
  line : t.curLine = min s.done.length (t.nLines - 1)
  pos : t.curPosInLine = s.cur.length
  current : t.buf t.curLine = currentRow s.cur (residue t.nLines s.done)
  above : ∀ r < t.curLine,
    Holds (t.buf r) (shownLine t.nLines s.done (s.done.length - t.curLine + r))
  below : ∀ r, t.curLine < r → r < t.nLines → t.buf r = fun _ => 0
  fits : ∀ l ∈ s.lines, l.length ≤ t.nCharsInLine ∧ ∀ c ∈ l, c ≠ 0

theorem Sim.residue_nonzero {t : State} {s : Layout} (h : Sim t s) :
    ∀ c ∈ residue t.nLines s.done, c ≠ 0 := by
  intro c hc
  obtain ⟨l, hl, hc⟩ := mem_residue hc
  exact (h.fits l (List.mem_append_left _ hl)).2 c hc

/-- The current row holds what the reader sees of the current line. -/
theorem Sim.holds_current {t : State} {s : Layout} (h : Sim t s) :
    Holds (t.buf t.curLine) (shown s.cur (residue t.nLines s.done)) := by
  rw [h.current]
  exact holds_currentRow (h.fits s.cur (by simp [Layout.lines])).2 h.residue_nonzero

theorem sim_start {fb : FrameBuffer} (hw : 8 ≤ fb.width) (hh : 8 ≤ fb.height) :
    Sim (initDraw fb .start).1 Layout.start where
  ok := initDraw_ok hw hh
  line := by
    show 0 = min 0 _
    rw [Nat.zero_min]
  pos := rfl
  current := by
    rw [residue_eq_nil (initDraw_ok hw hh).line_lt]
    exact currentRow_nil_nil.symm
  above r hr := absurd hr (Nat.not_lt_zero r)
  below _ _ _ := rfl
  fits l hl := by
    obtain rfl : l = [] := by simpa [Layout.lines, Layout.start] using hl
    exact ⟨Nat.zero_le _, by simp⟩

/-- **A line break** finishes the current line. -/
theorem Sim.breakLine {t : State} {s : Layout} {str : Nat → List Int8} (h : Sim t s)
    (hstr : Strings t.buf str) (w : Bool) :
    Sim (t.breakLine str) { done := s.done ++ [s.cur], cur := [], wrapped := w } := by
  have hline := h.line
  have hlt := h.ok.line_lt
  have hok := h.ok.breakLine hstr
  have hlen : (s.done ++ [s.cur]).length = s.done.length + 1 := by simp
  have hfits : ∀ l ∈ (s.done ++ [s.cur]) ++ [[]], l.length ≤ t.nCharsInLine ∧ ∀ c ∈ l, c ≠ 0 := by
    intro l hl
    rcases List.mem_append.mp hl with hl | hl
    · exact h.fits l hl
    · obtain rfl := List.mem_singleton.mp hl
      exact ⟨Nat.zero_le _, by simp⟩
  by_cases hlast : t.curLine + 1 = t.nLines
  · -- the line scrolls: row `r` takes over what row `r + 1` held
    rw [State.breakLine, if_pos hlast] at hok ⊢
    have hkeep : t.nLines ≤ s.done.length + 1 := by omega
    refine ⟨hok, ?_, rfl, ?_, ?_, ?_, hfits⟩
    · show t.curLine = min (s.done ++ [s.cur]).length (t.nLines - 1)
      omega
    · show shiftRows t.buf str t.nLines t.curLine = currentRow [] (residue t.nLines (s.done ++ [s.cur]))
      rw [shiftRows, if_neg (by omega), if_pos hlast, overwrite_nil, h.current, residue_snoc hkeep]
      funext j
      by_cases hj : j = 0
      · subst hj
        rw [Function.update_self]
        rfl
      · rw [Function.update_of_ne hj]
        simp only [currentRow, overlay_getD, List.length_nil, Nat.not_lt_zero, hj, if_false]
    · intro r hr
      have hr' : r + 1 < t.nLines := by
        have : r < t.curLine := hr
        omega
      show Holds (shiftRows t.buf str t.nLines r)
        (shownLine t.nLines (s.done ++ [s.cur]) ((s.done ++ [s.cur]).length - t.curLine + r))
      have hindex : (s.done ++ [s.cur]).length - t.curLine + r
          = s.done.length - t.curLine + (r + 1) := by omega
      have hbelow : Holds (t.buf (r + 1))
          (shownLine t.nLines (s.done ++ [s.cur]) (s.done.length - t.curLine + (r + 1))) := by
        by_cases hcur : r + 1 = t.curLine
        · have hidx : s.done.length - t.curLine + (r + 1) = s.done.length := by omega
          rw [hidx, shownLine_last, hcur]
          exact h.holds_current
        · rw [shownLine_append (by omega)]
          exact h.above (r + 1) (by omega)
      have hsame := (hstr (r + 1) (by have := h.ok.lines_le; omega)).unique hbelow
      rw [shiftRows, if_pos hr', hindex, hsame]
      exact holds_overwrite hbelow.nonzero
    · intro r hr hn
      have : t.curLine < r := hr
      have : r < t.nLines := hn
      omega
  · -- the cursor moves down to a row that is still empty
    have hdone : s.done.length = t.curLine := by omega
    rw [State.breakLine, if_neg hlast] at hok ⊢
    refine ⟨hok, ?_, rfl, ?_, ?_, ?_, hfits⟩
    · show t.curLine + 1 = min (s.done ++ [s.cur]).length (t.nLines - 1)
      omega
    · show t.buf (t.curLine + 1) = currentRow [] (residue t.nLines (s.done ++ [s.cur]))
      rw [residue_eq_nil (by omega), currentRow_nil_nil]
      exact h.below (t.curLine + 1) (by omega) (by omega)
    · intro r hr
      have hr' : r < t.curLine + 1 := hr
      show Holds (t.buf r)
        (shownLine t.nLines (s.done ++ [s.cur]) ((s.done ++ [s.cur]).length - (t.curLine + 1) + r))
      have hindex : (s.done ++ [s.cur]).length - (t.curLine + 1) + r = r := by omega
      rw [hindex]
      by_cases hcur : r = t.curLine
      · rw [hcur, ← hdone, shownLine_last, hdone]
        exact h.holds_current
      · have hsame : shownLine t.nLines (s.done ++ [s.cur]) r = shownLine t.nLines s.done r :=
          shownLine_append (by omega)
        have habove := h.above r (by omega)
        rwa [show s.done.length - t.curLine + r = r by omega, ← hsame] at habove
    · intro r hr hn
      have hr' : t.curLine + 1 < r := hr
      exact h.below r (by omega) hn

/-- **An appended character** extends the current line. -/
theorem Sim.append {t : State} {s : Layout} {c : Int8} (h : Sim t s) (hc : c ≠ 0)
    (hpos : s.cur.length < t.nCharsInLine) : Sim (t.append c) { s with cur := s.cur ++ [c] } where
  ok := h.ok.append c (h.pos ▸ hpos)
  line := h.line
  pos := by
    show t.curPosInLine + 1 = _
    rw [h.pos, List.length_append, List.length_singleton]
  current := by
    show (t.append c).buf t.curLine = _
    rw [State.append_row, h.current, h.pos]
    funext j
    by_cases hj : j = s.cur.length
    · subst hj
      rw [Function.update_self]
      simp [currentRow]
    · rw [Function.update_of_ne hj, currentRow, currentRow, List.length_append,
        List.length_singleton]
      by_cases hlt : j < s.cur.length
      · rw [if_pos hlt, if_pos (by omega), List.getD_append _ _ _ _ hlt]
      · have hlt' : ¬ j < s.cur.length + 1 := by omega
        simp only [if_neg hlt, if_neg hlt']
        rfl
  above r hr := by
    rw [State.append_row_of_ne (t := t) (Nat.ne_of_lt hr)]
    exact h.above r hr
  below r hr hn := by
    rw [State.append_row_of_ne (t := t) (Nat.ne_of_gt hr)]
    exact h.below r hr hn
  fits l hl := by
    rcases List.mem_append.mp hl with hl | hl
    · exact h.fits l (List.mem_append_left _ hl)
    · obtain rfl := List.mem_singleton.mp hl
      refine ⟨?_, ?_⟩
      · rw [List.length_append, List.length_singleton]
        exact hpos
      intro d hd
      rcases List.mem_append.mp hd with hd | hd
      · exact (h.fits s.cur (by simp [Layout.lines])).2 d hd
      · rw [List.mem_singleton.mp hd]
        exact hc

/-- **The simulation step**: `putc` advances the layout by its character. -/
theorem Sim.next {t : State} {s : Layout} {str : Nat → List Int8} {c : Int8} (h : Sim t s)
    (hstr : Strings t.buf str) (hc : c ≠ 0) : Sim (t.next str c) (s.add t.nCharsInLine c) := by
  have hpos := h.pos
  have hle := h.ok.pos_le
  unfold State.next Layout.add
  by_cases hnew : c = newline
  · rw [if_pos hnew, if_pos hnew]
    exact h.breakLine hstr false
  · rw [if_neg hnew, if_neg hnew]
    by_cases hfull : t.curPosInLine = t.nCharsInLine
    · rw [if_pos hfull, if_pos (hpos ▸ hfull)]
      refine (h.breakLine hstr true).append hc ?_
      rw [(t.breakLine_sizes str).2.1]
      exact h.ok.chars_pos
    · rw [if_neg hfull, if_neg (hpos ▸ hfull)]
      exact h.append hc (by omega)

theorem Sim.line_length {t : State} {s : Layout} (h : Sim t s) (j : Nat) :
    (s.lines.getD j []).length ≤ t.nCharsInLine := by
  by_cases hj : j < s.lines.length
  · have hmem : s.lines.getD j [] ∈ s.lines := by simp [hj]
    exact (h.fits _ hmem).1
  · simp [Nat.le_of_not_lt hj]

theorem Sim.residue_length {t : State} {s : Layout} (h : Sim t s) (i : Nat) :
    (residue t.nLines (s.lines.take i)).length ≤ t.nCharsInLine := by
  rw [residue_length_le]
  intro j _ hj
  rw [List.length_take] at hj
  rw [take_getD (by omega)]
  exact h.line_length j

/-- Everything shown fits the line. -/
theorem Sim.shownLine_length {t : State} {s : Layout} (h : Sim t s) (i : Nat) :
    (shownLine t.nLines s.lines i).length ≤ t.nCharsInLine := by
  unfold shownLine shown
  split_ifs
  · exact Nat.zero_le _
  · rw [overlay_length]
    exact Nat.max_le.mpr ⟨h.line_length i, h.residue_length i⟩

/-- What row `r` of the terminal shows. -/
theorem Sim.visible_row {t : State} {s : Layout} (h : Sim t s) {r : Nat} (hr : r < t.nLines) :
    t.visible r =
      if s.lines.length - t.nLines + r < s.lines.length then
        shownLine t.nLines s.lines (s.lines.length - t.nLines + r)
      else [] := by
  have hline := h.line
  have hlt := h.ok.line_lt
  have hlen : s.lines.length = s.done.length + 1 := by simp [Layout.lines]
  have hbase : s.lines.length - t.nLines = s.done.length - t.curLine := by omega
  have hsize := h.shownLine_length
  rcases Nat.lt_trichotomy r t.curLine with hr' | hr' | hr'
  · rw [if_pos (by omega)]
    have hrow : Holds (t.buf r) (shownLine t.nLines s.lines (s.lines.length - t.nLines + r)) := by
      rw [hbase, Layout.lines, shownLine_append (by omega)]
      exact h.above r hr'
    exact hrow.text_of_le (hsize _)
  · rw [if_pos (by omega)]
    have hindex : s.lines.length - t.nLines + r = s.done.length := by omega
    have hrow : Holds (t.buf r) (shownLine t.nLines s.lines (s.lines.length - t.nLines + r)) := by
      rw [hindex, Layout.lines, shownLine_last, hr']
      exact h.holds_current
    exact hrow.text_of_le (hsize _)
  · rw [if_neg (by omega)]
    have hrow : Holds (t.buf r) [] := by
      rw [h.below r hr' hr]
      exact holds_nil rfl
    exact hrow.text_of_le (Nat.zero_le _)

/-! ## When the buffer is the reference -/

/-- No line on the screen is shorter than a line laid out in the last row before it, unless it is
    empty. -/
def NothingLeftOver (n : Nat) (lines : List (List Int8)) : Prop :=
  ∀ i < lines.length, lines.length ≤ i + n → lines.getD i [] ≠ [] →
    ∀ j < i, n - 1 ≤ j → (lines.getD j []).length ≤ (lines.getD i []).length

instance (n : Nat) (lines : List (List Int8)) : Decidable (NothingLeftOver n lines) :=
  inferInstanceAs (Decidable (∀ i < lines.length, lines.length ≤ i + n → lines.getD i [] ≠ [] →
    ∀ j < i, n - 1 ≤ j → (lines.getD j []).length ≤ (lines.getD i []).length))

/-- A line is shown as it is exactly when no earlier line of the last row is longer. -/
theorem shownLine_eq_self {n i : Nat} {lines : List (List Int8)} (hi : i < lines.length) :
    shownLine n lines i = lines.getD i [] ↔
      (lines.getD i [] ≠ [] →
        ∀ j < i, n - 1 ≤ j → (lines.getD j []).length ≤ (lines.getD i []).length) := by
  have hlen : (lines.take i).length = i := by
    rw [List.length_take]
    omega
  rw [shownLine, shown_eq_self, residue_length_le, hlen, or_iff_not_imp_left]
  constructor
  · intro h hne j hj hlo
    rw [← take_getD hj]
    exact h hne j hlo hj
  · intro h hne j hlo hj
    rw [take_getD hj]
    exact h hne j hj hlo

theorem Sim.visible_iff {t : State} {s : Layout} (h : Sim t s) :
    (∀ r < t.nLines, t.visible r = referenceRow t.nLines s.lines r) ↔
      NothingLeftOver t.nLines s.lines := by
  have hpos : 0 < t.nLines := Nat.lt_of_le_of_lt (Nat.zero_le _) h.ok.line_lt
  constructor
  · intro hall i hi hbase
    obtain ⟨r, hr⟩ : ∃ r, s.lines.length - t.nLines + r = i :=
      ⟨i - (s.lines.length - t.nLines), by omega⟩
    have hrow := hall r (by omega)
    rw [h.visible_row (by omega), hr, if_pos hi, referenceRow, hr] at hrow
    exact (shownLine_eq_self hi).mp hrow
  · intro hnothing r hr
    rw [h.visible_row hr, referenceRow]
    split_ifs with hi
    · exact (shownLine_eq_self hi).mpr (hnothing _ hi (by omega))
    · simp [Nat.le_of_not_lt hi]

/-- The terminal `init_draw` leaves on a frame buffer. -/
abbrev FrameBuffer.terminal (fb : FrameBuffer) : State := (initDraw fb .start).1

/-- The terminal reached on a frame buffer by printing some characters. -/
structure Reached (fb : FrameBuffer) (cs : List Int8) (t : State) : Prop where
  lines : t.nLines = fb.terminal.nLines
  chars : t.nCharsInLine = fb.terminal.nCharsInLine
  sim : Sim t (layout fb.terminal.nCharsInLine cs)

theorem reached_start {fb : FrameBuffer} (hw : 8 ≤ fb.width) (hh : 8 ≤ fb.height) :
    Reached fb [] fb.terminal :=
  ⟨rfl, rfl, sim_start hw hh⟩

theorem Reached.next {fb : FrameBuffer} {cs : List Int8} {t : State} {str : Nat → List Int8}
    {c : Int8} (h : Reached fb cs t) (hstr : Strings t.buf str) (hc : c ≠ 0) :
    Reached fb (cs ++ [c]) (t.next str c) := by
  obtain ⟨hlines, hchars⟩ := t.next_sizes str c
  refine ⟨hlines.trans h.lines, hchars.trans h.chars, ?_⟩
  rw [layout_snoc]
  exact h.chars ▸ h.sim.next hstr hc

/-- **The buffer against the reference.** After any text, every row shows the reference's row exactly
    when no line on the screen is shorter than a line laid out in the last row before it, unless it is
    empty: otherwise the end of the longer line comes back behind it. -/
theorem visible_text_iff (fb : FrameBuffer) (font : Font) (hw : 8 ≤ fb.width) (hh : 8 ≤ fb.height)
    (cs : List Int8) (hcs : ∀ c ∈ cs, c ≠ 0) :
    ∃ t ws, putcs fb font fb.terminal cs = .ok (t, ws) ∧ t.nLines = fb.terminal.nLines ∧
      ((∀ r < t.nLines,
          t.visible r = referenceRow t.nLines (layout fb.terminal.nCharsInLine cs).lines r) ↔
        NothingLeftOver fb.terminal.nLines (layout fb.terminal.nCharsInLine cs).lines) := by
  have hstep : ∀ cs t (ws : List Write) c, c ≠ 0 → Reached fb cs t →
      ∃ t' ws', putc fb font t c = .ok (t', ws') ∧ Reached fb (cs ++ [c]) t' := by
    intro cs t _ c hc h
    obtain ⟨str, hstr⟩ := h.sim.ok.exists_strings
    obtain ⟨ws', hputc, -⟩ := putc_ok fb font h.sim.ok hstr c
    exact ⟨_, ws', hputc, h.next hstr hc⟩
  obtain ⟨t, ws, hrun, h⟩ := putcs_run (R := fun cs t _ => Reached fb cs t) hstep cs [] _ []
    (reached_start hw hh) hcs
  refine ⟨t, ws, hrun, h.lines, ?_⟩
  rw [← h.lines]
  exact h.sim.visible_iff

/-- A screen of two lines of two characters, scrolled once by a third line longer than the second. -/
theorem visible_text_scrolled :
    ∃ t ws, putcs { base := 0, width := 16, height := 16 } font
        (FrameBuffer.terminal { base := 0, width := 16, height := 16 })
        [65, newline, 66, newline, 67, 68] = .ok (t, ws) ∧
      (∀ r < t.nLines, t.visible r = referenceRow t.nLines [[65], [66], [67, 68]] r) := by
  obtain ⟨t, ws, hrun, -, hiff⟩ :=
    visible_text_iff { base := 0, width := 16, height := 16 } font (by decide) (by decide)
      [65, newline, 66, newline, 67, 68] (by simp [newline])
  exact ⟨t, ws, hrun, hiff.mpr (by decide)⟩

/-- One row of two characters: after "AB" and a line break, "A" brings the B back. -/
theorem stale_character_visible :
    (putcs { base := 0, width := 16, height := 8 } font
        (FrameBuffer.terminal { base := 0, width := 16, height := 8 })
        [65, 66, newline, 65]).toOption.map (fun r => r.1.visible 0) = some [65, 66] ∧
      referenceRow 1 (layout 2 [65, 66, newline, 65]).lines 0 = [65] := by
  constructor
  · decide
  · decide

end Terminal
end SysproKernel

import Mathlib.Data.Set.Lattice
import Mathlib.Tactic.Tauto
import SysproKernel.Terminal.Scrolling

/-!
# `Terminal.Drawing` — the incremental against the full drawing path

`putc` draws one glyph on top of what the screen shows; `redraw_terminal` paints the whole buffer. What
a screen shows is the set of its white pixels (`Shows`). Along a run it is the pixels of `drawn`, while
a redraw gives those of `kept`; both are described by the layout of the text, and they differ in the
current row only, by glyphs of the residue: behind a line started by `'\n'` the residue is in the buffer
but not on the screen, and under a line started by a full one it is on the screen but no longer in the
buffer.
-/

namespace SysproKernel
namespace Terminal

open Lib.CStr

/-! ## Black and white screens -/

section Shows

variable {fb : FrameBuffer} {scr₀ scr scr' : Screen} {D D' : Set Nat} {ws : List Write}

/-- The screen shows exactly the pixels of `D` in white, the others of the frame buffer in black, and
    whatever was there before elsewhere. -/
structure Shows (fb : FrameBuffer) (scr₀ scr : Screen) (D : Set Nat) : Prop where
  lit : ∀ q ∈ D, (scr q).rgb = colorWhite
  dark : ∀ q ∈ fb.area, q ∉ D → (scr q).rgb = colorBlack
  off : ∀ q ∉ fb.area, q ∉ D → (scr q).rgb = (scr₀ q).rgb

/-- The pixels a list of writes names. -/
def touched (ws : List Write) : Set Nat := {q | ∃ w ∈ ws, w.index = q}

theorem touched_nil : touched [] = ∅ := by
  ext q
  simp [touched]

theorem touched_append (ws ws' : List Write) : touched (ws ++ ws') = touched ws ∪ touched ws' := by
  ext q
  constructor
  · rintro ⟨w, hw, hq⟩
    rcases List.mem_append.mp hw with hw | hw
    · exact Or.inl ⟨w, hw, hq⟩
    · exact Or.inr ⟨w, hw, hq⟩
  · rintro (⟨w, hw, hq⟩ | ⟨w, hw, hq⟩)
    · exact ⟨w, List.mem_append_left ws' hw, hq⟩
    · exact ⟨w, List.mem_append_right ws hw, hq⟩

/-- White writes inside the frame buffer. -/
def Draws (fb : FrameBuffer) (ws : List Write) : Prop :=
  ∀ w ∈ ws, w.color = colorWhite ∧ w.index ∈ fb.area

theorem Draws.append {ws' : List Write} (h : Draws fb ws) (h' : Draws fb ws') :
    Draws fb (ws ++ ws') := by
  intro w hw
  rcases List.mem_append.mp hw with hw | hw
  · exact h w hw
  · exact h' w hw

theorem Shows.congr (h : Shows fb scr₀ scr D) (heq : D = D') : Shows fb scr₀ scr D' := heq ▸ h

/-- Drawing adds the pixels drawn. -/
theorem Shows.draw (h : Shows fb scr₀ scr D) (hws : Draws fb ws) :
    Shows fb scr₀ (applyWrites scr ws) (D ∪ touched ws) where
  lit q hq := by
    by_cases hw : q ∈ touched ws
    · exact applyWrites_inside (fun w hw => (hws w hw).1) hw
    · rw [applyWrites_outside (fun w hmem hwq => hw ⟨w, hmem, hwq⟩)]
      exact h.lit q (hq.resolve_right hw)
  dark q harea hq := by
    rw [applyWrites_outside (fun w hmem hwq => hq (Or.inr ⟨w, hmem, hwq⟩))]
    exact h.dark q harea (fun hD => hq (Or.inl hD))
  off q harea hq := by
    rw [applyWrites_outside (fun w hmem hwq => hq (Or.inr ⟨w, hmem, hwq⟩))]
    exact h.off q harea (fun hD => hq (Or.inl hD))

/-- Filling with black clears the screen. -/
theorem shows_fill (hoff : ∀ q ∉ fb.area, (scr q).rgb = (scr₀ q).rgb) :
    Shows fb scr₀ (applyWrites scr (fill fb colorBlack)) ∅ where
  lit q hq := absurd hq (Set.notMem_empty q)
  dark q harea _ := by
    obtain ⟨x, hx, y, hy, rfl⟩ := harea
    exact applyWrites_inside (fun w hw => fill_color hw)
      ⟨_, mem_fill.mpr ⟨x, hx, y, hy, rfl⟩, rfl⟩
  off q harea _ := by
    rw [applyWrites_outside]
    · exact hoff q harea
    · intro w hw hwq
      exact harea (hwq ▸ fill_area hw)

theorem Shows.clear (h : Shows fb scr₀ scr D) (hD : D ⊆ fb.area) :
    Shows fb scr₀ (applyWrites scr (fill fb colorBlack)) ∅ :=
  shows_fill (fun q harea => h.off q harea (fun hq => harea (hD hq)))

/-- **Two screens over the same background look alike exactly when they show the same pixels.** -/
theorem Shows.alike (h : Shows fb scr₀ scr D) (h' : Shows fb scr₀ scr' D') (hD : D ⊆ fb.area)
    (hD' : D' ⊆ fb.area) : (∀ q, (scr q).rgb = (scr' q).rgb) ↔ D = D' := by
  have hne : colorWhite ≠ colorBlack := by decide
  constructor
  · intro hall
    apply Set.Subset.antisymm
    · intro q hq
      by_contra hq'
      exact hne ((h.lit q hq).symm.trans ((hall q).trans (h'.dark q (hD hq) hq')))
    · intro q hq'
      by_contra hq
      exact hne ((h'.lit q hq').symm.trans ((hall q).symm.trans (h.dark q (hD' hq') hq)))
  · rintro rfl q
    by_cases hq : q ∈ D
    · rw [h.lit q hq, h'.lit q hq]
    · by_cases harea : q ∈ fb.area
      · rw [h.dark q harea hq, h'.dark q harea hq]
      · rw [h.off q harea hq, h'.off q harea hq]

end Shows

/-! ## Pixels of glyphs -/

section Pixels

variable (fb : FrameBuffer) (font : Font)

/-- The pixels of a character in a terminal cell. -/
def cellPixels (c : Int8) (line pos : Nat) : Set Nat := touched (drawCell fb font c line pos)

/-- The pixels of a line of glyphs, given by the character at each position. -/
def rowPixels (line : Nat) (P : Nat → Int8 → Prop) : Set Nat :=
  {q | ∃ k c, P k c ∧ q ∈ cellPixels fb font c line k}

/-- The characters of a text at their positions. -/
def textAt (s : List Int8) : Nat → Int8 → Prop := fun k c => s[k]? = some c

variable {fb font}

theorem drawCell_draws (c : Int8) (line pos : Nat) : Draws fb (drawCell fb font c line pos) :=
  fun _ hw => ⟨drawChar_color hw, drawChar_area hw⟩

theorem cellPixels_area (c : Int8) (line pos : Nat) : cellPixels fb font c line pos ⊆ fb.area := by
  rintro q ⟨w, hw, rfl⟩
  exact (drawCell_draws c line pos w hw).2

theorem rowPixels_area (line : Nat) (P : Nat → Int8 → Prop) :
    rowPixels fb font line P ⊆ fb.area := by
  rintro q ⟨k, c, -, hq⟩
  exact cellPixels_area c line k hq

theorem rowPixels_mono {line : Nat} {P Q : Nat → Int8 → Prop} (h : ∀ k c, P k c → Q k c) :
    rowPixels fb font line P ⊆ rowPixels fb font line Q := by
  rintro q ⟨k, c, hP, hq⟩
  exact ⟨k, c, h k c hP, hq⟩

theorem rowPixels_congr {line : Nat} {P Q : Nat → Int8 → Prop} (h : ∀ k c, P k c ↔ Q k c) :
    rowPixels fb font line P = rowPixels fb font line Q :=
  Set.Subset.antisymm (rowPixels_mono fun k c => (h k c).mp) (rowPixels_mono fun k c => (h k c).mpr)

theorem rowPixels_or (line : Nat) (P Q : Nat → Int8 → Prop) :
    rowPixels fb font line (fun k c => P k c ∨ Q k c)
      = rowPixels fb font line P ∪ rowPixels fb font line Q := by
  ext q
  constructor
  · rintro ⟨k, c, hP | hQ, hq⟩
    · exact Or.inl ⟨k, c, hP, hq⟩
    · exact Or.inr ⟨k, c, hQ, hq⟩
  · rintro (⟨k, c, hP, hq⟩ | ⟨k, c, hQ, hq⟩)
    · exact ⟨k, c, Or.inl hP, hq⟩
    · exact ⟨k, c, Or.inr hQ, hq⟩

theorem drawText_draws (line : Nat) (s : List Int8) :
    ∀ pos, Draws fb (drawText fb font line pos s) := by
  induction s with
  | nil =>
      intro pos w hw
      cases hw
  | cons c s ih =>
      intro pos
      exact (drawCell_draws c line pos).append (ih (pos + 1))

/-- Drawing a text touches the pixels of its glyphs. -/
theorem touched_drawText (line : Nat) (s : List Int8) :
    ∀ pos, touched (drawText fb font line pos s)
      = {q | ∃ k c, s[k]? = some c ∧ q ∈ cellPixels fb font c line (pos + k)} := by
  induction s with
  | nil =>
      intro pos
      rw [drawText, touched_nil]
      ext q
      simp
  | cons c s ih =>
      intro pos
      rw [drawText, touched_append, ih]
      ext q
      constructor
      · rintro (hq | ⟨k, d, hk, hq⟩)
        · exact ⟨0, c, rfl, hq⟩
        · refine ⟨k + 1, d, hk, ?_⟩
          rwa [show pos + (k + 1) = pos + 1 + k by omega]
      · rintro ⟨k, d, hk, hq⟩
        cases k with
        | zero =>
            obtain rfl : c = d := Option.some.inj hk
            exact Or.inl hq
        | succ k =>
            refine Or.inr ⟨k, d, hk, ?_⟩
            rwa [show pos + 1 + k = pos + (k + 1) by omega]

theorem touched_drawText_row (line : Nat) (s : List Int8) :
    touched (drawText fb font line 0 s) = rowPixels fb font line (textAt s) := by
  rw [touched_drawText]
  ext q
  simp [rowPixels, textAt]

/-- The pixels of the first `n` rows of a screen of texts. -/
def screenPixels (fb : FrameBuffer) (font : Font) (n : Nat) (rows : Nat → List Int8) : Set Nat :=
  {q | ∃ r < n, q ∈ rowPixels fb font r (textAt (rows r))}

/-- **A redraw shows the visible texts.** -/
theorem Shows.redraw {scr₀ scr : Screen} {D : Set Nat} {t : State} {str : Nat → List Int8}
    (h : Shows fb scr₀ scr D) (hD : D ⊆ fb.area) (n : Nat) :
    Shows fb scr₀ (applyWrites scr (redrawWrites fb font t str n))
      (screenPixels fb font n (fun r => (str r).take t.nCharsInLine)) := by
  induction n with
  | zero =>
      have hnone : screenPixels fb font 0 (fun r => (str r).take t.nCharsInLine) = ∅ := by
        ext q
        simp [screenPixels]
      rw [hnone, redrawWrites]
      simpa using h.clear hD
  | succ n ih =>
      rw [redrawWrites_succ, applyWrites_append]
      refine (ih.draw (drawText_draws n _ 0)).congr ?_
      rw [touched_drawText_row]
      ext q
      constructor
      · rintro (⟨r, hr, hq⟩ | hq)
        · exact ⟨r, Nat.lt_succ_of_lt hr, hq⟩
        · exact ⟨n, Nat.lt_succ_self n, hq⟩
      · rintro ⟨r, hr, hq⟩
        by_cases hrn : r = n
        · subst hrn
          exact Or.inr hq
        · exact Or.inl ⟨r, by omega, hq⟩

theorem screenPixels_congr {n : Nat} {rows rows' : Nat → List Int8}
    (h : ∀ r < n, rows r = rows' r) :
    screenPixels fb font n rows = screenPixels fb font n rows' := by
  ext q
  constructor
  · rintro ⟨r, hr, hq⟩
    exact ⟨r, hr, h r hr ▸ hq⟩
  · rintro ⟨r, hr, hq⟩
    exact ⟨r, hr, h r hr ▸ hq⟩

end Pixels

/-! ## Drawn, shown and kept -/

section Layout

variable {fb : FrameBuffer} {font : Font} {n : Nat} {s : Layout}

/-- The row of the current line on a screen of `n` rows. -/
def Layout.row (s : Layout) (n : Nat) : Nat := min s.done.length (n - 1)

/-- What the last row has kept of earlier lines. -/
def Layout.old (s : Layout) (n : Nat) : List Int8 := residue n s.done

/-- The glyphs `putc` has drawn in the current row since it was last cleared: the line itself and, if
    it was started by a full line, the residue the redraw then found behind its first character. -/
def Layout.drawn (s : Layout) (n : Nat) : Nat → Int8 → Prop := fun k c =>
  textAt s.cur k c ∨ (s.wrapped = true ∧ 1 ≤ k ∧ textAt (s.old n) k c)

/-- The glyphs the buffer holds in the current row. -/
def Layout.shown (s : Layout) (n : Nat) : Nat → Int8 → Prop :=
  textAt (Terminal.shown s.cur (s.old n))

/-- The glyphs of the current row that both have. -/
def Layout.kept (s : Layout) (n : Nat) : Nat → Int8 → Prop := fun k c =>
  textAt s.cur k c ∨ (s.wrapped = true ∧ s.cur.length ≤ k ∧ textAt (s.old n) k c)

/-- The glyphs of the current row that only one of them has: under a line started by a full one, the
    residue drawn over since; behind a line started by `'\n'`, the residue never drawn. -/
def Layout.stale (s : Layout) (n : Nat) : Nat → Int8 → Prop := fun k c =>
  textAt (s.old n) k c ∧
    if s.wrapped = true then 1 ≤ k ∧ k < s.cur.length else s.cur ≠ [] ∧ s.cur.length ≤ k

/-- The pixels of a screen of `n` rows: the lines shown above the current row, and given glyphs in the
    current row. -/
def Layout.pixels (s : Layout) (fb : FrameBuffer) (font : Font) (n : Nat)
    (P : Nat → Int8 → Prop) : Set Nat :=
  {q | ∃ r < s.row n, q ∈ rowPixels fb font r
      (textAt (shownLine n s.done (s.done.length - s.row n + r)))}
    ∪ rowPixels fb font (s.row n) P

theorem Layout.pixels_area (P : Nat → Int8 → Prop) : s.pixels fb font n P ⊆ fb.area := by
  rintro q (⟨r, -, hq⟩ | hq)
  · exact rowPixels_area r _ hq
  · exact rowPixels_area _ P hq

theorem Layout.pixels_congr {P Q : Nat → Int8 → Prop} (h : ∀ k c, P k c ↔ Q k c) :
    s.pixels fb font n P = s.pixels fb font n Q := by
  rw [Layout.pixels, Layout.pixels, rowPixels_congr h]

theorem Layout.pixels_or (P Q : Nat → Int8 → Prop) :
    s.pixels fb font n (fun k c => P k c ∨ Q k c)
      = s.pixels fb font n P ∪ rowPixels fb font (s.row n) Q := by
  rw [Layout.pixels, Layout.pixels, rowPixels_or, Set.union_assoc]

theorem textAt_overlay {l old : List Int8} {k : Nat} {c : Int8} :
    textAt (overlay l old) k c ↔ textAt l k c ∨ (l.length ≤ k ∧ textAt old k c) := by
  unfold textAt overlay
  by_cases hk : k < l.length
  · rw [List.getElem?_append_left hk]
    constructor
    · exact Or.inl
    · rintro (h | ⟨hle, -⟩)
      · exact h
      · omega
  · have hnone : l[k]? = none := List.getElem?_eq_none (by omega)
    rw [List.getElem?_append_right (by omega), List.getElem?_drop, Nat.add_sub_cancel' (by omega),
      hnone]
    constructor
    · exact fun h => Or.inr ⟨by omega, h⟩
    · rintro (h | ⟨-, h⟩)
      · cases h
      · exact h

theorem Layout.shown_iff {k : Nat} {c : Int8} :
    s.shown n k c ↔ textAt s.cur k c ∨ (s.cur ≠ [] ∧ s.cur.length ≤ k ∧ textAt (s.old n) k c) := by
  unfold Layout.shown Terminal.shown
  split_ifs with h
  · simp [h, textAt]
  · rw [textAt_overlay]
    simp [h]

/-- **The two paths agree exactly when no stale glyph has a pixel of its own.** -/
theorem Layout.drawn_eq_shown (hwrapped : s.wrapped = true → s.cur ≠ []) :
    s.pixels fb font n (s.drawn n) = s.pixels fb font n (s.shown n) ↔
      rowPixels fb font (s.row n) (s.stale n) ⊆ s.pixels fb font n (s.kept n) := by
  by_cases hw : s.wrapped = true
  · have hpos : 0 < s.cur.length := List.length_pos_iff.mpr (hwrapped hw)
    have hdrawn : ∀ k c, s.drawn n k c ↔ s.kept n k c ∨ s.stale n k c := by
      intro k c
      simp only [Layout.drawn, Layout.kept, Layout.stale, hw, if_true, true_and]
      by_cases hk : k < s.cur.length
      · have hle : ¬ s.cur.length ≤ k := by omega
        tauto
      · have hle : s.cur.length ≤ k := by omega
        have h1 : 1 ≤ k := by omega
        tauto
    have hshown : ∀ k c, s.shown n k c ↔ s.kept n k c := by
      intro k c
      rw [Layout.shown_iff, Layout.kept]
      simp [hw, hwrapped hw]
    rw [Layout.pixels_congr hdrawn, Layout.pixels_congr hshown, Layout.pixels_or]
    exact Set.union_eq_left
  · have hdrawn : ∀ k c, s.drawn n k c ↔ s.kept n k c := by
      intro k c
      simp [Layout.drawn, Layout.kept, hw]
    have hshown : ∀ k c, s.shown n k c ↔ s.kept n k c ∨ s.stale n k c := by
      intro k c
      rw [Layout.shown_iff]
      simp only [Layout.kept, Layout.stale, hw, if_false, Bool.false_eq_true, false_and, or_false]
      tauto
    rw [Layout.pixels_congr hdrawn, Layout.pixels_congr hshown, Layout.pixels_or]
    exact eq_comm.trans Set.union_eq_left

end Layout

/-! ## Along a run -/

section Run

variable {fb : FrameBuffer} {font : Font} {t : State} {s : Layout} {scr₀ scr : Screen}

/-- What the buffer shows, in terms of the layout. -/
theorem Sim.screenPixels_eq (h : Sim t s) :
    screenPixels fb font t.nLines t.visible = s.pixels fb font t.nLines (s.shown t.nLines) := by
  have hline : t.curLine = s.row t.nLines := h.line
  have hlt := h.ok.line_lt
  have hrow : s.row t.nLines = min s.done.length (t.nLines - 1) := rfl
  have hlen : s.lines.length = s.done.length + 1 := by simp [Layout.lines]
  have hbase : s.lines.length - t.nLines = s.done.length - s.row t.nLines := by omega
  have habove : ∀ r < s.row t.nLines, t.visible r
      = shownLine t.nLines s.done (s.done.length - s.row t.nLines + r) := by
    intro r hr
    rw [h.visible_row (by omega), if_pos (by omega), hbase, Layout.lines,
      shownLine_append (by omega)]
  have hcurrent : t.visible (s.row t.nLines) = Terminal.shown s.cur (s.old t.nLines) := by
    rw [h.visible_row (by omega), if_pos (by omega), hbase,
      show s.done.length - s.row t.nLines + s.row t.nLines = s.done.length by omega, Layout.lines,
      shownLine_last]
    rfl
  have hbelow : ∀ r < t.nLines, s.row t.nLines < r → t.visible r = [] := by
    intro r hr hr'
    rw [h.visible_row hr, if_neg (by omega)]
  ext q
  constructor
  · rintro ⟨r, hr, hq⟩
    rcases Nat.lt_trichotomy r (s.row t.nLines) with hr' | hr' | hr'
    · rw [habove r hr'] at hq
      exact Or.inl ⟨r, hr', hq⟩
    · rw [hr', hcurrent] at hq
      exact Or.inr hq
    · rw [hbelow r hr hr'] at hq
      obtain ⟨k, c, hk, -⟩ := hq
      cases hk
  · rintro (⟨r, hr, hq⟩ | hq)
    · exact ⟨r, by omega, by rwa [habove r hr]⟩
    · refine ⟨s.row t.nLines, by omega, ?_⟩
      rw [hcurrent]
      exact hq

/-- **A redraw shows what the buffer shows.** -/
theorem Sim.redraw (font : Font) (h : Sim t s) {D : Set Nat} (hscr : Shows fb scr₀ scr D) (hD : D ⊆ fb.area) :
    ∃ ws, redrawTerminal fb font t = .ok ws ∧
      Shows fb scr₀ (applyWrites scr ws) (s.pixels fb font t.nLines (s.shown t.nLines)) := by
  obtain ⟨str, hstr⟩ := h.ok.exists_strings
  refine ⟨_, redrawTerminal_ok fb font h.ok hstr, (hscr.redraw hD t.nLines).congr ?_⟩
  rw [← h.screenPixels_eq]
  have hlines := h.ok.lines_le
  refine screenPixels_congr ?_
  intro r hr
  exact ((hstr r (by omega)).text_eq t.nCharsInLine).symm

/-- Before the last row is reached, a line break leaves the pixels as they are. -/
theorem pixels_breakLine {n : Nat} {w : Bool} (h : s.done.length + 1 < n) :
    Layout.pixels { done := s.done ++ [s.cur], cur := [], wrapped := w } fb font n
        (Layout.drawn { done := s.done ++ [s.cur], cur := [], wrapped := w } n)
      = s.pixels fb font n (s.drawn n) := by
  have hlen : (s.done ++ [s.cur]).length = s.done.length + 1 := by simp
  have hrow : s.row n = s.done.length := by
    unfold Layout.row
    omega
  have hrow' : Layout.row { done := s.done ++ [s.cur], cur := [], wrapped := w } n
      = s.done.length + 1 := by
    simp only [Layout.row]
    omega
  have hold : s.old n = [] := residue_eq_nil (by omega)
  have hold' : Layout.old { done := s.done ++ [s.cur], cur := [], wrapped := w } n = [] :=
    residue_eq_nil (by simp only; omega)
  -- nothing is left over, so the finished line shows what was drawn of it
  have hlast : textAt (shownLine n (s.done ++ [s.cur]) s.done.length) = s.drawn n := by
    have hshown : Terminal.shown s.cur [] = s.cur := shown_eq_self.mpr (Or.inr (Nat.zero_le _))
    rw [shownLine_last, residue_eq_nil (by omega), hshown]
    funext k c
    simp [Layout.drawn, hold, textAt]
  have hnone : rowPixels fb font (s.done.length + 1)
      (Layout.drawn { done := s.done ++ [s.cur], cur := [], wrapped := w } n) = ∅ := by
    ext q
    simp [rowPixels, Layout.drawn, hold', textAt]
  unfold Layout.pixels
  rw [hrow, hrow', hnone, Set.union_empty]
  ext q
  constructor
  · rintro ⟨r, hr, hq⟩
    rw [hlen, show s.done.length + 1 - (s.done.length + 1) + r = r by omega] at hq
    by_cases hcur : r = s.done.length
    · rw [hcur, hlast] at hq
      exact Or.inr hq
    · rw [shownLine_append (by omega)] at hq
      exact Or.inl ⟨r, by omega, by rwa [show s.done.length - s.done.length + r = r by omega]⟩
  · rintro (⟨r, hr, hq⟩ | hq)
    · refine ⟨r, by omega, ?_⟩
      rw [show s.done.length - s.done.length + r = r by omega] at hq
      rwa [hlen, show s.done.length + 1 - (s.done.length + 1) + r = r by omega,
        shownLine_append hr]
    · refine ⟨s.done.length, by omega, ?_⟩
      rwa [hlen, show s.done.length + 1 - (s.done.length + 1) + s.done.length = s.done.length by omega,
        hlast]

theorem textAt_concat {l : List Int8} {c d : Int8} {k : Nat} :
    textAt (l ++ [c]) k d ↔ textAt l k d ∨ (k = l.length ∧ d = c) := by
  unfold textAt
  rw [List.getElem?_append]
  split_ifs with hk
  · constructor
    · exact Or.inl
    · rintro (h | ⟨h, -⟩)
      · exact h
      · omega
  · have hnone : l[k]? = none := List.getElem?_eq_none (by omega)
    rw [hnone, List.getElem?_singleton]
    split_ifs with h0
    · have hk' : k = l.length := by omega
      simp [hk', eq_comm]
    · have hk' : k ≠ l.length := by omega
      simp [hk']

/-- An appended character adds its glyph. -/
theorem pixels_append (n : Nat) (c : Int8) :
    Layout.pixels { s with cur := s.cur ++ [c] } fb font n
        (Layout.drawn { s with cur := s.cur ++ [c] } n)
      = s.pixels fb font n (s.drawn n) ∪ cellPixels fb font c (s.row n) s.cur.length := by
  have hdrawn : ∀ k d, Layout.drawn { s with cur := s.cur ++ [c] } n k d
      ↔ s.drawn n k d ∨ (k = s.cur.length ∧ d = c) := by
    intro k d
    have hold : Layout.old { s with cur := s.cur ++ [c] } n = s.old n := rfl
    simp only [Layout.drawn, textAt_concat, hold]
    tauto
  have hcell : rowPixels fb font (s.row n) (fun k d => k = s.cur.length ∧ d = c)
      = cellPixels fb font c (s.row n) s.cur.length := by
    ext q
    constructor
    · rintro ⟨k, d, ⟨rfl, rfl⟩, hq⟩
      exact hq
    · intro hq
      exact ⟨_, _, ⟨rfl, rfl⟩, hq⟩
  rw [Layout.pixels_congr hdrawn, ← hcell]
  exact s.pixels_or _ _

/-- Right after a scroll the screen shows what the buffer shows. -/
theorem drawn_eq_shown_of_fresh {n : Nat}
    (h : (s.cur = [] ∧ s.wrapped = false) ∨ (s.cur.length = 1 ∧ s.wrapped = true)) :
    s.pixels fb font n (s.drawn n) = s.pixels fb font n (s.shown n) := by
  refine Layout.pixels_congr ?_
  intro k c
  rw [Layout.shown_iff, Layout.drawn]
  rcases h with ⟨hcur, hw⟩ | ⟨hcur, hw⟩
  · simp [hcur, hw]
  · have hne : s.cur ≠ [] := by
      intro h0
      rw [h0] at hcur
      cases hcur
    simp [hcur, hw, hne]

/-- **The step**: `putc` leaves a screen that shows what has been drawn. -/
theorem putc_shows {str : Nat → List Int8} {c : Int8} (h : Sim t s) (hstr : Strings t.buf str)
    (hc : c ≠ 0) (hscr : Shows fb scr₀ scr (s.pixels fb font t.nLines (s.drawn t.nLines))) :
    ∃ ws, putc fb font t c = .ok (t.next str c, ws) ∧
      Shows fb scr₀ (applyWrites scr ws) ((s.add t.nCharsInLine c).pixels fb font t.nLines
        ((s.add t.nCharsInLine c).drawn t.nLines)) := by
  obtain ⟨ws, hputc, hscroll, hstay⟩ := putc_ok fb font h.ok hstr c
  have hnext := h.next hstr hc
  have hlines := (t.next_sizes str c).1
  have hline := h.line
  have hlt := h.ok.line_lt
  refine ⟨ws, hputc, ?_⟩
  by_cases hs : t.Scrolls c
  · -- the screen was redrawn
    obtain ⟨rs, hrs, hshows⟩ := hnext.redraw font hscr (s.pixels_area _)
    obtain rfl : ws = rs := Except.ok.inj ((hscroll hs).symm.trans hrs)
    rw [hlines] at hshows
    refine hshows.congr (drawn_eq_shown_of_fresh ?_).symm
    by_cases hnew : c = newline
    · exact Or.inl (by simp [Layout.add, hnew])
    · have hfull : s.cur.length = t.nCharsInLine := h.pos ▸ hs.1.resolve_left hnew
      exact Or.inr (by simp [Layout.add, hnew, hfull])
  · rw [hstay hs]
    by_cases hnew : c = newline
    · have hroom : s.done.length + 1 < t.nLines := by
        have : ¬ t.curLine + 1 = t.nLines := fun hlast => hs ⟨Or.inl hnew, hlast⟩
        omega
      rw [if_pos hnew, Layout.add, if_pos hnew]
      exact hscr.congr (pixels_breakLine hroom).symm
    · -- one glyph was drawn at the end of the current line
      rw [if_neg hnew, hnext.line, hnext.pos, hlines]
      by_cases hfull : s.cur.length = t.nCharsInLine
      · have hroom : s.done.length + 1 < t.nLines := by
          have : ¬ t.curLine + 1 = t.nLines := fun hlast => hs ⟨Or.inr (h.pos.trans hfull), hlast⟩
          omega
        rw [Layout.add, if_neg hnew, if_pos hfull]
        refine (hscr.draw (drawCell_draws c _ _)).congr ?_
        rw [← pixels_breakLine (w := true) hroom]
        exact (pixels_append (s := { done := s.done ++ [s.cur], cur := [], wrapped := true })
          t.nLines c).symm
      · rw [Layout.add, if_neg hnew, if_neg hfull]
        refine (hscr.draw (drawCell_draws c _ _)).congr ?_
        have hpos : (s.cur ++ [c]).length - 1 = s.cur.length := by simp
        rw [hpos]
        exact (pixels_append t.nLines c).symm

end Run

/-! ## When the two paths agree -/

/-- Every pixel of a stale glyph is lit by another glyph as well. -/
def StaleCovered (fb : FrameBuffer) (font : Font) (n : Nat) (s : Layout) : Prop :=
  rowPixels fb font (s.row n) (s.stale n) ⊆ s.pixels fb font n (s.kept n)

/-- A stale glyph is covered if the same glyph has been drawn over it. -/
theorem staleCovered_of_kept {fb : FrameBuffer} {font : Font} {n : Nat} {s : Layout}
    (h : ∀ k c, s.stale n k c → s.kept n k c) : StaleCovered fb font n s := by
  intro q hq
  exact Or.inr (rowPixels_mono h hq)

/-! ### Glyph by glyph

On a frame buffer of at most `2 ^ 32` pixels distinct cells have distinct pixels, so a stale glyph can
only be covered by the glyph drawn over it in its own cell. -/

section Glyphs

variable {fb : FrameBuffer} {font : Font}

theorem mem_cellPixels {c : Int8} {line pos q : Nat} (hl : line < maxLines)
    (hp : pos < maxCharsInLine) :
    q ∈ cellPixels fb font c line pos ↔
      ∃ i j, glyphBit font c i j ∧ line * fontHeight + i < fb.height ∧
        pos * fontWidth + j < fb.width ∧
        q = fb.pixelIndex (line * fontHeight + i) (pos * fontWidth + j) := by
  have hrow : ∀ i < fontHeight, toU32 ((line * fontHeight : Nat) + (i : Int)) = line * fontHeight + i := by
    intro i hi
    unfold toU32
    simp only [maxLines, fontHeight] at *
    omega
  have hcol : ∀ j < fontWidth, toU32 ((pos * fontWidth : Nat) + (j : Int)) = pos * fontWidth + j := by
    intro j hj
    unfold toU32
    simp only [maxCharsInLine, fontWidth] at *
    omega
  unfold cellPixels drawCell
  constructor
  · rintro ⟨w, hw, rfl⟩
    obtain ⟨i, j, hbit, hx, hy, rfl⟩ := mem_drawChar.mp hw
    rw [hrow i hbit.2.1] at hx
    rw [hcol j hbit.2.2.1] at hy
    exact ⟨i, j, hbit, hx, hy, by rw [hrow i hbit.2.1, hcol j hbit.2.2.1]⟩
  · rintro ⟨i, j, hbit, hx, hy, rfl⟩
    rw [← hrow i hbit.2.1] at hx ⊢
    rw [← hcol j hbit.2.2.1] at hy ⊢
    exact ⟨_, mem_drawChar.mpr ⟨i, j, hbit, hx, hy, rfl⟩, rfl⟩

/-- Cells of the screen meet in a pixel only if they are the same cell and both glyphs have it. -/
theorem cellPixels_inj {c d : Int8} {l p l' p' i j : Nat} (hsize : fb.width * fb.height ≤ 2 ^ 32)
    (hl' : l' < maxLines) (hp' : p' < maxCharsInLine) (hbit : glyphBit font c i j)
    (hx : l * fontHeight + i < fb.height) (hy : p * fontWidth + j < fb.width)
    (hq : fb.pixelIndex (l * fontHeight + i) (p * fontWidth + j) ∈ cellPixels fb font d l' p') :
    l' = l ∧ p' = p ∧ glyphBit font d i j := by
  obtain ⟨i', j', hbit', hx', hy', heq⟩ := (mem_cellPixels hl' hp').mp hq
  obtain ⟨hrow, hcol⟩ := pixelIndex_inj hsize hx hy hx' hy' heq
  have hi := hbit.2.1
  have hj := hbit.2.2.1
  have hi' := hbit'.2.1
  have hj' := hbit'.2.2.1
  have hH : fontHeight = 8 := rfl
  have hW : fontWidth = 8 := rfl
  rw [hH] at hrow hi hi'
  rw [hW] at hcol hj hj'
  obtain rfl : i = i' := by omega
  obtain rfl : j = j' := by omega
  exact ⟨by omega, by omega, hbit'⟩

/-- The cells of the terminal lie inside the frame buffer. -/
theorem cell_inside {line pos i j : Nat} (hl : line < fb.terminal.nLines)
    (hp : pos < fb.terminal.nCharsInLine) (hi : i < fontHeight) (hj : j < fontWidth) :
    line * fontHeight + i < fb.height ∧ pos * fontWidth + j < fb.width := by
  have hlines : fb.terminal.nLines ≤ fb.height / fontHeight := by
    show (if _ > maxLines then maxLines else _) ≤ _
    split_ifs <;> omega
  have hchars : fb.terminal.nCharsInLine ≤ fb.width / fontWidth := by
    show (if _ > maxCharsInLine then maxCharsInLine else _) ≤ _
    split_ifs <;> omega
  simp only [fontHeight, fontWidth] at *
  omega

/-- **When nothing stale is visible**: every stale glyph is blank, or it lies under a glyph of the
    current line that has all its bits. -/
theorem staleCovered_iff_glyphs {t : State} {s : Layout} (h : Sim t s)
    (hlines : t.nLines = fb.terminal.nLines) (hchars : t.nCharsInLine = fb.terminal.nCharsInLine)
    (hsize : fb.width * fb.height ≤ 2 ^ 32) :
    StaleCovered fb font t.nLines s ↔
      ∀ k c, s.stale t.nLines k c → ∀ i j, glyphBit font c i j →
        s.wrapped = true ∧ ∃ d, s.cur[k]? = some d ∧ glyphBit font d i j := by
  have hline := h.line
  have hlt := h.ok.line_lt
  have hmax := h.ok.lines_le
  have hcmax := h.ok.chars_le
  have hrow : s.row t.nLines = t.curLine := h.line.symm
  have hpos : ∀ {l : List Int8} {k : Nat} {c : Int8}, l.length ≤ t.nCharsInLine → textAt l k c →
      k < t.nCharsInLine := by
    intro l k c hl hk
    exact Nat.lt_of_lt_of_le (List.getElem?_eq_some_iff.mp hk).1 hl
  have hold : (s.old t.nLines).length ≤ t.nCharsInLine := by
    have := h.residue_length s.done.length
    rwa [Layout.lines, List.take_append_of_le_length (Nat.le_refl _), List.take_length] at this
  have hcur : s.cur.length ≤ t.nCharsInLine := (h.fits s.cur (by simp [Layout.lines])).1
  constructor
  · intro hcov k c hstale i j hbit
    have hk := hpos hold hstale.1
    obtain ⟨hx, hy⟩ := cell_inside (hlines ▸ hlt) (hchars ▸ hk) hbit.2.1 hbit.2.2.1
    have hq : fb.pixelIndex (t.curLine * fontHeight + i) (k * fontWidth + j)
        ∈ s.pixels fb font t.nLines (s.kept t.nLines) := by
      refine hcov ⟨k, c, hstale, ?_⟩
      rw [hrow]
      exact (mem_cellPixels (by omega) (by omega)).mpr ⟨i, j, hbit, hx, hy, rfl⟩
    rcases hq with ⟨r, hr, k', d, hd, hq⟩ | ⟨k', d, hd, hq⟩
    · -- a glyph above the current row
      have hk' : k' < t.nCharsInLine := by
        have hsame : shownLine t.nLines s.lines (s.done.length - s.row t.nLines + r)
            = shownLine t.nLines s.done (s.done.length - s.row t.nLines + r) :=
          shownLine_append (by omega)
        exact hpos (hsame ▸ h.shownLine_length _) hd
      have hsame := cellPixels_inj hsize (by omega) (by omega) hbit hx hy hq
      omega
    · rw [hrow] at hq
      have hk' : k' < t.nCharsInLine := by
        rcases hd with hd | ⟨-, -, hd⟩
        · exact hpos hcur hd
        · exact hpos hold hd
      obtain ⟨-, rfl, hbit'⟩ :=
        cellPixels_inj hsize (by omega) (by omega) hbit hx hy hq
      obtain ⟨-, hif⟩ := hstale
      by_cases hw : s.wrapped = true
      · rw [if_pos hw] at hif
        refine ⟨hw, d, hd.resolve_right ?_, hbit'⟩
        rintro ⟨-, hle, -⟩
        omega
      · rw [if_neg hw] at hif
        have hlt' : k' < s.cur.length :=
          (List.getElem?_eq_some_iff.mp (hd.resolve_right (fun h => hw h.1))).1
        omega
  · rintro hall q ⟨k, c, hstale, hq⟩
    have hk := hpos hold hstale.1
    rw [hrow] at hq
    obtain ⟨i, j, hbit, hx, hy, rfl⟩ := (mem_cellPixels (by omega) (by omega)).mp hq
    obtain ⟨-, d, hd, hbit'⟩ := hall k c hstale i j hbit
    refine Or.inr ⟨k, d, Or.inl hd, ?_⟩
    rw [hrow]
    exact (mem_cellPixels (by omega) (by omega)).mpr ⟨i, j, hbit', hx, hy, rfl⟩

end Glyphs

/-- A line started because the previous one was full is not empty. -/
theorem layout_wrapped (n : Nat) (cs : List Int8) :
    (layout n cs).wrapped = true → (layout n cs).cur ≠ [] := by
  induction cs using List.reverseRecOn with
  | nil =>
      intro h
      cases h
  | append_singleton cs c ih =>
      rw [layout_snoc, Layout.add]
      split_ifs
      · intro h
        cases h
      · simp
      · simp

/-- The terminal and the writes reached by printing some characters: the screen shows what has been
    drawn. -/
structure Printed (fb : FrameBuffer) (font : Font) (scr₀ : Screen) (cs : List Int8) (t : State)
    (ws : List Write) : Prop where
  reached : Reached fb cs t
  shows : Shows fb scr₀ (applyWrites scr₀ ((initDraw fb .start).2 ++ ws))
    ((layout fb.terminal.nCharsInLine cs).pixels fb font t.nLines
      ((layout fb.terminal.nCharsInLine cs).drawn t.nLines))

section Printed

variable {fb : FrameBuffer} {font : Font} {scr₀ : Screen}

theorem printed_start (hw : 8 ≤ fb.width) (hh : 8 ≤ fb.height) :
    Printed fb font scr₀ [] fb.terminal [] where
  reached := reached_start hw hh
  shows := by
    have hnone : Layout.pixels Layout.start fb font fb.terminal.nLines
        (Layout.drawn Layout.start fb.terminal.nLines) = ∅ := by
      ext q
      simp [Layout.pixels, Layout.row, Layout.drawn, Layout.start, rowPixels, textAt]
    rw [List.append_nil]
    exact (shows_fill (fun _ _ => rfl)).congr hnone.symm

theorem Printed.next {cs : List Int8} {t : State} {ws : List Write} {c : Int8}
    (h : Printed fb font scr₀ cs t ws) (hc : c ≠ 0) :
    ∃ t' ws', putc fb font t c = .ok (t', ws') ∧
      Printed fb font scr₀ (cs ++ [c]) t' (ws ++ ws') := by
  obtain ⟨str, hstr⟩ := h.reached.sim.ok.exists_strings
  obtain ⟨ws', hputc, hshows⟩ := putc_shows h.reached.sim hstr hc h.shows
  refine ⟨_, ws', hputc, h.reached.next hstr hc, ?_⟩
  rw [← List.append_assoc, applyWrites_append, layout_snoc, (t.next_sizes str c).1]
  exact h.reached.chars ▸ hshows

theorem putcs_printed (font : Font) (scr₀ : Screen) (hw : 8 ≤ fb.width) (hh : 8 ≤ fb.height) {cs : List Int8}
    (hcs : ∀ c ∈ cs, c ≠ 0) :
    ∃ t ws, putcs fb font fb.terminal cs = .ok (t, ws) ∧ Printed fb font scr₀ cs t ws := by
  exact putcs_run (fun _ _ _ _ hc h => Printed.next h hc) cs [] _ [] (printed_start hw hh) hcs

end Printed

/-- **The two drawing paths.** After any text, the frame buffer has the colours that
    `redraw_terminal` would give it exactly when every pixel of a stale glyph is lit by another one. -/
theorem drawing_paths_agree_iff (fb : FrameBuffer) (font : Font) (scr₀ : Screen)
    (hw : 8 ≤ fb.width) (hh : 8 ≤ fb.height) (cs : List Int8) (hcs : ∀ c ∈ cs, c ≠ 0) :
    ∃ t ws rs, putcs fb font fb.terminal cs = .ok (t, ws) ∧ redrawTerminal fb font t = .ok rs ∧
      ((∀ q, (applyWrites scr₀ ((initDraw fb .start).2 ++ ws) q).rgb
          = (applyWrites scr₀ ((initDraw fb .start).2 ++ ws ++ rs) q).rgb) ↔
        StaleCovered fb font fb.terminal.nLines (layout fb.terminal.nCharsInLine cs)) := by
  obtain ⟨t, ws, hrun, h⟩ := putcs_printed font scr₀ hw hh hcs
  obtain ⟨rs, hrs, hredrawn⟩ := h.reached.sim.redraw font h.shows (Layout.pixels_area _)
  refine ⟨t, ws, rs, hrun, hrs, ?_⟩
  rw [← h.reached.lines, applyWrites_append _ (_ ++ ws)]
  exact (h.shows.alike hredrawn (Layout.pixels_area _) (Layout.pixels_area _)).trans
    (Layout.drawn_eq_shown (layout_wrapped _ cs))

/-- The two paths agree on a screen of two lines of two characters once it has scrolled: the "B" left by
    the second line is under the "B" of the third. -/
theorem drawing_paths_agree_scrolled :
    ∃ t ws rs, putcs { base := 0, width := 16, height := 16 } font
        (FrameBuffer.terminal { base := 0, width := 16, height := 16 }) [65, 66, 67, 66, 68, 66]
          = .ok (t, ws) ∧
      redrawTerminal { base := 0, width := 16, height := 16 } font t = .ok rs ∧
      ∀ q, (applyWrites (fun _ => ⟨0, 0, 0, 0⟩)
          ((initDraw { base := 0, width := 16, height := 16 } .start).2 ++ ws) q).rgb
        = (applyWrites (fun _ => ⟨0, 0, 0, 0⟩)
          ((initDraw { base := 0, width := 16, height := 16 } .start).2 ++ ws ++ rs) q).rgb := by
  obtain ⟨t, ws, rs, hrun, hrs, hiff⟩ :=
    drawing_paths_agree_iff { base := 0, width := 16, height := 16 } font (fun _ => ⟨0, 0, 0, 0⟩)
      (by decide) (by decide) [65, 66, 67, 66, 68, 66] (by simp)
  refine ⟨t, ws, rs, hrun, hrs, hiff.mpr ?_⟩
  apply staleCovered_of_kept
  rintro k c ⟨hold, hk⟩
  -- the third line is full, so that only cell 1 is stale
  obtain rfl : k = 1 := by
    change 1 ≤ k ∧ k < 2 at hk
    omega
  exact Or.inl hold

/-- The pixel in row 0, column 8, of one row of two characters after "AB", a line break and "A": black
    on the screen, white once redrawn. -/
theorem stale_glyph_undrawn :
    (do
      let (t, ws) ← putcs { base := 0, width := 16, height := 8 } font
        (FrameBuffer.terminal { base := 0, width := 16, height := 8 }) [65, 66, newline, 65]
      let rs ← redrawTerminal { base := 0, width := 16, height := 8 } font t
      let init := (initDraw { base := 0, width := 16, height := 8 } .start).2
      return ((applyWrites (fun _ => ⟨0, 0, 0, 0⟩) (init ++ ws) 8).rgb,
        (applyWrites (fun _ => ⟨0, 0, 0, 0⟩) (init ++ ws ++ rs) 8).rgb)
          : Except OutOfRow (Color × Color)).toOption = some (colorBlack, colorWhite) := by
  decide +kernel

end Terminal
end SysproKernel

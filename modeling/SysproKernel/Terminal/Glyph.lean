import SysproKernel.Terminal.Screen

/-!
# `Terminal.Glyph` — what a drawing function paints

The drawing functions in rows and columns. `Paints` says which positions of the frame buffer a list of
writes paints; a position off the screen is clipped, and no other pixel is touched. The offsets of
`draw_char` are `int`s that are added to an unsigned counter: a sum below zero wraps to a number above
every row and column (`toU32_eq_iff`), so the glyph is clipped on all four sides.
-/

namespace SysproKernel
namespace Terminal

/-- The writes paint the positions of `A` that lie in the frame buffer, and nothing else. -/
structure Paints (fb : FrameBuffer) (A : Nat → Nat → Prop) (color : Color) (ws : List Write) :
    Prop where
  drawn : ∀ scr x y, x < fb.height → y < fb.width → A x y →
    applyWrites scr ws (fb.width * x + y) = (scr (fb.width * x + y)).paint color
  kept : ∀ scr x y, x < fb.height → y < fb.width → ¬ A x y →
    applyWrites scr ws (fb.width * x + y) = scr (fb.width * x + y)
  below : ∀ w ∈ ws, w.index < fb.width * fb.height
  beyond : ∀ scr q, fb.width * fb.height ≤ q → applyWrites scr ws q = scr q

variable {fb : FrameBuffer} {font : Font} {A : Nat → Nat → Prop} {color : Color} {ws : List Write}

/-! ## Writes by position -/

/-- No write touches a reserved byte. -/
theorem applyWrites_reserved (scr : Screen) (ws : List Write) (q : Nat) :
    (applyWrites scr ws q).reserved = (scr q).reserved := by
  induction ws generalizing scr with
  | nil => rfl
  | cons w ws ih =>
      rw [applyWrites, ih]
      by_cases hq : q = w.index
      · subst hq
        rw [Function.update_self]
        rfl
      · rw [Function.update_of_ne hq]

theorem Pixel.eq_paint {p p' : Pixel} (hrgb : p'.rgb = color) (hreserved : p'.reserved = p.reserved) :
    p' = p.paint color := by
  subst hrgb
  cases p'
  cases hreserved
  rfl

/-- Writes of one colour whose indices are the positions of `A` in the frame buffer. -/
theorem paints_of_mem (hsize : fb.width * fb.height ≤ 2 ^ 32)
    (h : ∀ w, w ∈ ws ↔
      ∃ x < fb.height, ∃ y < fb.width, A x y ∧ w = { index := fb.pixelIndex x y, color }) :
    Paints fb A color ws := by
  have hbelow : ∀ w ∈ ws, w.index < fb.width * fb.height := by
    intro w hw
    obtain ⟨x, hx, y, hy, -, rfl⟩ := (h w).mp hw
    exact area_lt ⟨x, hx, y, hy, rfl⟩
  refine ⟨?_, ?_, hbelow, ?_⟩
  · intro scr x y hx hy hA
    rw [← pixelIndex_eq hsize hx hy]
    refine Pixel.eq_paint (applyWrites_inside ?_ ?_) (applyWrites_reserved scr ws _)
    · intro w hw
      obtain ⟨x', -, y', -, -, rfl⟩ := (h w).mp hw
      rfl
    · exact ⟨_, (h _).mpr ⟨x, hx, y, hy, hA, rfl⟩, rfl⟩
  · intro scr x y hx hy hA
    rw [← pixelIndex_eq hsize hx hy]
    refine applyWrites_outside fun w hw hwq => ?_
    obtain ⟨x', hx', y', hy', hA', rfl⟩ := (h w).mp hw
    -- distinct positions are distinct pixels
    obtain ⟨rfl, rfl⟩ := pixelIndex_inj hsize hx' hy' hx hy hwq
    exact hA hA'
  · intro scr q hq
    exact applyWrites_outside fun w hw => Nat.ne_of_lt (Nat.lt_of_lt_of_le (hbelow w hw) hq)

/-! ## `fill` -/

theorem fill_paints (hsize : fb.width * fb.height ≤ 2 ^ 32) :
    Paints fb (fun _ _ => True) color (fill fb color) := by
  refine paints_of_mem hsize fun w => ?_
  rw [mem_fill]
  constructor
  · rintro ⟨x, hx, y, hy, rfl⟩
    exact ⟨x, hx, y, hy, trivial, rfl⟩
  · rintro ⟨x, hx, y, hy, -, rfl⟩
    exact ⟨x, hx, y, hy, rfl⟩

/-! ## `draw_char` -/

/-- Row `x` and column `y` of the screen is a set bit of the glyph drawn at the offsets. -/
def glyphAt (font : Font) (c : Int8) (offsetX offsetY : Int) (x y : Nat) : Prop :=
  ∃ i j, glyphBit font c i j ∧ offsetX + i = x ∧ offsetY + j = y

/-- A sum of an `int` and a pixel of a glyph, seen from below a bound: it has not wrapped. -/
theorem toU32_eq_iff {z : Int} {n bound : Nat} (hlow : -2 ^ 31 ≤ z) (hhigh : z < 2 ^ 32)
    (hbound : bound ≤ 2 ^ 31) (hn : n < bound) : toU32 z = n ↔ z = n := by
  unfold toU32
  omega

/-- A frame buffer of less than `2 ^ 32` bytes that has pixels at all is less than `2 ^ 30` long on
    either side. -/
theorem FrameBuffer.sides_le (hsize : 4 * fb.width * fb.height < 2 ^ 32) (hw : 0 < fb.width)
    (hh : 0 < fb.height) : fb.height ≤ 2 ^ 31 ∧ fb.width ≤ 2 ^ 31 := by
  have hheight : fb.height ≤ fb.width * fb.height := Nat.le_mul_of_pos_left _ hw
  have hwidth : fb.width ≤ fb.width * fb.height := Nat.le_mul_of_pos_right _ hh
  rw [Nat.mul_assoc] at hsize
  omega

/-- The writes of `draw_char` by position, for offsets of type `int`. -/
theorem mem_drawChar_at {c : Int8} {offsetX offsetY : Int} {w : Write}
    (hsize : 4 * fb.width * fb.height < 2 ^ 32) (hx : -2 ^ 31 ≤ offsetX ∧ offsetX < 2 ^ 31)
    (hy : -2 ^ 31 ≤ offsetY ∧ offsetY < 2 ^ 31) :
    w ∈ drawChar fb font c offsetX offsetY color ↔
      ∃ x < fb.height, ∃ y < fb.width, glyphAt font c offsetX offsetY x y ∧
        w = { index := fb.pixelIndex x y, color } := by
  have hclip : ∀ {i j x y : Nat}, i < fontHeight → j < fontWidth → x < fb.height → y < fb.width →
      ((toU32 (offsetX + i) = x ↔ offsetX + i = x) ∧ (toU32 (offsetY + j) = y ↔ offsetY + j = y)) := by
    intro i j x y hi hj hxh hyw
    obtain ⟨hheight, hwidth⟩ := fb.sides_le hsize (Nat.zero_lt_of_lt hyw) (Nat.zero_lt_of_lt hxh)
    unfold fontHeight at hi
    unfold fontWidth at hj
    exact ⟨toU32_eq_iff (by omega) (by omega) hheight hxh, toU32_eq_iff (by omega) (by omega) hwidth hyw⟩
  rw [mem_drawChar]
  constructor
  · rintro ⟨i, j, hbit, hxh, hyw, rfl⟩
    obtain ⟨hrow, hcol⟩ := hclip hbit.2.1 hbit.2.2.1 hxh hyw
    exact ⟨_, hxh, _, hyw, ⟨i, j, hbit, hrow.mp rfl, hcol.mp rfl⟩, rfl⟩
  · rintro ⟨x, hxh, y, hyw, ⟨i, j, hbit, hrow, hcol⟩, rfl⟩
    obtain ⟨hrow', hcol'⟩ := hclip hbit.2.1 hbit.2.2.1 hxh hyw
    obtain rfl := hrow'.mpr hrow
    obtain rfl := hcol'.mpr hcol
    exact ⟨i, j, hbit, hxh, hyw, rfl⟩

theorem drawChar_eq_nil {c : Int8} (offsetX offsetY : Int) (h : c.toInt < 0 ∨ 128 ≤ c.toInt) :
    drawChar fb font c offsetX offsetY color = [] := if_pos h

/-- **`draw_char` is exact and clipped.** It paints the set bits of the glyph that fall inside the frame
    buffer, keeps every other pixel and every reserved byte, and does nothing for a code without a
    glyph. -/
theorem drawChar_exact (hsize : 4 * fb.width * fb.height < 2 ^ 32) (font : Font) (c : Int8)
    {offsetX offsetY : Int} (hx : -2 ^ 31 ≤ offsetX ∧ offsetX < 2 ^ 31)
    (hy : -2 ^ 31 ≤ offsetY ∧ offsetY < 2 ^ 31) (color : Color) :
    Paints fb (glyphAt font c offsetX offsetY) color (drawChar fb font c offsetX offsetY color) ∧
      (∀ scr q, (applyWrites scr (drawChar fb font c offsetX offsetY color) q).reserved
        = (scr q).reserved) ∧
      (c.toInt < 0 ∨ 128 ≤ c.toInt → drawChar fb font c offsetX offsetY color = []) := by
  have hpixels : fb.width * fb.height ≤ 2 ^ 32 := by
    rw [Nat.mul_assoc] at hsize
    omega
  refine ⟨paints_of_mem hpixels fun w => mem_drawChar_at hsize hx hy, ?_, drawChar_eq_nil offsetX offsetY⟩
  intro scr q
  exact applyWrites_reserved scr _ q

/-- A glyph that reaches over the upper left corner of a small frame buffer. -/
theorem drawChar_exact_corner :
    Paints ⟨0, 12, 10⟩ (glyphAt (fun _ _ => 0xFF) 65 (-3) (-5)) colorWhite
        (drawChar ⟨0, 12, 10⟩ (fun _ _ => 0xFF) 65 (-3) (-5) colorWhite) ∧
      (∀ scr q, (applyWrites scr
          (drawChar ⟨0, 12, 10⟩ (fun _ _ => 0xFF) 65 (-3) (-5) colorWhite) q).reserved
        = (scr q).reserved) ∧
      ((65 : Int8).toInt < 0 ∨ 128 ≤ (65 : Int8).toInt →
        drawChar ⟨0, 12, 10⟩ (fun _ _ => 0xFF) 65 (-3) (-5) colorWhite = []) :=
  drawChar_exact (by decide) _ _ (by decide) (by decide) _

end Terminal
end SysproKernel

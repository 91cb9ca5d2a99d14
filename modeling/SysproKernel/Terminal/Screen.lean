import Mathlib.Algebra.Group.Int.Defs
import Mathlib.Algebra.Group.Nat.Defs
import Mathlib.Data.List.Basic
import Mathlib.Logic.Function.Basic
import SysproKernel.Terminal.Font

/-!
# `Terminal.Screen` — pixels and the drawing functions

`fill` and `drawChar` are the drawing functions of util.c as the lists of pixel writes they make, in
order; `applyWrites` carries the writes out on a screen. Keeping the writes apart from the screen lets
one definition serve two questions: what the screen looks like afterwards, and which addresses were
touched. A write stores r, g and b and leaves the reserved byte alone.
-/

namespace SysproKernel
namespace Terminal

/-- `color_t`. -/
structure Color where
  r : UInt8
  g : UInt8
  b : UInt8
  deriving DecidableEq, Repr

def getColorFromCode (code : Nat) : Color :=
  { r := UInt8.ofNat (code >>> 16 &&& 0xFF)
    g := UInt8.ofNat (code >>> 8 &&& 0xFF)
    b := UInt8.ofNat (code >>> 0 &&& 0xFF) }

def colorWhite : Color := getColorFromCode 0xFFFFFF
def colorBlack : Color := getColorFromCode 0x000000

/-- `struct Pixel`. -/
structure Pixel where
  b : UInt8
  g : UInt8
  r : UInt8
  reserved : UInt8
  deriving DecidableEq, Repr

/-- The colour of a pixel. -/
def Pixel.rgb (p : Pixel) : Color := { r := p.r, g := p.g, b := p.b }

/-- `pixel->r = color.r; pixel->g = color.g; pixel->b = color.b;` -/
def Pixel.paint (p : Pixel) (color : Color) : Pixel :=
  { p with r := color.r, g := color.g, b := color.b }

@[simp] theorem Pixel.rgb_paint (p : Pixel) (color : Color) : (p.paint color).rgb = color := rfl

/-- `struct FrameBuffer`: the address of the first pixel and the size in pixels. -/
structure FrameBuffer where
  base : Nat
  width : Nat
  height : Nat
  deriving DecidableEq, Repr

/-- The pixel that `base + width * row + col` points to, counted from `base`: the product is an
    `unsigned int`, the column is added to the pointer. -/
def FrameBuffer.pixelIndex (fb : FrameBuffer) (row col : Nat) : Nat :=
  fb.width * row % 2 ^ 32 + col

/-! ## Writes -/

/-- One pixel write. -/
structure Write where
  index : Nat
  color : Color
  deriving DecidableEq, Repr

/-- The pixels behind `hardware_info.fb.base`. -/
abbrev Screen := Nat → Pixel

def applyWrites (scr : Screen) : List Write → Screen
  | []      => scr
  | w :: ws => applyWrites (Function.update scr w.index ((scr w.index).paint w.color)) ws

theorem applyWrites_append (scr : Screen) (ws ws' : List Write) :
    applyWrites scr (ws ++ ws') = applyWrites (applyWrites scr ws) ws' := by
  induction ws generalizing scr with
  | nil => rfl
  | cons w ws ih => exact ih _

/-- Writes elsewhere leave a pixel alone. -/
theorem applyWrites_outside {scr : Screen} {ws : List Write} {q : Nat}
    (h : ∀ w ∈ ws, w.index ≠ q) : applyWrites scr ws q = scr q := by
  induction ws generalizing scr with
  | nil => rfl
  | cons w ws ih =>
      rw [applyWrites, ih (fun w' hw' => h w' (List.mem_cons_of_mem w hw')),
        Function.update_of_ne (h w List.mem_cons_self).symm]

/-- Writes of one colour paint exactly the pixels they name. -/
theorem applyWrites_inside {scr : Screen} {ws : List Write} {q : Nat} {color : Color}
    (hcolor : ∀ w ∈ ws, w.color = color) (h : ∃ w ∈ ws, w.index = q) :
    (applyWrites scr ws q).rgb = color := by
  induction ws generalizing scr with
  | nil =>
      obtain ⟨w, hw, -⟩ := h
      cases hw
  | cons w ws ih =>
      have hcolor' : ∀ w' ∈ ws, w'.color = color := by
        intro w' hw'
        exact hcolor w' (List.mem_cons_of_mem w hw')
      by_cases hlater : ∃ w' ∈ ws, w'.index = q
      · exact ih hcolor' hlater
      · -- the head is the last write to this pixel
        obtain ⟨w', hw', hq⟩ := h
        rcases List.mem_cons.mp hw' with rfl | hw'
        · rw [applyWrites, applyWrites_outside, ← hq, Function.update_self, Pixel.rgb_paint]
          · exact hcolor w' List.mem_cons_self
          · intro w hw hwq
            exact hlater ⟨w, hw, hwq⟩
        · exact absurd ⟨w', hw', hq⟩ hlater

/-! ## The drawing functions -/

variable (fb : FrameBuffer) (font : Font)

def fill (color : Color) : List Write :=
  (List.range fb.height).flatMap fun i =>
    (List.range fb.width).map fun j => { index := fb.pixelIndex i j, color }

/-- Conversion of an `int` sum to `u32`. -/
def toU32 (z : Int) : Nat := (z % 2 ^ 32).toNat

def drawChar (c : Int8) (offsetX offsetY : Int) (color : Color) : List Write :=
  if c.toInt < 0 ∨ c.toInt ≥ fontCodeMax then []
  else
    (List.range fontHeight).flatMap fun (i : Nat) => (List.range fontWidth).flatMap fun (j : Nat) =>
      let x := toU32 (offsetX + i)
      let y := toU32 (offsetY + j)
      if x ≥ fb.height then []
      else if y ≥ fb.width then []
      else if (font c.toInt.toNat i).toNat.testBit (fontWidth - 1 - j) then
        [{ index := fb.pixelIndex x y, color }]
      else []

/-- The pixels of the frame buffer. -/
def FrameBuffer.area : Set Nat := {q | ∃ x < fb.height, ∃ y < fb.width, q = fb.pixelIndex x y}

variable {fb font}

theorem mem_fill {color : Color} {w : Write} :
    w ∈ fill fb color ↔ ∃ x < fb.height, ∃ y < fb.width, w = { index := fb.pixelIndex x y, color } := by
  unfold fill
  simp only [List.mem_flatMap, List.mem_map, List.mem_range]
  constructor
  · rintro ⟨x, hx, y, hy, rfl⟩
    exact ⟨x, hx, y, hy, rfl⟩
  · rintro ⟨x, hx, y, hy, rfl⟩
    exact ⟨x, hx, y, hy, rfl⟩

/-- The row and column `i`, `j` of the glyph of `c` is set. -/
def glyphBit (font : Font) (c : Int8) (i j : Nat) : Prop :=
  (0 ≤ c.toInt ∧ c.toInt < fontCodeMax) ∧ i < fontHeight ∧ j < fontWidth ∧
    (font c.toInt.toNat i).toNat.testBit (fontWidth - 1 - j) = true

/-- **What `draw_char` writes**: the set bits of the glyph that fall inside the frame buffer. -/
theorem mem_drawChar {c : Int8} {offsetX offsetY : Int} {color : Color} {w : Write} :
    w ∈ drawChar fb font c offsetX offsetY color ↔
      ∃ i j, glyphBit font c i j ∧ toU32 (offsetX + i) < fb.height ∧ toU32 (offsetY + j) < fb.width ∧
        w = { index := fb.pixelIndex (toU32 (offsetX + i)) (toU32 (offsetY + j)), color } := by
  unfold drawChar
  by_cases hc : c.toInt < 0 ∨ c.toInt ≥ fontCodeMax
  · rw [if_pos hc]
    constructor
    · intro h
      cases h
    · rintro ⟨i, j, ⟨hrange, -⟩, -⟩
      omega
  · rw [if_neg hc]
    simp only [List.mem_flatMap, List.mem_range]
    constructor
    · rintro ⟨i, hi, j, hj, h⟩
      by_cases hx : toU32 (offsetX + i) ≥ fb.height
      · rw [if_pos hx] at h
        cases h
      · by_cases hy : toU32 (offsetY + j) ≥ fb.width
        · rw [if_neg hx, if_pos hy] at h
          cases h
        · by_cases hbit : (font c.toInt.toNat i).toNat.testBit (fontWidth - 1 - j) = true
          · rw [if_neg hx, if_neg hy, if_pos hbit] at h
            exact ⟨i, j, ⟨by omega, hi, hj, hbit⟩, by omega, by omega, List.mem_singleton.mp h⟩
          · rw [if_neg hx, if_neg hy, if_neg hbit] at h
            cases h
    · rintro ⟨i, j, ⟨-, hi, hj, hbit⟩, hx, hy, rfl⟩
      refine ⟨i, hi, j, hj, ?_⟩
      rw [if_neg (by omega), if_neg (by omega), if_pos hbit]
      exact List.mem_singleton.mpr rfl

theorem drawChar_color {c : Int8} {offsetX offsetY : Int} {color : Color} {w : Write}
    (h : w ∈ drawChar fb font c offsetX offsetY color) : w.color = color := by
  obtain ⟨i, j, -, -, -, rfl⟩ := mem_drawChar.mp h
  rfl

theorem drawChar_area {c : Int8} {offsetX offsetY : Int} {color : Color} {w : Write}
    (h : w ∈ drawChar fb font c offsetX offsetY color) : w.index ∈ fb.area := by
  obtain ⟨i, j, -, hx, hy, rfl⟩ := mem_drawChar.mp h
  exact ⟨_, hx, _, hy, rfl⟩

theorem fill_color {color : Color} {w : Write} (h : w ∈ fill fb color) : w.color = color := by
  obtain ⟨x, -, y, -, rfl⟩ := mem_fill.mp h
  rfl

theorem fill_area {color : Color} {w : Write} (h : w ∈ fill fb color) : w.index ∈ fb.area := by
  obtain ⟨x, hx, y, hy, rfl⟩ := mem_fill.mp h
  exact ⟨x, hx, y, hy, rfl⟩

/-! ## Rows and columns -/

theorem area_lt {q : Nat} (h : q ∈ fb.area) : q < fb.width * fb.height := by
  obtain ⟨x, hx, y, hy, rfl⟩ := h
  have hmod : fb.width * x % 2 ^ 32 ≤ fb.width * x := Nat.mod_le _ _
  have hrow : fb.width * (x + 1) ≤ fb.width * fb.height := Nat.mul_le_mul_left _ hx
  rw [Nat.mul_succ] at hrow
  unfold FrameBuffer.pixelIndex
  omega

/-- On a frame buffer of at most `2 ^ 32` pixels the product does not wrap. -/
theorem pixelIndex_eq {x y : Nat} (hsize : fb.width * fb.height ≤ 2 ^ 32) (hx : x < fb.height)
    (hy : y < fb.width) : fb.pixelIndex x y = fb.width * x + y := by
  have hrow : fb.width * x < 2 ^ 32 :=
    Nat.lt_of_lt_of_le (Nat.mul_lt_mul_of_pos_left hx (Nat.zero_lt_of_lt hy)) hsize
  rw [FrameBuffer.pixelIndex, Nat.mod_eq_of_lt hrow]

theorem pixelIndex_inj {x y x' y' : Nat} (hsize : fb.width * fb.height ≤ 2 ^ 32)
    (hx : x < fb.height) (hy : y < fb.width) (hx' : x' < fb.height) (hy' : y' < fb.width)
    (h : fb.pixelIndex x y = fb.pixelIndex x' y') : x = x' ∧ y = y' := by
  rw [pixelIndex_eq hsize hx hy, pixelIndex_eq hsize hx' hy'] at h
  have hdiv : ∀ z w, w < fb.width → (fb.width * z + w) / fb.width = z := by
    intro z w hw
    rw [Nat.mul_add_div (by omega), Nat.div_eq_of_lt hw, Nat.add_zero]
  have hxx : x = x' := by rw [← hdiv x y hy, h, hdiv x' y' hy']
  subst hxx
  exact ⟨rfl, by omega⟩

end Terminal
end SysproKernel

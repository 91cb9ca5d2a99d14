import SysproKernel.Lib.ByteMem
import SysproKernel.Terminal.Screen

/-!
# `Boot.HardwareInfo` — the frame-buffer geometry handed to the kernel

`get_hardware_info` fills a `struct HardwareInfo` from the graphics mode, and the kernel copies the
struct into its own `hardware_info` before it reads any field. Both programs declare the struct; the
model keeps it as the bytes that pass between them, written at the boot loader's offsets and read at the
kernel's.

The hand-over itself is faithful (`handedOver_eq`). What it hands over is the *visible* size of the mode:
`width` is `HorizontalResolution`, and the kernel steps by `width` from one row to the next, while the
mode steps by `PixelsPerScanLine`. `geometry_agrees_iff` says on which modes this is the same.
-/

namespace SysproKernel
namespace Boot

open Lib.ByteMem Terminal

/-! ## The code -/

/-- `struct EFI_GRAPHICS_OUTPUT_MODE_INFORMATION`, the fields that describe the geometry. -/
structure ModeInformation where
  horizontalResolution : UInt32
  verticalResolution : UInt32
  pixelsPerScanLine : UInt32

/-- `struct EFI_GRAPHICS_OUTPUT_PROTOCOL_MODE`. -/
structure Mode where
  info : ModeInformation
  frameBufferBase : UInt64
  frameBufferSize : UInt64

/-- `get_hardware_info`: fills the struct at `hardwareInfo`; `acpiTable` is the result of
    `find_acpi_table`. -/
def getHardwareInfo (m : Mem) (hardwareInfo : Nat) (mode : Mode) (acpiTable : UInt64) : Mem :=
  let m := store m hardwareInfo 8 mode.frameBufferBase.toNat
  let m := store m (hardwareInfo + 8) 4 mode.info.horizontalResolution.toNat
  let m := store m (hardwareInfo + 12) 4 mode.info.verticalResolution.toNat
  let m := store m (hardwareInfo + 16) 4 mode.frameBufferSize.toNat
  store m (hardwareInfo + 24) 8 acpiTable.toNat

/-- `hardware_info = *_hardware_info` at the start of the kernel: the 32 bytes of the struct. -/
def copyHardwareInfo (m : Mem) (dst src : Nat) : Mem := writeBytes m dst (readBytes m src 32)

/-- `hardware_info.fb` as the kernel's drawing functions read it. -/
def frameBufferAt (m : Mem) (hardwareInfo : Nat) : FrameBuffer :=
  { base := load m hardwareInfo 8
    width := load m (hardwareInfo + 8) 4
    height := load m (hardwareInfo + 12) 4 }

/-- The kernel's frame buffer after the boot loader has filled `src` and the kernel has copied it to
    `dst`. -/
def handedOver (m : Mem) (dst src : Nat) (mode : Mode) (acpiTable : UInt64) : FrameBuffer :=
  frameBufferAt (copyHardwareInfo (getHardwareInfo m src mode acpiTable) dst src) dst

/-! ## The hand-over -/

/-- The copy of the struct reads like the original. -/
theorem load_copyHardwareInfo (m : Mem) (dst src : Nat) {i n : Nat} (h : i + n ≤ 32) :
    load (copyHardwareInfo m dst src) (dst + i) n = load m (src + i) n := by
  unfold load
  congr 1
  apply List.ext_getElem (by simp)
  intro k hk₁ hk₂
  have hk : k < n := by simpa using hk₁
  rw [readBytes_getElem, readBytes_getElem, copyHardwareInfo, Nat.add_assoc,
    writeBytes_inside (by simp; omega), readBytes_getElem, Nat.add_assoc]

section Filled

variable (m : Mem) (hardwareInfo : Nat) (mode : Mode) (acpiTable : UInt64)

theorem getHardwareInfo_base :
    load (getHardwareInfo m hardwareInfo mode acpiTable) hardwareInfo 8
      = mode.frameBufferBase.toNat := by
  unfold getHardwareInfo
  rw [load_store_disjoint (by omega), load_store_disjoint (by omega),
    load_store_disjoint (by omega), load_store_disjoint (by omega), load_store_self]
  exact Nat.mod_eq_of_lt mode.frameBufferBase.toNat_lt

theorem getHardwareInfo_width :
    load (getHardwareInfo m hardwareInfo mode acpiTable) (hardwareInfo + 8) 4
      = mode.info.horizontalResolution.toNat := by
  unfold getHardwareInfo
  rw [load_store_disjoint (by omega), load_store_disjoint (by omega),
    load_store_disjoint (by omega), load_store_self]
  exact Nat.mod_eq_of_lt mode.info.horizontalResolution.toNat_lt

theorem getHardwareInfo_height :
    load (getHardwareInfo m hardwareInfo mode acpiTable) (hardwareInfo + 12) 4
      = mode.info.verticalResolution.toNat := by
  unfold getHardwareInfo
  rw [load_store_disjoint (by omega), load_store_disjoint (by omega), load_store_self]
  exact Nat.mod_eq_of_lt mode.info.verticalResolution.toNat_lt

end Filled

/-- **The hand-over is faithful**: the kernel sees the base and the visible size of the mode, wherever
    the two structs lie. -/
theorem handedOver_eq (m : Mem) (dst src : Nat) (mode : Mode) (acpiTable : UInt64) :
    handedOver m dst src mode acpiTable =
      { base := mode.frameBufferBase.toNat
        width := mode.info.horizontalResolution.toNat
        height := mode.info.verticalResolution.toNat } := by
  have hbase := load_copyHardwareInfo (getHardwareInfo m src mode acpiTable) dst src
    (show 0 + 8 ≤ 32 by omega)
  have hwidth := load_copyHardwareInfo (getHardwareInfo m src mode acpiTable) dst src
    (show 8 + 4 ≤ 32 by omega)
  have hheight := load_copyHardwareInfo (getHardwareInfo m src mode acpiTable) dst src
    (show 12 + 4 ≤ 32 by omega)
  rw [Nat.add_zero, Nat.add_zero, getHardwareInfo_base] at hbase
  rw [getHardwareInfo_width] at hwidth
  rw [getHardwareInfo_height] at hheight
  rw [handedOver, frameBufferAt, hbase, hwidth, hheight]

/-! ## The geometry of the mode -/

/-- The address of the pixel in row `r` and column `c` of the mode. -/
def Mode.pixelAddress (mode : Mode) (r c : Nat) : Nat :=
  mode.frameBufferBase.toNat + 4 * (mode.info.pixelsPerScanLine.toNat * r + c)

/-- The addresses of the pixels of the mode, padding included. -/
def Mode.pixels (mode : Mode) : Set Nat :=
  {a | ∃ q < mode.info.pixelsPerScanLine.toNat * mode.info.verticalResolution.toNat,
    a = mode.frameBufferBase.toNat + 4 * q}

/-- The kernel draws in the geometry of the mode: `fill` colours every visible pixel, whatever was on
    the screen, and writes only pixels of the mode; `draw_char` sets, for a set bit of the glyph in row
    `r` and column `c`, the pixel of row `r` and column `c`. -/
structure GeometryAgrees (mode : Mode) (fb : FrameBuffer) : Prop where
  fills : ∀ (color : Color) (scr : Screen), ∀ r < mode.info.verticalResolution.toNat,
    ∀ c < mode.info.horizontalResolution.toNat, ∃ q, fb.base + 4 * q = mode.pixelAddress r c ∧
      (applyWrites scr (fill fb color) q).rgb = color
  inside : ∀ color, ∀ w ∈ fill fb color, fb.base + 4 * w.index ∈ mode.pixels
  draws : ∀ (font : Font) (ch : Int8) (offsetX offsetY : Int) (color : Color) (a : Nat),
    (∃ w ∈ drawChar fb font ch offsetX offsetY color, w.color = color ∧ fb.base + 4 * w.index = a) ↔
      ∃ i j, glyphBit font ch i j ∧ toU32 (offsetX + i) < mode.info.verticalResolution.toNat ∧
        toU32 (offsetY + j) < mode.info.horizontalResolution.toNat ∧
        a = mode.pixelAddress (toU32 (offsetX + i)) (toU32 (offsetY + j))

/-- The condition under which the kernel's row step is the mode's. -/
def Mode.Plain (mode : Mode) : Prop :=
  mode.info.verticalResolution.toNat = 1 ∨
    (mode.info.pixelsPerScanLine = mode.info.horizontalResolution ∧
      mode.info.horizontalResolution.toNat * (mode.info.verticalResolution.toNat - 1) < 2 ^ 32)

variable {mode : Mode}

/-- On a plain mode every row starts where the mode has it. -/
theorem Mode.Plain.pixelIndex (h : mode.Plain) {fb : FrameBuffer}
    (hwidth : fb.width = mode.info.horizontalResolution.toNat) {r : Nat}
    (hr : r < mode.info.verticalResolution.toNat) (c : Nat) :
    fb.pixelIndex r c = mode.info.pixelsPerScanLine.toNat * r + c := by
  unfold FrameBuffer.pixelIndex
  rw [hwidth]
  rcases h with hone | ⟨hpitch, hsmall⟩
  · obtain rfl : r = 0 := by omega
    simp
  · have hle : mode.info.horizontalResolution.toNat * r
        ≤ mode.info.horizontalResolution.toNat * (mode.info.verticalResolution.toNat - 1) :=
      Nat.mul_le_mul_left _ (by omega)
    rw [hpitch, Nat.mod_eq_of_lt (by omega)]

theorem Mode.Plain.agrees (h : mode.Plain) {fb : FrameBuffer}
    (hbase : fb.base = mode.frameBufferBase.toNat)
    (hwidth : fb.width = mode.info.horizontalResolution.toNat)
    (hheight : fb.height = mode.info.verticalResolution.toNat)
    (hpitch : mode.info.horizontalResolution.toNat ≤ mode.info.pixelsPerScanLine.toNat) :
    GeometryAgrees mode fb where
  fills color scr r hr c hc := by
    refine ⟨fb.pixelIndex r c, ?_, ?_⟩
    · rw [h.pixelIndex hwidth hr, hbase]
      rfl
    · apply applyWrites_inside (fun w hw => fill_color hw)
      exact ⟨_, mem_fill.mpr ⟨r, hheight ▸ hr, c, hwidth ▸ hc, rfl⟩, rfl⟩
  inside color w hw := by
    obtain ⟨r, hr, c, hc, rfl⟩ := mem_fill.mp hw
    rw [hheight] at hr
    rw [hwidth] at hc
    have hrow : mode.info.pixelsPerScanLine.toNat * (r + 1)
        ≤ mode.info.pixelsPerScanLine.toNat * mode.info.verticalResolution.toNat :=
      Nat.mul_le_mul_left _ hr
    rw [Nat.mul_succ] at hrow
    refine ⟨fb.pixelIndex r c, ?_, by rw [hbase]⟩
    rw [h.pixelIndex hwidth hr]
    omega
  draws font ch offsetX offsetY color a := by
    constructor
    · rintro ⟨w, hw, -, rfl⟩
      obtain ⟨i, j, hbit, hx, hy, rfl⟩ := mem_drawChar.mp hw
      rw [hheight] at hx
      rw [hwidth] at hy
      refine ⟨i, j, hbit, hx, hy, ?_⟩
      show fb.base + 4 * fb.pixelIndex _ _ = _
      rw [h.pixelIndex hwidth hx, hbase]
      rfl
    · rintro ⟨i, j, hbit, hx, hy, rfl⟩
      refine ⟨_, mem_drawChar.mpr ⟨i, j, hbit, hheight ▸ hx, hwidth ▸ hy, rfl⟩, rfl, ?_⟩
      show fb.base + 4 * fb.pixelIndex _ _ = _
      rw [h.pixelIndex hwidth hx, hbase]
      rfl

/-- A fill that reaches the last visible pixel of the mode steps by the mode's pitch. -/
theorem plain_of_fills {fb : FrameBuffer} (hagrees : GeometryAgrees mode fb)
    (hbase : fb.base = mode.frameBufferBase.toNat)
    (hwidth : fb.width = mode.info.horizontalResolution.toNat)
    (hheight : fb.height = mode.info.verticalResolution.toNat)
    (hH : 1 ≤ mode.info.horizontalResolution.toNat) (hV : 1 ≤ mode.info.verticalResolution.toNat)
    (hpitch : mode.info.horizontalResolution.toNat ≤ mode.info.pixelsPerScanLine.toNat) :
    mode.Plain := by
  have hHP := mode.info.pixelsPerScanLine.toNat_inj (b := mode.info.horizontalResolution)
  unfold Mode.Plain
  revert hwidth hheight hH hV hpitch hHP
  generalize hHdef : mode.info.horizontalResolution.toNat = H
  generalize hVdef : mode.info.verticalResolution.toNat = V
  generalize hPdef : mode.info.pixelsPerScanLine.toNat = P
  intro hwidth hheight hH hV hpitch hHP
  -- the last visible pixel is one of the pixels written: over a white screen it would not be black
  obtain ⟨q, hq, hrgb⟩ := hagrees.fills colorBlack (fun _ => ⟨255, 255, 255, 0⟩) (V - 1)
    (by omega) (H - 1) (by omega)
  have hwritten : ∃ w ∈ fill fb colorBlack, w.index = q := by
    by_contra hnone
    rw [applyWrites_outside (fun w hw hwq => hnone ⟨w, hw, hwq⟩)] at hrgb
    exact absurd hrgb (by decide)
  obtain ⟨w, hw, rfl⟩ := hwritten
  obtain ⟨r, hr, c, hc, rfl⟩ := mem_fill.mp hw
  rw [hheight] at hr
  rw [hwidth] at hc
  have hindex : H * r % 2 ^ 32 + c = P * (V - 1) + (H - 1) := by
    unfold Mode.pixelAddress at hq
    rw [hPdef, hbase] at hq
    have hunfold : fb.pixelIndex r c = H * r % 2 ^ 32 + c := by
      rw [FrameBuffer.pixelIndex, hwidth]
    dsimp only at hq
    rw [hunfold] at hq
    omega
  have hmod : H * r % 2 ^ 32 ≤ H * r := Nat.mod_le _ _
  have hlt : H * r % 2 ^ 32 < 2 ^ 32 := Nat.mod_lt _ (by decide)
  have hrow : H * r ≤ H * (V - 1) := Nat.mul_le_mul_left _ (by omega)
  have hstep : P * (V - 1) ≤ H * (V - 1) := by omega
  rcases Nat.eq_or_lt_of_le hV with hone | hmany
  · exact Or.inl hone.symm
  · have heq : P = H := Nat.le_antisymm (Nat.le_of_mul_le_mul_right hstep (by omega)) hpitch
    subst heq
    exact Or.inr ⟨hHP.mp rfl, by omega⟩

/-- **Boot loader and kernel agree on the geometry exactly on plain modes**: a single row, or rows
    without padding whose offsets fit in 32 bits. -/
theorem geometry_agrees_iff (m : Mem) (dst src : Nat) (mode : Mode) (acpiTable : UInt64)
    (hH : 1 ≤ mode.info.horizontalResolution.toNat) (hV : 1 ≤ mode.info.verticalResolution.toNat)
    (hpitch : mode.info.horizontalResolution.toNat ≤ mode.info.pixelsPerScanLine.toNat) :
    GeometryAgrees mode (handedOver m dst src mode acpiTable) ↔ mode.Plain := by
  rw [handedOver_eq]
  constructor
  · intro hagrees
    exact plain_of_fills hagrees rfl rfl rfl hH hV hpitch
  · intro hplain
    exact hplain.agrees rfl rfl rfl hpitch

/-- The mode 800 × 600 without padding. -/
theorem geometry_agrees_800x600 :
    1 ≤ (800 : UInt32).toNat ∧ GeometryAgrees ⟨⟨800, 600, 800⟩, 0xc0000000, 0x1d4c00⟩
      (handedOver (fun _ => 0) 0x100006000 0x7e00000 ⟨⟨800, 600, 800⟩, 0xc0000000, 0x1d4c00⟩ 0) := by
  refine ⟨by decide, (geometry_agrees_iff (fun _ => 0) 0x100006000 0x7e00000
    ⟨⟨800, 600, 800⟩, 0xc0000000, 0x1d4c00⟩ 0 (by decide) (by decide) (by decide)).mpr ?_⟩
  exact Or.inr ⟨rfl, by decide⟩

/-- The mode 800 × 600 with scan lines of 1024 pixels: the second row starts 224 pixels early. -/
theorem geometry_disagrees_padded :
    ¬ GeometryAgrees ⟨⟨800, 600, 1024⟩, 0xc0000000, 0x258000⟩
      (handedOver (fun _ => 0) 0x100006000 0x7e00000 ⟨⟨800, 600, 1024⟩, 0xc0000000, 0x258000⟩ 0) := by
  rw [handedOver_eq]
  intro hagrees
  have hplain := plain_of_fills hagrees rfl rfl rfl (by decide) (by decide) (by decide)
  rcases hplain with h | ⟨h, -⟩
  · exact absurd h (by decide)
  · exact absurd h (by decide)

end Boot
end SysproKernel

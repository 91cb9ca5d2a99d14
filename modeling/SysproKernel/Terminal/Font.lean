import Mathlib.Init

/-!
# `Terminal.Font` — the bitmap font

The table of font.c. A glyph is eight rows of eight pixels, the most significant bit leftmost; the codes
without an initialiser have blank glyphs.
-/

namespace SysproKernel
namespace Terminal

def fontWidth : Nat := 8
def fontHeight : Nat := 8
def fontCodeMax : Nat := 128

/-- A font table: the rows of the glyph of each code. -/
abbrev Font := Nat → Nat → UInt8

/-- The initialisers of font.c. -/
def glyphRows : Nat → List UInt8
  | 33 =>
      [0b00111000, 0b00111000, 0b00111000, 0b00010000,
        0b00000000, 0b00111000, 0b00111000, 0b00000000]
  | 35 =>
      [0b00101000, 0b00101000, 0b11111110, 0b00101000,
        0b11111110, 0b00101000, 0b00101000, 0b00000000]
  | 36 =>
      [0b01111100, 0b10010010, 0b10010000, 0b01111100,
        0b00010010, 0b10010010, 0b01111100, 0b00000000]
  | 37 =>
      [0b11100010, 0b10100100, 0b11101000, 0b00010000,
        0b00101110, 0b01001010, 0b10001110, 0b00000000]
  | 38 =>
      [0b00110000, 0b01001000, 0b00110000, 0b01110000,
        0b10001010, 0b10000100, 0b01111010, 0b00000000]
  | 39 =>
      [0b00111000, 0b00111000, 0b00010000, 0b00100000,
        0b00000000, 0b00000000, 0b00000000, 0b00000000]
  | 40 =>
      [0b00011000, 0b00100000, 0b01000000, 0b01000000,
        0b01000000, 0b00100000, 0b00011000, 0b00000000]
  | 41 =>
      [0b00110000, 0b00001000, 0b00000100, 0b00000100,
        0b00000100, 0b00001000, 0b00110000, 0b00000000]
  | 42 =>
      [0b00000000, 0b01000100, 0b00101000, 0b11101110,
        0b00101000, 0b01000100, 0b00000000, 0b00000000]
  | 43 =>
      [0b00000000, 0b00010000, 0b00010000, 0b01111100,
        0b00010000, 0b00010000, 0b00000000, 0b00000000]
  | 44 =>
      [0b00000000, 0b00000000, 0b00000000, 0b00111000,
        0b00111000, 0b00010000, 0b00100000, 0b00000000]
  | 45 =>
      [0b00000000, 0b00000000, 0b00000000, 0b01111100,
        0b00000000, 0b00000000, 0b00000000, 0b00000000]
  | 46 =>
      [0b00000000, 0b00000000, 0b00000000, 0b00000000,
        0b00111000, 0b00111000, 0b00111000, 0b00000000]
  | 47 =>
      [0b00000010, 0b00000100, 0b00001000, 0b00010000,
        0b00100000, 0b01000000, 0b10000000, 0b00000000]
  | 48 =>
      [0b00111000, 0b01000100, 0b10100010, 0b10010010,
        0b10001010, 0b01000100, 0b00111000, 0b00000000]
  | 49 =>
      [0b00010000, 0b00110000, 0b01010000, 0b00010000,
        0b00010000, 0b00010000, 0b01111100, 0b00000000]
  | 50 =>
      [0b01111100, 0b10000010, 0b00000010, 0b01111100,
        0b10000000, 0b10000000, 0b11111110, 0b00000000]
  | 51 =>
      [0b01111100, 0b10000010, 0b00000010, 0b01111100,
        0b00000010, 0b10000010, 0b01111100, 0b00000000]
  | 52 =>
      [0b10000000, 0b10000100, 0b10000100, 0b11111110,
        0b00000100, 0b00000100, 0b00000100, 0b00000000]
  | 53 =>
      [0b11111110, 0b10000000, 0b10000000, 0b01111100,
        0b00000010, 0b10000010, 0b01111100, 0b00000000]
  | 54 =>
      [0b01111100, 0b10000010, 0b10000000, 0b11111100,
        0b10000010, 0b10000010, 0b01111100, 0b00000000]
  | 55 =>
      [0b11111110, 0b10000100, 0b00001000, 0b00010000,
        0b00100000, 0b00100000, 0b00100000, 0b00000000]
  | 56 =>
      [0b01111100, 0b10000010, 0b10000010, 0b01111100,
        0b10000010, 0b10000010, 0b01111100, 0b00000000]
  | 57 =>
      [0b01111100, 0b10000010, 0b10000010, 0b01111110,
        0b00000010, 0b10000010, 0b01111100, 0b00000000]
  | 58 =>
      [0b00010000, 0b00101000, 0b00010000, 0b00000000,
        0b00010000, 0b00101000, 0b00010000, 0b00000000]
  | 59 =>
      [0b00111000, 0b00111000, 0b00000000, 0b00111000,
        0b00111000, 0b00010000, 0b00100000, 0b00000000]
  | 60 =>
      [0b00001000, 0b00010000, 0b00100000, 0b01000000,
        0b00100000, 0b00010000, 0b00001000, 0b00000000]
  | 61 =>
      [0b00000000, 0b00000000, 0b01111100, 0b00000000,
        0b01111100, 0b00000000, 0b00000000, 0b00000000]
  | 62 =>
      [0b00100000, 0b00010000, 0b00001000, 0b00000100,
        0b00001000, 0b00010000, 0b00100000, 0b00000000]
  | 63 =>
      [0b01111100, 0b10000010, 0b00000010, 0b00001100,
        0b00010000, 0b00000000, 0b00010000, 0b00000000]
  | 64 =>
      [0b01111100, 0b10000010, 0b10111010, 0b10101010,
        0b10111100, 0b10000010, 0b01111100, 0b00000000]
  | 65 =>
      [0b00010000, 0b00101000, 0b01000100, 0b10000010,
        0b11111110, 0b10000010, 0b10000010, 0b00000000]
  | 66 =>
      [0b11111100, 0b10000010, 0b10000010, 0b11111100,
        0b10000010, 0b10000010, 0b11111100, 0b00000000]
  | 67 =>
      [0b01111100, 0b10000010, 0b10000000, 0b10000000,
        0b10000000, 0b10000010, 0b01111100, 0b00000000]
  | 68 =>
      [0b11111100, 0b10000010, 0b10000010, 0b10000010,
        0b10000010, 0b10000010, 0b11111100, 0b00000000]
  | 69 =>
      [0b11111110, 0b10000000, 0b10000000, 0b11111000,
        0b10000000, 0b10000000, 0b11111110, 0b00000000]
  | 70 =>
      [0b11111110, 0b10000000, 0b10000000, 0b11111000,
        0b10000000, 0b10000000, 0b10000000, 0b00000000]
  | 71 =>
      [0b01111100, 0b10000010, 0b10000000, 0b10011110,
        0b10000010, 0b10000010, 0b01111100, 0b00000000]
  | 72 =>
      [0b10000010, 0b10000010, 0b10000010, 0b11111110,
        0b10000010, 0b10000010, 0b10000010, 0b00000000]
  | 73 =>
      [0b00111000, 0b00010000, 0b00010000, 0b00010000,
        0b00010000, 0b00010000, 0b00111000, 0b00000000]
  | 74 =>
      [0b00000010, 0b00000010, 0b00000010, 0b00000010,
        0b10000010, 0b10000010, 0b01111100, 0b00000000]
  | 75 =>
      [0b10000100, 0b10001000, 0b10010000, 0b11100000,
        0b10010000, 0b10001000, 0b10000100, 0b00000000]
  | 76 =>
      [0b10000000, 0b10000000, 0b10000000, 0b10000000,
        0b10000000, 0b10000000, 0b11111110, 0b00000000]
  | 77 =>
      [0b10000010, 0b11000110, 0b10101010, 0b10010010,
        0b10000010, 0b10000010, 0b10000010, 0b00000000]
  | 78 =>
      [0b10000010, 0b11000010, 0b10100010, 0b10010010,
        0b10001010, 0b10000110, 0b10000010, 0b00000000]
  | 79 =>
      [0b11111110, 0b10000010, 0b10000010, 0b10000010,
        0b10000010, 0b10000010, 0b11111110, 0b00000000]
  | 80 =>
      [0b11111100, 0b10000010, 0b10000010, 0b11111100,
        0b10000000, 0b10000000, 0b10000000, 0b00000000]
  | 81 =>
      [0b01111100, 0b10000010, 0b10000010, 0b10000010,
        0b10001010, 0b10000100, 0b01111010, 0b00000000]
  | 82 =>
      [0b11111100, 0b10000010, 0b10000010, 0b11111100,
        0b10001000, 0b10000100, 0b10000010, 0b00000000]
  | 83 =>
      [0b01111100, 0b10000010, 0b10000000, 0b01111100,
        0b00000010, 0b10000010, 0b01111100, 0b00000000]
  | 84 =>
      [0b11111110, 0b00010000, 0b00010000, 0b00010000,
        0b00010000, 0b00010000, 0b00010000, 0b00000000]
  | 85 =>
      [0b10000010, 0b10000010, 0b10000010, 0b10000010,
        0b10000010, 0b10000010, 0b01111100, 0b00000000]
  | 86 =>
      [0b10000010, 0b10000010, 0b10000010, 0b10000010,
        0b01000100, 0b00101000, 0b00010000, 0b00000000]
  | 87 =>
      [0b10000010, 0b10010010, 0b10010010, 0b10010010,
        0b10010010, 0b10010010, 0b01101100, 0b00000000]
  | 88 =>
      [0b10000010, 0b01000100, 0b00101000, 0b00010000,
        0b00101000, 0b01000100, 0b10000010, 0b00000000]
  | 89 =>
      [0b10000010, 0b01000100, 0b00101000, 0b00010000,
        0b00010000, 0b00010000, 0b00010000, 0b00000000]
  | 90 =>
      [0b11111110, 0b00000100, 0b00001000, 0b00010000,
        0b00100000, 0b01000000, 0b11111110, 0b00000000]
  | 91 =>
      [0b01111100, 0b01000000, 0b01000000, 0b01000000,
        0b01000000, 0b01000000, 0b01111100, 0b00000000]
  | 93 =>
      [0b01111100, 0b00000100, 0b00000100, 0b00000100,
        0b00000100, 0b00000100, 0b01111100, 0b00000000]
  | 94 =>
      [0b00010000, 0b00101000, 0b01000100, 0b00000000,
        0b00000000, 0b00000000, 0b00000000, 0b00000000]
  | 95 =>
      [0b00000000, 0b00000000, 0b00000000, 0b00000000,
        0b00000000, 0b00000000, 0b11111110, 0b00000000]
  | 97 =>
      [0b00000000, 0b00011000, 0b00100100, 0b01000010,
        0b01111110, 0b01000010, 0b01000010, 0b00000000]
  | 98 =>
      [0b00000000, 0b01111100, 0b01000010, 0b01111100,
        0b01000010, 0b01000010, 0b01111100, 0b00000000]
  | 99 =>
      [0b00000000, 0b00111100, 0b01000010, 0b01000000,
        0b01000000, 0b01000010, 0b00111100, 0b00000000]
  | 100 =>
      [0b00000000, 0b01111100, 0b01000010, 0b01000010,
        0b01000010, 0b01000010, 0b01111100, 0b00000000]
  | 101 =>
      [0b00000000, 0b01111110, 0b01000000, 0b01111100,
        0b01000000, 0b01000000, 0b01111110, 0b00000000]
  | 102 =>
      [0b00000000, 0b01111110, 0b01000000, 0b01111100,
        0b01000000, 0b01000000, 0b01000000, 0b00000000]
  | 103 =>
      [0b00000000, 0b00111100, 0b01000010, 0b01000000,
        0b01001110, 0b01000010, 0b00111100, 0b00000000]
  | 104 =>
      [0b00000000, 0b01000010, 0b01000010, 0b01111110,
        0b01000010, 0b01000010, 0b01000010, 0b00000000]
  | 105 =>
      [0b00000000, 0b00001000, 0b00001000, 0b00001000,
        0b00001000, 0b00001000, 0b00001000, 0b00000000]
  | 106 =>
      [0b00000000, 0b00000010, 0b00000010, 0b00000010,
        0b00000010, 0b01000010, 0b00111100, 0b00000000]
  | 107 =>
      [0b00000000, 0b01000010, 0b01000100, 0b01111000,
        0b01001000, 0b01000100, 0b01000010, 0b00000000]
  | 108 =>
      [0b00000000, 0b01000000, 0b01000000, 0b01000000,
        0b01000000, 0b01000000, 0b01111110, 0b00000000]
  | 109 =>
      [0b00000000, 0b01000010, 0b01100110, 0b01011010,
        0b01000010, 0b01000010, 0b01000010, 0b00000000]
  | 110 =>
      [0b00000000, 0b01000010, 0b01100010, 0b01010010,
        0b01001010, 0b01000110, 0b01000010, 0b00000000]
  | 111 =>
      [0b00000000, 0b00111100, 0b01000010, 0b01000010,
        0b01000010, 0b01000010, 0b00111100, 0b00000000]
  | 112 =>
      [0b00000000, 0b01111100, 0b01000010, 0b01000010,
        0b01111100, 0b01000000, 0b01000000, 0b00000000]
  | 113 =>
      [0b00000000, 0b00111100, 0b01000010, 0b01000010,
        0b01001010, 0b01000100, 0b00111010, 0b00000000]
  | 114 =>
      [0b00000000, 0b01111100, 0b01000010, 0b01000010,
        0b01111100, 0b01000100, 0b01000010, 0b00000000]
  | 115 =>
      [0b00000000, 0b00111100, 0b01000000, 0b00111100,
        0b00000010, 0b01000010, 0b00111100, 0b00000000]
  | 116 =>
      [0b00000000, 0b00111110, 0b00001000, 0b00001000,
        0b00001000, 0b00001000, 0b00001000, 0b00000000]
  | 117 =>
      [0b00000000, 0b01000010, 0b01000010, 0b01000010,
        0b01000010, 0b01000010, 0b00111100, 0b00000000]
  | 118 =>
      [0b00000000, 0b01000010, 0b01000010, 0b01000010,
        0b01000010, 0b00100100, 0b00011000, 0b00000000]
  | 119 =>
      [0b00000000, 0b01000010, 0b01000010, 0b01000010,
        0b01011010, 0b01100110, 0b01000010, 0b00000000]
  | 120 =>
      [0b00000000, 0b01000010, 0b00100100, 0b00011000,
        0b00011000, 0b00100100, 0b01000010, 0b00000000]
  | 121 =>
      [0b00000000, 0b00100010, 0b00010100, 0b00001000,
        0b00001000, 0b00001000, 0b00001000, 0b00000000]
  | 122 =>
      [0b00000000, 0b01111110, 0b00000100, 0b00001000,
        0b00010000, 0b00100000, 0b01111110, 0b00000000]
  | 123 =>
      [0b00111000, 0b01000000, 0b01000000, 0b11000000,
        0b01000000, 0b01000000, 0b00111000, 0b00000000]
  | 124 =>
      [0b00010000, 0b00010000, 0b00010000, 0b00000000,
        0b00010000, 0b00010000, 0b00010000, 0b00000000]
  | 125 =>
      [0b00111000, 0b00000100, 0b00000100, 0b00000110,
        0b00000100, 0b00000100, 0b00111000, 0b00000000]
  | 126 =>
      [0b01100000, 0b10010010, 0b00001100, 0b00000000,
        0b00000000, 0b00000000, 0b00000000, 0b00000000]
  | 127 =>
      [0b10101010, 0b01010100, 0b10101010, 0b01010100,
        0b10101010, 0b01010100, 0b10101010, 0b00000000]
  | _ => []

/-- `font[code][row]`. -/
def font : Font := fun code row => (glyphRows code).getD row 0

end Terminal
end SysproKernel

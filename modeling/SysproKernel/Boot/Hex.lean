import Mathlib.Algebra.Ring.Int.Defs
import Mathlib.Data.UInt
import SysproKernel.Terminal.Hex

/-!
# `Boot.Hex` — `puth` of the boot loader

The boot loader's hexadecimal printer (bootloader/util.c) stores the lowest `width` digits of a value
into a buffer of `width + 1` wide characters, the last one first. `puth_eq` says what it prints, and
`hexText_eq` that a value with no more digits than that is printed by the kernel in the same way.
-/

namespace SysproKernel
namespace Boot

open Lib.CStr
open Terminal (hexText hexDigits tohexchar)

/-! ## The routine -/

/-- `CHAR16 buffer[width+1]`. -/
abbrev WideBuf := Nat → UInt16

/-- `offset < 0xa ? L'0' + offset : L'A' + (offset - 0xa)` -/
def hexChar (offset : UInt16) : UInt16 :=
  if offset < 0xa then 0x30 + offset else 0x41 + (offset - 0xa)

/-- `for (int i = (int)width - 1; i >= 0; i--)`, with `i + 1` cells to go. -/
def storeDigits (value : UInt64) : Nat → WideBuf → WideBuf
  | 0,     buffer => buffer
  | i + 1, buffer =>
      let offset := (value &&& 0x0f).toUInt16
      storeDigits (value >>> 4) i (Function.update buffer i (hexChar offset))

/-- The characters that `puts` is given. `buffer` is what the stack holds at first. -/
def puth (buffer : WideBuf) (value : UInt64) (width : UInt8) : List UInt16 :=
  let buffer := storeDigits value width.toNat buffer
  let buffer := Function.update buffer width.toNat 0
  text buffer (width.toNat + 1)

/-! ## What it prints -/

/-- The lowest `n` digits of a number, the highest first. -/
def lowDigits : Nat → Nat → List Nat
  | _,     0     => []
  | value, n + 1 => lowDigits (value / 16) n ++ [value % 16]

/-- A character of the kernel as a wide one. -/
def widen (c : Int8) : UInt16 := c.toUInt8.toUInt16

variable {value n k : Nat} {buffer : WideBuf} {s : List UInt16}

theorem lowDigits_length (value n : Nat) : (lowDigits value n).length = n := by
  induction n generalizing value with
  | zero => rfl
  | succ n ih => rw [lowDigits, List.length_append, ih, List.length_singleton]

theorem lowDigits_lt {d : Nat} (h : d ∈ lowDigits value n) : d < 16 := by
  induction n generalizing value with
  | zero => cases h
  | succ n ih =>
      rcases List.mem_append.mp h with h | h
      · exact ih h
      · rw [List.mem_singleton.mp h]
        exact Nat.mod_lt _ (by decide)

theorem ofDigits_lowDigits (h : value < 16 ^ n) :
    Nat.ofDigits 16 (lowDigits value n).reverse = value := by
  induction n generalizing value with
  | zero =>
      obtain rfl : value = 0 := Nat.lt_one_iff.mp h
      rfl
  | succ n ih =>
      have hdiv : value / 16 < 16 ^ n := Nat.div_lt_of_lt_mul (by rwa [Nat.pow_succ'] at h)
      rw [lowDigits, List.reverse_append, List.reverse_singleton, List.singleton_append,
        Nat.ofDigits_cons, ih hdiv]
      exact Nat.mod_add_div value 16

/-- **The kernel's digits** of a value that needs no more than `n` of them. -/
theorem hexText_eq (hn : 0 < n) (h : value < 16 ^ n) :
    hexText value n = (lowDigits value n).map tohexchar := by
  have hlen := Terminal.hexDigits_length_le hn h
  have hdigits : List.replicate (n - (hexDigits value).length) 0 ++ hexDigits value
      = lowDigits value n := by
    -- lists of digits of one length that stand for one number
    apply List.reverse_injective
    refine Nat.ofDigits_inj_of_len_eq (by decide : 1 < 16) ?_ ?_ ?_ ?_
    · rw [List.length_reverse, List.length_reverse, List.length_append, List.length_replicate,
        lowDigits_length]
      omega
    · exact fun d hd => Terminal.padded_lt (List.mem_reverse.mp hd)
    · exact fun d hd => lowDigits_lt (List.mem_reverse.mp hd)
    · rw [Terminal.ofDigits_padded, ofDigits_lowDigits h]
  rw [hexText, hdigits]

theorem hexChar_eq {d : Nat} (h : d < 16) : hexChar (UInt16.ofNat d) = widen (tohexchar d) := by
  have hall : ∀ d : Fin 16, hexChar (UInt16.ofNat d) = widen (tohexchar d) := by decide
  exact hall ⟨d, h⟩

theorem widen_ne_zero {d : Nat} (h : d < 16) : widen (tohexchar d) ≠ 0 := by
  have hall : ∀ d : Fin 16, widen (tohexchar d) ≠ 0 := by decide
  exact hall ⟨d, h⟩

theorem offset_eq (value : UInt64) : (value &&& 0x0f).toUInt16 = UInt16.ofNat (value.toNat % 16) := by
  have hand : (value &&& 0x0f).toNat = value.toNat % 16 := by
    rw [UInt64.toNat_and]
    exact Nat.and_two_pow_sub_one_eq_mod value.toNat 4
  apply UInt16.toNat_inj.mp
  rw [UInt64.toNat_toUInt16, hand, UInt16.toNat_ofNat']

theorem toNat_shiftRight_four (value : UInt64) : (value >>> 4).toNat = value.toNat / 16 := by
  simp [Nat.shiftRight_eq_div_pow]

/-- The loop neither reads nor writes the cells behind the digits. -/
theorem storeDigits_update (value : UInt64) (buffer : WideBuf) (c : UInt16) (h : n ≤ k) :
    storeDigits value n (Function.update buffer k c) = Function.update (storeDigits value n buffer) k c := by
  induction n generalizing value buffer with
  | zero => rfl
  | succ n ih =>
      rw [storeDigits, Function.update_comm (by omega), ih _ _ (by omega), storeDigits]

/-- The digits are stored in front of a string. -/
theorem storeDigits_holds (value : UInt64) (h : Lib.CStr.Holds (fun j => buffer (n + j)) s) :
    Lib.CStr.Holds (storeDigits value n buffer)
      ((lowDigits value.toNat n).map (fun d => widen (tohexchar d)) ++ s) := by
  induction n generalizing value buffer s with
  | zero =>
      rw [funext fun j => congrArg buffer (Nat.zero_add j)] at h
      exact h
  | succ n ih =>
      have hdigit : value.toNat % 16 < 16 := Nat.mod_lt _ (by decide)
      have hrest := ih (value >>> 4) (h.store_front (widen_ne_zero hdigit))
      rw [toNat_shiftRight_four] at hrest
      rw [storeDigits, offset_eq, hexChar_eq hdigit, lowDigits, List.map_append, List.append_assoc]
      exact hrest

/-- **What the boot loader's `puth` prints**: the lowest digits, as many as it is told. -/
theorem puth_eq (buffer : WideBuf) (value : UInt64) (width : UInt8) :
    puth buffer value width = (lowDigits value.toNat width.toNat).map (fun d => widen (tohexchar d)) := by
  have hnul : Lib.CStr.Holds (fun j => Function.update buffer width.toNat 0 (width.toNat + j)) [] :=
    holds_nil (Function.update_self _ _ _)
  have hholds := storeDigits_holds value hnul
  rw [storeDigits_update _ _ _ (Nat.le_refl _), List.append_nil] at hholds
  refine hholds.text_of_le ?_
  rw [List.length_map, lowDigits_length]
  exact Nat.le_succ _

/-! ## The two printers -/

/-- **Hex printing is lossless and the two printers agree.** The kernel's `puth` prints upper-case digits
    that read as the value, as many as asked for or needed, inside its buffer; where the digits asked for
    are enough, the boot loader's `puth` prints the same. -/
theorem puth_agree (buf : Terminal.HexBuf) (buffer : WideBuf) (value : UInt64) (digitsLen : UInt8) :
    ∃ s buf', Terminal.puth buf value.toNat digitsLen.toNat = .ok (s, buf') ∧
      (∀ c ∈ s, c ∈ Terminal.literal "0123456789ABCDEF") ∧
      Terminal.hexValue s = some value.toNat ∧
      s.length = max digitsLen.toNat (Nat.log 16 value.toNat + 1) ∧
      (1 ≤ digitsLen → value.toNat < 16 ^ digitsLen.toNat →
        puth buffer value digitsLen = s.map widen) := by
  obtain ⟨buf', hrun⟩ := Terminal.puth_eq buf value.toNat_lt digitsLen.toNat
  refine ⟨_, buf', hrun, ?_, Terminal.hexValue_hexText _ _, ?_, ?_⟩
  · intro c hc
    obtain ⟨d, hd, rfl⟩ := List.mem_map.mp hc
    have hall : ∀ d : Fin 16, tohexchar d ∈ Terminal.literal "0123456789ABCDEF" := by decide
    exact hall ⟨d, Terminal.padded_lt hd⟩
  · rw [Terminal.hexText_length, Terminal.hexDigits_length]
  · intro hpos hfits
    rw [puth_eq, hexText_eq (UInt8.le_iff_toNat_le.mp hpos) hfits, List.map_map]
    rfl

end Boot
end SysproKernel

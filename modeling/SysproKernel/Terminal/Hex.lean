import Mathlib.Data.Nat.Digits.Lemmas
import SysproKernel.Console
import SysproKernel.Lib.CStr

/-!
# `Terminal.Hex` — `puth`

The hexadecimal printer of util.c, over its 17-byte buffer: the digits are stored from the end, and the
string they form is printed behind the zeros that are missing. `puth_eq` says what is printed for a 64-bit
value, and that the buffer is never left; `hexValue_hexText` reads it back.
-/

namespace SysproKernel
namespace Terminal

open Lib.CStr

/-! ## The routine -/

/-- `MAX_LEN`. -/
def maxLen : Nat := 16

/-- `buf`. -/
abbrev HexBuf := Nat → Int8

/-- An access outside `buf`, below or above it. -/
inductive OutOfBuf where
  | below
  | above
  deriving DecidableEq, Repr

def tohexchar (x : Nat) : Int8 := if x < 10 then 0x30 + Int8.ofNat x else 0x41 + Int8.ofNat (x - 10)

/-- `char *ptr = buf + MAX_LEN; if (value == 0) *--ptr = '0';` -/
def putZero (value : Nat) (buf : HexBuf) : Nat × HexBuf :=
  if value = 0 then (maxLen - 1, Function.update buf (maxLen - 1) 0x30) else (maxLen, buf)

/-- `while (value) *--ptr = tohexchar(value % 16), value /= 16;` -/
def putDigits (value : Nat) : Nat → HexBuf → Except OutOfBuf (Nat × HexBuf)
  | 0,       buf => if value = 0 then .ok (0, buf) else .error .below
  | ptr + 1, buf =>
      if value = 0 then .ok (ptr + 1, buf)
      else putDigits (value / 16) ptr (Function.update buf ptr (tohexchar (value % 16)))

/-- `for (; *ptr; ptr++) putc(*ptr);` with `n` bytes of `buf` left: the characters printed. -/
def putFrom (buf : HexBuf) (ptr : Nat) : Nat → Except OutOfBuf (List Int8)
  | 0     => .error .above
  | n + 1 =>
      if buf ptr = 0 then .ok []
      else do
        let rest ← putFrom buf (ptr + 1) n
        return buf ptr :: rest

/-- The characters that are printed, and `buf`, which is static. -/
def puth (buf : HexBuf) (value digitsLen : Nat) : Except OutOfBuf (List Int8 × HexBuf) := do
  let start := putZero value (Function.update buf maxLen 0)
  let (ptr, buf) ← putDigits value start.1 start.2
  -- `remaining` is an `int`, and a negative one is set to 0
  let remaining := digitsLen - (maxLen - ptr)
  let digits ← putFrom buf ptr (maxLen + 1 - ptr)
  return (List.replicate remaining 0x30 ++ digits, buf)

/-! ## What it prints -/

/-- The digits of a number, the highest first. -/
def hexDigits (value : Nat) : List Nat := if value = 0 then [0] else (Nat.digits 16 value).reverse

/-- The digits with the zeros in front. -/
def hexText (value digitsLen : Nat) : List Int8 :=
  (List.replicate (digitsLen - (hexDigits value).length) 0 ++ hexDigits value).map tohexchar

/-- The string at `ptr` in `buf` ends at its last byte. -/
structure EndsBuf (buf : HexBuf) (ptr : Nat) (s : List Int8) : Prop where
  holds : Holds (fun j => buf (ptr + j)) s
  length : ptr + s.length = maxLen

variable {buf : HexBuf} {ptr value : Nat} {s : List Int8}

theorem tohexchar_ne_zero {x : Nat} (h : x < 16) : tohexchar x ≠ 0 := by
  have hall : ∀ x : Fin 16, tohexchar x ≠ 0 := by decide
  exact hall ⟨x, h⟩

/-- A character stored in front of the string. -/
theorem EndsBuf.cons (h : EndsBuf buf (ptr + 1) s) {c : Int8} (hc : c ≠ 0) :
    EndsBuf (Function.update buf ptr c) ptr (c :: s) := by
  refine ⟨h.holds.store_front hc, ?_⟩
  have hlen := h.length
  rw [List.length_cons]
  omega

/-- **The digits** are stored in front of what is there, while there is room. -/
theorem putDigits_ok (h : EndsBuf buf ptr s) (hv : value < 16 ^ ptr) :
    ∃ ptr' buf', putDigits value ptr buf = .ok (ptr', buf') ∧
      EndsBuf buf' ptr' ((Nat.digits 16 value).reverse.map tohexchar ++ s) := by
  induction ptr generalizing buf value s with
  | zero =>
      have hzero : value = 0 := by omega
      subst hzero
      exact ⟨0, buf, if_pos rfl, by simpa using h⟩
  | succ ptr ih =>
      by_cases hzero : value = 0
      · subst hzero
        exact ⟨ptr + 1, buf, if_pos rfl, by simpa using h⟩
      · have hdigit : tohexchar (value % 16) ≠ 0 := tohexchar_ne_zero (Nat.mod_lt _ (by decide))
        have hv' : value / 16 < 16 ^ ptr := by
          rw [Nat.pow_succ] at hv
          omega
        obtain ⟨ptr', buf', hrun, hends⟩ := ih (h.cons hdigit) hv'
        refine ⟨ptr', buf', (if_neg hzero).trans hrun, ?_⟩
        rw [Nat.digits_def' (by decide) (Nat.pos_of_ne_zero hzero)]
        simpa using hends

theorem putFrom_ok {n : Nat} (h : Holds (fun j => buf (ptr + j)) s) (hn : s.length < n) :
    putFrom buf ptr n = .ok s := by
  induction n generalizing ptr s with
  | zero => exact absurd hn (Nat.not_lt_zero _)
  | succ n ih =>
      cases s with
      | nil => exact if_pos h.nul
      | cons c s =>
          have hhead : buf ptr = c := h.chars 0 (Nat.succ_pos _)
          have htail : Holds (fun j => buf (ptr + 1 + j)) s := by
            have hshift : ∀ j, ptr + 1 + j = ptr + (j + 1) := fun j => by omega
            refine ⟨?_, fun d hd => h.nonzero d (List.mem_cons_of_mem c hd), ?_⟩
            · intro j hj
              rw [hshift]
              exact h.chars (j + 1) (Nat.succ_lt_succ hj)
            · rw [hshift]
              exact h.nul
          have hrest := ih htail (Nat.lt_of_succ_lt_succ hn)
          have hc : c ≠ 0 := h.nonzero c List.mem_cons_self
          rw [putFrom, hhead, if_neg hc, hrest]
          rfl

/-- Both ways of storing digits. -/
theorem putZero_ok (h : EndsBuf buf maxLen []) (hv : value < 2 ^ 64) :
    ∃ ptr buf', putDigits value (putZero value buf).1 (putZero value buf).2 = .ok (ptr, buf') ∧
      EndsBuf buf' ptr ((hexDigits value).map tohexchar) := by
  by_cases hzero : value = 0
  · subst hzero
    have hlast : EndsBuf (Function.update buf 15 (tohexchar 0)) 15 [tohexchar 0] := h.cons (by decide)
    exact ⟨_, _, rfl, hlast⟩
  · have hfits : value < 16 ^ maxLen := hv
    obtain ⟨ptr, buf', hrun, hends⟩ := putDigits_ok h hfits
    rw [putZero, if_neg hzero, hexDigits, if_neg hzero]
    rw [List.append_nil] at hends
    exact ⟨ptr, buf', hrun, hends⟩

/-- **What `puth` prints** for a 64-bit value; it stays inside its buffer. -/
theorem puth_eq (buf : HexBuf) {value : Nat} (h : value < 2 ^ 64) (digitsLen : Nat) :
    ∃ buf', puth buf value digitsLen = .ok (hexText value digitsLen, buf') := by
  have hempty : EndsBuf (Function.update buf maxLen 0) maxLen [] :=
    ⟨holds_nil (Function.update_self maxLen 0 buf), rfl⟩
  obtain ⟨ptr, buf', hrun, hends⟩ := putZero_ok hempty h
  have hlength := hends.length
  rw [List.length_map] at hlength
  have hremaining : maxLen - ptr = (hexDigits value).length := by omega
  have hdigits : putFrom buf' ptr (maxLen + 1 - ptr) = .ok ((hexDigits value).map tohexchar) :=
    putFrom_ok hends.holds (by rw [List.length_map]; omega)
  refine ⟨buf', ?_⟩
  unfold puth
  simp only [bind, Except.bind, hrun, hdigits]
  rw [hremaining, hexText, List.map_append, List.map_replicate]
  rfl

/-! ## Reading it back -/

/-- The value of an upper-case hexadecimal digit. -/
def hexDigit (c : Int8) : Option Nat :=
  if 0x30 ≤ c ∧ c ≤ 0x39 then some (c - 0x30).toInt.toNat
  else if 0x41 ≤ c ∧ c ≤ 0x46 then some ((c - 0x41).toInt.toNat + 10)
  else none

/-- The number a string of hexadecimal digits stands for. -/
def hexValue (s : List Int8) : Option Nat :=
  s.foldlM (fun value c => (hexDigit c).map (16 * value + ·)) 0

theorem hexDigit_tohexchar {x : Nat} (h : x < 16) : hexDigit (tohexchar x) = some x := by
  have hall : ∀ x : Fin 16, hexDigit (tohexchar x) = some x.val := by decide
  exact hall ⟨x, h⟩

theorem hexValue_map {ds : List Nat} (h : ∀ d ∈ ds, d < 16) :
    hexValue (ds.map tohexchar) = some (Nat.ofDigits 16 ds.reverse) := by
  have hfold : ∀ value, (ds.map tohexchar).foldlM
      (fun value c => (hexDigit c).map (16 * value + ·)) value
        = some (ds.foldl (fun value d => d + 16 * value) value) := by
    induction ds with
    | nil => exact fun _ => rfl
    | cons d ds ih =>
        intro value
        rw [List.map_cons, List.foldlM_cons, hexDigit_tohexchar (h d List.mem_cons_self),
          List.foldl_cons, Nat.add_comm d]
        exact ih (fun d' hd' => h d' (List.mem_cons_of_mem d hd')) _
  rw [hexValue, hfold, Nat.ofDigits_eq_foldr, List.foldr_reverse]
  rfl

theorem hexDigits_lt {value d : Nat} (h : d ∈ hexDigits value) : d < 16 := by
  unfold hexDigits at h
  split at h
  · rw [List.mem_singleton] at h
    omega
  · exact Nat.digits_lt_base (by decide) (List.mem_reverse.mp h)

theorem padded_lt {value k d : Nat} (h : d ∈ List.replicate k 0 ++ hexDigits value) : d < 16 := by
  rcases List.mem_append.mp h with h | h
  · rw [List.eq_of_mem_replicate h]
    decide
  · exact hexDigits_lt h

/-- Zeros in front do not change the number. -/
theorem ofDigits_padded (value k : Nat) :
    Nat.ofDigits 16 (List.replicate k 0 ++ hexDigits value).reverse = value := by
  rw [List.reverse_append, List.reverse_replicate, Nat.ofDigits_append_replicate_zero]
  unfold hexDigits
  split
  · rename_i hzero
    rw [hzero]
    rfl
  · rw [List.reverse_reverse, Nat.ofDigits_digits]

/-- **What is printed reads as the value.** -/
theorem hexValue_hexText (value digitsLen : Nat) : hexValue (hexText value digitsLen) = some value := by
  rw [hexText, hexValue_map (fun _ => padded_lt), ofDigits_padded]

/-- The number of characters. -/
theorem hexText_length (value digitsLen : Nat) :
    (hexText value digitsLen).length = max digitsLen (hexDigits value).length := by
  rw [hexText, List.length_map, List.length_append, List.length_replicate]
  omega

/-- The significant digits: one for zero. -/
theorem hexDigits_length (value : Nat) : (hexDigits value).length = Nat.log 16 value + 1 := by
  unfold hexDigits
  split
  · rename_i hzero
    rw [hzero, Nat.log_zero_right]
    rfl
  · rename_i hne
    rw [List.length_reverse, Nat.length_digits 16 value (by decide) hne]

theorem hexDigits_length_le {value k : Nat} (hk : 0 < k) (h : value < 16 ^ k) :
    (hexDigits value).length ≤ k := by
  unfold hexDigits
  split
  · exact hk
  · rw [List.length_reverse]
    exact (Nat.digits_length_le_iff (by decide) value).mpr h

/-! ## Console calls -/

/-- The characters of a literal. -/
def literal (str : String) : List Int8 := str.toList.map fun c => Int8.ofNat c.toNat

/-- The characters one console call passes to `putc`. -/
def callChars (buf : HexBuf) : Out → Except OutOfBuf (List Int8 × HexBuf)
  | .puts str             => .ok (literal str, buf)
  | .puth value digitsLen => puth buf value digitsLen

/-- The characters of several calls, one after another. -/
def callsChars (buf : HexBuf) : List Out → Except OutOfBuf (List Int8 × HexBuf)
  | []        => .ok ([], buf)
  | o :: outs => do
      let (cs, buf) ← callChars buf o
      let (ds, buf) ← callsChars buf outs
      return (cs ++ ds, buf)

/-- What a console call prints. -/
def outText : Out → List Int8
  | .puts str             => literal str
  | .puth value digitsLen => hexText value digitsLen

/-- **What console calls print**, as long as the values fit into 64 bits. -/
theorem callsChars_eq (buf : HexBuf) {outs : List Out}
    (h : ∀ value digitsLen, Out.puth value digitsLen ∈ outs → value < 2 ^ 64) :
    ∃ buf', callsChars buf outs = .ok (outs.flatMap outText, buf') := by
  induction outs generalizing buf with
  | nil => exact ⟨buf, rfl⟩
  | cons o outs ih =>
      have hfirst : ∃ buf', callChars buf o = .ok (outText o, buf') := by
        cases o with
        | puts str => exact ⟨buf, rfl⟩
        | puth value digitsLen => exact puth_eq buf (h value digitsLen List.mem_cons_self) digitsLen
      obtain ⟨buf', hfirst⟩ := hfirst
      obtain ⟨buf'', hrest⟩ := ih buf' (fun v d hmem => h v d (List.mem_cons_of_mem o hmem))
      refine ⟨buf'', ?_⟩
      rw [callsChars, hfirst]
      simp only [bind, Except.bind, hrest]
      rfl

end Terminal
end SysproKernel

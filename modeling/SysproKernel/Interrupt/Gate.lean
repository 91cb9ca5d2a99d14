import SysproKernel.Lib.Gates

/-!
# `Interrupt.Gate` — `set_interrupt` (`interrupt.c`)

A descriptor of the `IDT` is written field by field into memory. What the processor decodes from its 16
bytes is the function and the selector `set_interrupt` was given (`HoldsGate.decode`); the gate has no
stack of its own, so an interrupt through it pushes its frame where the interrupted program's stack pointer
is (`setInterrupt_enter`).
-/

namespace SysproKernel
namespace Interrupt

open Lib.ByteMem Lib.X86

/-! ## `struct InterruptDescriptor` -/

/-! The attributes of `struct InterruptDescriptor`: bits of its third half-word. -/

def attributeIst : BitField := ⟨0, 3⟩
def attributeType : BitField := ⟨8, 4⟩
def attributeDpl : BitField := ⟨13, 2⟩
def attributeP : BitField := ⟨15, 1⟩

/-- Assign to a bit-field of the descriptor at `gate`. -/
def setAttribute (gate : Nat) (f : BitField) (x : Nat) (m : Mem) : Mem :=
  store m (gate + 4) 2 (f.set (load m (gate + 4) 2) x)

/-- `set_interrupt(int_id, func, cs)`; `idt` is the address of `IDT`. -/
def setInterrupt (idt intId : Nat) (func : UInt64) (cs : UInt16) (m : Mem) : Mem :=
  let gate := idt + 16 * intId
  let m := store m gate 2 (func &&& 0xffff).toNat
  let m := store m (gate + 6) 2 (func >>> 16 &&& 0xffff).toNat
  let m := store m (gate + 8) 4 (func >>> 32).toNat
  let m := store m (gate + 2) 2 cs.toNat
  let m := setAttribute gate attributeIst 0 m
  let m := setAttribute gate attributeDpl 0 m
  let m := setAttribute gate attributeType 0x0e m
  setAttribute gate attributeP 1 m

/-! ## What the processor reads -/

variable {m : Mem} {gate a n x : Nat} {f : BitField} {func : UInt64} {cs : UInt16} {idt intId : Nat}

theorem setAttribute_outside (h : a + n ≤ gate + 4 ∨ gate + 6 ≤ a) :
    load (setAttribute gate f x m) a n = load m a n :=
  load_store_disjoint (by omega)

theorem setAttribute_word :
    load (setAttribute gate f x m) (gate + 4) 2 = f.set (load m (gate + 4) 2) x % 256 ^ 2 :=
  load_store_self ..

/-- `set_interrupt` writes nothing but its own descriptor. -/
theorem setInterrupt_outside (h : x < idt + 16 * intId ∨ idt + 16 * intId + 16 ≤ x) :
    setInterrupt idt intId func cs m x = m x := by
  unfold setInterrupt setAttribute
  rw [store_outside (by omega), store_outside (by omega), store_outside (by omega),
    store_outside (by omega), store_outside (by omega), store_outside (by omega),
    store_outside (by omega), store_outside (by omega)]

/-- The five numbers of a descriptor that was zero before `set_interrupt`. -/
structure HoldsGate (m : Mem) (gate : Nat) (func : UInt64) (cs : UInt16) : Prop where
  offsetLo : load m gate 2 = func.toNat % 2 ^ 16
  segment : load m (gate + 2) 2 = cs.toNat
  attributes : load m (gate + 4) 2 = 0x8e00
  offsetMid : load m (gate + 6) 2 = func.toNat / 2 ^ 16 % 2 ^ 16
  offsetHi : load m (gate + 8) 4 = func.toNat / 2 ^ 32

theorem setInterrupt_holds (hattributes : load m (idt + 16 * intId + 4) 2 = 0) :
    HoldsGate (setInterrupt idt intId func cs m) (idt + 16 * intId) func cs := by
  have hlo : (func &&& 0xffff).toNat = func.toNat % 2 ^ 16 := Nat.and_two_pow_sub_one_eq_mod _ 16
  have hmid : (func >>> 16 &&& 0xffff).toNat = func.toNat / 2 ^ 16 % 2 ^ 16 := by
    have hshift : (func >>> 16).toNat = func.toNat / 2 ^ 16 := by
      rw [UInt64.toNat_shiftRight, Nat.shiftRight_eq_div_pow]
      rfl
    rw [← hshift]
    exact Nat.and_two_pow_sub_one_eq_mod _ 16
  have hhi : (func >>> 32).toNat = func.toNat / 2 ^ 32 := by
    rw [UInt64.toNat_shiftRight, Nat.shiftRight_eq_div_pow]
    rfl
  have hfunc := func.toNat_lt
  have hcs := cs.toNat_lt
  generalize hgate : idt + 16 * intId = gate at hattributes
  unfold setInterrupt
  dsimp only
  rw [hgate]
  refine ⟨?_, ?_, ?_, ?_, ?_⟩
  · rw [setAttribute_outside (by omega), setAttribute_outside (by omega), setAttribute_outside (by omega),
      setAttribute_outside (by omega), load_store_disjoint (by omega), load_store_disjoint (by omega),
      load_store_disjoint (by omega), load_store_self, hlo]
    omega
  · rw [setAttribute_outside (by omega), setAttribute_outside (by omega), setAttribute_outside (by omega),
      setAttribute_outside (by omega), load_store_self]
    omega
  · rw [setAttribute_word, setAttribute_word, setAttribute_word, setAttribute_word,
      load_store_disjoint (by omega), load_store_disjoint (by omega), load_store_disjoint (by omega),
      load_store_disjoint (by omega), hattributes]
    decide
  · rw [setAttribute_outside (by omega), setAttribute_outside (by omega), setAttribute_outside (by omega),
      setAttribute_outside (by omega), load_store_disjoint (by omega), load_store_disjoint (by omega),
      load_store_self, hmid]
    omega
  · rw [setAttribute_outside (by omega), setAttribute_outside (by omega), setAttribute_outside (by omega),
      setAttribute_outside (by omega), load_store_disjoint (by omega), load_store_self, hhi]
    omega

theorem HoldsGate.congr {m' : Mem} (h : HoldsGate m gate func cs)
    (heq : Set.EqOn m' m (Set.Ico gate (gate + 16))) : HoldsGate m' gate func cs := by
  have hload : ∀ i n, i + n ≤ 16 → load m' (gate + i) n = load m (gate + i) n := fun i n hin =>
    load_congr (heq.mono (Set.Ico_subset_Ico (by omega) (by omega)))
  exact ⟨(hload 0 2 (by decide)).trans h.offsetLo, (hload 2 2 (by decide)).trans h.segment,
    (hload 4 2 (by decide)).trans h.attributes, (hload 6 2 (by decide)).trans h.offsetMid,
    (hload 8 4 (by decide)).trans h.offsetHi⟩

/-- What the processor reads in the attributes. -/
theorem HoldsGate.attribute (h : HoldsGate m gate func cs) (hlo : 32 ≤ f.lo) (hhi : f.lo + f.width ≤ 48) :
    f.get (load m gate 16) = BitField.get ⟨f.lo - 32, f.width⟩ 0x8e00 := by
  have hpart := BitField.get_load (f := f) (m := m) (a := gate) (k := 16) (i := 4) (n := 2) hlo hhi
    (by decide)
  rw [hpart, h.attributes]

/-- **The gate the processor decodes** is the function and the selector that `set_interrupt` was given,
    without a stack of its own and with interrupts off. -/
theorem HoldsGate.decode (h : HoldsGate m gate func cs) :
    Gate.decode (load m gate 16) = { offset := func, selector := cs, ist := 0, cleared := gateFlags } := by
  have hfield : ∀ (f : BitField) (i n : Nat), 8 * i = f.lo → f.width = 8 * n → i + n ≤ 16 →
      f.get (load m gate 16) = load m (gate + i) n := by
    intro f i n hlo hwidth hin
    have hlt := load_lt m (gate + i) n
    have hpow : 256 ^ n = 2 ^ (8 * n) := (Nat.pow_mul 2 8 n).symm
    rw [BitField.get_load (n := n) hlo.le (by omega) hin, BitField.get, ← hlo, Nat.sub_self, Nat.pow_zero,
      Nat.div_one, hwidth, Nat.mod_eq_of_lt (hpow ▸ hlt)]
  have hlo : gateOffsetLo.get (load m gate 16) = func.toNat % 2 ^ 16 :=
    (hfield _ 0 2 rfl rfl (by decide)).trans h.offsetLo
  have hselector : gateSelector.get (load m gate 16) = cs.toNat :=
    (hfield _ 2 2 rfl rfl (by decide)).trans h.segment
  have hmid : gateOffsetMid.get (load m gate 16) = func.toNat / 2 ^ 16 % 2 ^ 16 :=
    (hfield _ 6 2 rfl rfl (by decide)).trans h.offsetMid
  have hhi : gateOffsetHi.get (load m gate 16) = func.toNat / 2 ^ 32 :=
    (hfield _ 8 4 rfl rfl (by decide)).trans h.offsetHi
  have hist : gateIst.get (load m gate 16) = 0 := (h.attribute (by decide) (by decide)).trans (by decide)
  have htype : gateType.get (load m gate 16) = interruptGate :=
    (h.attribute (by decide) (by decide)).trans (by decide)
  have hsum : func.toNat % 2 ^ 16 + 2 ^ 16 * (func.toNat / 2 ^ 16 % 2 ^ 16) + 2 ^ 32 * (func.toNat / 2 ^ 32)
      = func.toNat := by omega
  rw [Gate.decode, hlo, hselector, hmid, hhi, hist, htype, if_pos rfl, hsum, UInt64.ofNat_toNat,
    UInt16.ofNat_toNat]


/-- **The gate has no stack of its own**: whatever the interrupt stack table holds, an interrupt through the
    descriptor that `set_interrupt` leaves in a zeroed table is a frame on the interrupted stack, and then
    the handler. -/
theorem setInterrupt_enter {tr : Mem → Nat → Nat → Option Nat} (hzero : load m (idt + 16 * intId + 4) 2 = 0)
    (ist : Nat → UInt64) (s : Machine) :
    (Gate.decode (load (setInterrupt idt intId func cs m) (idt + 16 * intId) 16)).enter tr ist none s =
      (interrupt tr s).map fun s => s.jump cs func := by
  rw [(setInterrupt_holds hzero).decode]
  exact Gate.enter_interrupt rfl rfl

end Interrupt
end SysproKernel

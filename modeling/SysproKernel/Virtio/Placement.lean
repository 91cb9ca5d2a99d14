import Mathlib.Order.Bounds.Defs
import Mathlib.Order.CompletePartialOrder
import Mathlib.Order.Interval.Set.Disjoint
import SysproKernel.Virtio.Layout

/-!
# `Virtio.Placement` — where a legacy device has a queue

A legacy device is told the page of a queue only, and finds the used ring at the first page that begins
behind the available ring. `ALIGN` adds a whole page before it clears the low bits, so where the
available ring ends exactly with a page the driver's used ring is one page further on
(`legacy_layout_iff`). Everything else about the layout is as it should be for every queue size.
-/

namespace SysproKernel
namespace Virtio

/-! ## What a queue consists of -/

inductive QueueItem where
  | desc (i : Nat)
  | availFlags
  | availIdx
  | availRing (i : Nat)
  | usedFlags
  | usedIdx
  | usedRing (i : Nat)
  deriving DecidableEq

/-- The item belongs to a queue of this size. -/
def QueueItem.Of (queueSize : Nat) : QueueItem → Prop
  | .desc i      => i < queueSize
  | .availRing i => i < queueSize
  | .usedRing i  => i < queueSize
  | _            => True

/-- Where virtio.c has the item. -/
def QueueItem.address (queueSize q : Nat) : QueueItem → Nat
  | .desc i      => virtqDesc q i
  | .availFlags  => virtqAvail queueSize q
  | .availIdx    => Virtio.availIdx queueSize q
  | .availRing i => Virtio.availRing queueSize q i
  | .usedFlags   => virtqUsed queueSize q
  | .usedIdx     => Virtio.usedIdx queueSize q
  | .usedRing i  => Virtio.usedRing queueSize q i

def QueueItem.size : QueueItem → Nat
  | .desc _     => sizeofVirtqDesc
  | .usedRing _ => sizeofVirtqUsedElem
  | _           => 2

def QueueItem.bytes (queueSize q : Nat) (x : QueueItem) : Set Nat :=
  Set.Ico (x.address queueSize q) (x.address queueSize q + x.size)

/-- **The driver's layout is the device's**, and consistent in itself. -/
structure LegacyLayout (queueSize : Nat) : Prop where
  used : ∀ q, IsLeast {o | 4096 ∣ o ∧ 16 * queueSize + 2 * (3 + queueSize) ≤ o}
    (virtqUsed queueSize q - q)
  inside : ∀ q x, QueueItem.Of queueSize x → x.bytes queueSize q ⊆ Set.Ico q (q + virtqSize queueSize)
  disjoint : ∀ q x y, QueueItem.Of queueSize x → QueueItem.Of queueSize y → x ≠ y →
    Disjoint (x.bytes queueSize q) (y.bytes queueSize q)
  apart : Disjoint (Set.Ico virtqRx (virtqRx + virtqSize queueSize))
    (Set.Ico virtqTx (virtqTx + virtqSize queueSize))

/-! ## `ALIGN` -/

variable {queueSize : Nat}

theorem and_not_page (y : BitVec 64) : y &&& ~~~0xFFF#64 = (y >>> 12) <<< 12 := by
  have hmask : ∀ i : Fin 64, (0xFFF#64)[i] = decide (i.val < 12) := by decide
  ext i hi
  have hbit : (0xFFF#64)[i] = decide (i < 12) := hmask ⟨i, hi⟩
  rw [BitVec.getElem_and, BitVec.getElem_not, hbit, BitVec.getElem_shiftLeft]
  by_cases hlow : i < 12
  · simp [hlow]
  · simp [hlow, BitVec.getLsbD_eq_getElem hi, show 12 + (i - 12) = i by omega]

/-- `((x) + 0x1000) & ~(0x1000 - 1)` on 64-bit words is `align`. -/
theorem align_eq_masked {x : Nat} (h : x < 2 ^ 63) :
    ((BitVec.ofNat 64 x + 0x1000#64) &&& ~~~0xFFF#64).toNat = align x := by
  rw [and_not_page, BitVec.toNat_shiftLeft, BitVec.toNat_ushiftRight, BitVec.toNat_add,
    BitVec.toNat_ofNat, BitVec.toNat_ofNat, Nat.shiftLeft_eq, Nat.shiftRight_eq_div_pow, align]
  omega

/-- `ALIGN` finds the first page at or behind `x` unless `x` is a page itself. -/
theorem align_isLeast_iff (x : Nat) : IsLeast {o | 4096 ∣ o ∧ x ≤ o} (align x) ↔ ¬ 4096 ∣ x := by
  have hpage : 4096 ∣ align x := ⟨(x + 0x1000) / 0x1000, Nat.mul_comm _ _⟩
  have hbelow := lt_align x
  have hle := align_le x
  constructor
  · rintro ⟨-, hleast⟩ hdvd
    have hfirst := hleast ⟨hdvd, Nat.le_refl x⟩
    omega
  · intro hdvd
    refine ⟨⟨hpage, Nat.le_of_lt hbelow⟩, ?_⟩
    rintro o ⟨⟨k, rfl⟩, hx⟩
    by_contra hlt
    omega

theorem items_inside (q : Nat) {x : QueueItem} (hx : QueueItem.Of queueSize x) :
    x.bytes queueSize q ⊆ Set.Ico q (q + virtqSize queueSize) := by
  have hbounds := virtqUsed_bounds queueSize q
  have hsize := (virtqUsed_bounds queueSize q).2.2
  apply Set.Ico_subset_Ico
  · cases x <;> simp only [QueueItem.address, virtqDesc_eq, virtqAvail, availIdx_eq, availRing_eq,
      usedIdx_eq, usedRing_eq] <;> omega
  · cases x <;> simp only [QueueItem.Of, QueueItem.address, QueueItem.size, virtqDesc_eq, virtqAvail,
      availIdx_eq, availRing_eq, usedIdx_eq, usedRing_eq, sizeofVirtqDesc, sizeofVirtqUsedElem] at * <;>
      omega

theorem items_disjoint (q : Nat) {x y : QueueItem} (hx : QueueItem.Of queueSize x)
    (hy : QueueItem.Of queueSize y) (hne : x ≠ y) :
    Disjoint (x.bytes queueSize q) (y.bytes queueSize q) := by
  have hbounds := (virtqUsed_bounds queueSize q).1
  rw [QueueItem.bytes, QueueItem.bytes, Set.Ico_disjoint_Ico]
  cases x <;> cases y <;> simp only [QueueItem.Of, QueueItem.address, QueueItem.size, virtqDesc_eq,
    virtqAvail, availIdx_eq, availRing_eq, usedIdx_eq, usedRing_eq, sizeofVirtqDesc,
    sizeofVirtqUsedElem, ne_eq, QueueItem.desc.injEq, QueueItem.availRing.injEq,
    QueueItem.usedRing.injEq, not_true_eq_false] at * <;> omega

/-! ## Main result -/

/-- **The queue sizes whose used ring is where a legacy device has it.** -/
theorem legacy_layout_iff (hq : queueSize < 0x10000) :
    LegacyLayout queueSize ↔ queueSize % 2048 ≠ 1365 := by
  have hoffset : ∀ q, virtqUsed queueSize q - q = align (16 * queueSize + 2 * (3 + queueSize)) := by
    intro q
    rw [virtqUsed, sizeofVirtqDesc, Nat.mul_comm queueSize, Nat.add_sub_cancel_left]
  have hdvd : 4096 ∣ 16 * queueSize + 2 * (3 + queueSize) ↔ queueSize % 2048 = 1365 := by
    constructor
    · rintro ⟨k, hk⟩
      omega
    · intro hmod
      omega
  constructor
  · intro hlayout
    have hused := hlayout.used 0
    rw [hoffset, align_isLeast_iff, hdvd] at hused
    exact hused
  · intro hmod
    refine ⟨?_, fun q x => items_inside q, fun q x y => items_disjoint q, ?_⟩
    · intro q
      rw [hoffset, align_isLeast_iff, hdvd]
      exact hmod
    · have hbelow := (virtqSize_lt hq).1
      rw [Set.Ico_disjoint_Ico]
      omega

/-- A queue of 256 entries. -/
theorem legacy_layout_256 : LegacyLayout 256 :=
  (legacy_layout_iff (by decide)).mpr (by decide)

/-- **1365 entries**: descriptors and available ring fill six pages, and the used ring is looked for in
    the eighth. -/
theorem used_ring_misplaced : ¬ ∀ queueSize, queueSize ≠ 0 → queueSize < 0x10000 →
    LegacyLayout queueSize := by
  intro hall
  have hleast := ((hall 1365 (by decide) (by decide)).used 0).2
  have hsixth := hleast (show 24576 ∈ _ from ⟨by decide, by decide⟩)
  exact absurd hsixth (by decide)

end Virtio
end SysproKernel

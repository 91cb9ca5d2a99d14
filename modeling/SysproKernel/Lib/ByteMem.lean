import Mathlib.Algebra.Group.Int.Defs
import Mathlib.Algebra.Group.Nat.Defs
import Mathlib.Data.Set.Function
import Mathlib.Order.Interval.Set.Basic

/-!
# `Lib.ByteMem` — byte-addressed memory with little-endian words

A memory is a total map from addresses to bytes. Everything wider than a byte is a run of consecutive
bytes: `readBytes`/`writeBytes` move runs, `load`/`store` read and write a run as an `n`-byte
little-endian number. Two facts carry all later reasoning:

* **read-over-write**: a load from the stored range gives the stored value (modulo its width), a load
  from a disjoint range is unaffected;
* **congruence**: a load depends only on the bytes of its own range, so any two memories that agree
  there (`Set.EqOn … (Set.Ico a (a + n))`) load the same value.
-/

namespace Lib.ByteMem

/-- A memory: one byte at every address. -/
abbrev Mem := Nat → UInt8

/-! ## Little-endian numbers -/

/-- The `n` low bytes of `v`, least significant first. -/
def leBytes : Nat → Nat → List UInt8
  | 0,     _ => []
  | n + 1, v => UInt8.ofNat v :: leBytes n (v / 256)

/-- The number whose little-endian bytes are the list. -/
def leNat : List UInt8 → Nat
  | []      => 0
  | b :: bs => b.toNat + 256 * leNat bs

@[simp] theorem leBytes_length (n v : Nat) : (leBytes n v).length = n := by
  induction n generalizing v with
  | zero => rfl
  | succ n ih => simp [leBytes, ih]

theorem leNat_leBytes (n v : Nat) : leNat (leBytes n v) = v % 256 ^ n := by
  induction n generalizing v with
  | zero => simp [leBytes, leNat, Nat.mod_one]
  | succ n ih =>
      have hb : (UInt8.ofNat v).toNat = v % 256 := by simp
      rw [leBytes, leNat, ih, hb, Nat.pow_succ', Nat.mod_mul]

/-- A list of bytes is the little-endian form of its number. -/
theorem leBytes_leNat (bs : List UInt8) : leBytes bs.length (leNat bs) = bs := by
  induction bs with
  | nil => rfl
  | cons b bs ih =>
      have hb : b.toNat < 256 := b.toNat_lt
      have hlow : UInt8.ofNat (b.toNat + 256 * leNat bs) = b := by
        apply UInt8.toNat_inj.mp
        rw [UInt8.toNat_ofNat']
        omega
      have hhigh : (b.toNat + 256 * leNat bs) / 256 = leNat bs := by omega
      rw [List.length_cons, leNat, leBytes, hlow, hhigh, ih]

theorem leNat_lt (bs : List UInt8) : leNat bs < 256 ^ bs.length := by
  induction bs with
  | nil => simp [leNat]
  | cons b bs ih =>
      have hb : b.toNat < 256 := b.toNat_lt
      rw [leNat, List.length_cons, Nat.pow_succ]
      omega

theorem leNat_append (bs cs : List UInt8) :
    leNat (bs ++ cs) = leNat bs + 256 ^ bs.length * leNat cs := by
  induction bs with
  | nil => simp [leNat]
  | cons b bs ih =>
      rw [List.cons_append, leNat, leNat, ih, List.length_cons, Nat.pow_succ', Nat.mul_add,
        Nat.mul_assoc, Nat.add_assoc]

/-! ## Runs of bytes -/

/-- Write the bytes of the list at consecutive addresses from `a`. -/
def writeBytes (m : Mem) (a : Nat) : List UInt8 → Mem
  | []      => m
  | b :: bs => writeBytes (Function.update m a b) (a + 1) bs

/-- The `n` bytes from address `a`. -/
def readBytes (m : Mem) (a : Nat) : Nat → List UInt8
  | 0     => []
  | n + 1 => m a :: readBytes m (a + 1) n

@[simp] theorem readBytes_length (m : Mem) (a n : Nat) : (readBytes m a n).length = n := by
  induction n generalizing a with
  | zero => rfl
  | succ n ih => simp [readBytes, ih]

/-- A write leaves every byte outside its range unchanged. -/
theorem writeBytes_outside {m : Mem} {a x : Nat} {bs : List UInt8}
    (h : x < a ∨ a + bs.length ≤ x) : writeBytes m a bs x = m x := by
  induction bs generalizing m a with
  | nil => rfl
  | cons b bs ih =>
      rw [List.length_cons] at h
      rw [writeBytes, ih (by omega), Function.update_of_ne (by omega)]

/-- Inside its range, a write leaves the byte of the list. -/
theorem writeBytes_inside {m : Mem} {a i : Nat} {bs : List UInt8} (h : i < bs.length) :
    writeBytes m a bs (a + i) = bs[i] := by
  induction bs generalizing m a i with
  | nil => simp at h
  | cons b bs ih =>
      cases i with
      | zero => rw [writeBytes, writeBytes_outside (by omega)]; simp
      | succ i =>
          rw [writeBytes, show a + (i + 1) = a + 1 + i by omega]
          rw [ih (by simpa using h)]
          rfl

theorem writeBytes_eqOn {m : Mem} {a : Nat} {bs : List UInt8} {S : Set Nat}
    (h : ∀ x ∈ S, x < a ∨ a + bs.length ≤ x) : Set.EqOn (writeBytes m a bs) m S :=
  fun x hx => writeBytes_outside (h x hx)

theorem readBytes_congr {m m' : Mem} {a n : Nat} (h : Set.EqOn m m' (Set.Ico a (a + n))) :
    readBytes m a n = readBytes m' a n := by
  induction n generalizing a with
  | zero => rfl
  | succ n ih =>
      have hhead : m a = m' a := h (Set.mem_Ico.mpr ⟨Nat.le_refl a, by omega⟩)
      have hsub : Set.Ico (a + 1) (a + 1 + n) ⊆ Set.Ico a (a + (n + 1)) :=
        Set.Ico_subset_Ico (by omega) (by omega)
      rw [readBytes, readBytes, hhead, ih (h.mono hsub)]

theorem readBytes_getElem {m : Mem} {a n i : Nat} (h : i < (readBytes m a n).length) :
    (readBytes m a n)[i] = m (a + i) := by
  induction n generalizing a i with
  | zero => simp [readBytes] at h
  | succ n ih =>
      cases i with
      | zero => rfl
      | succ i =>
          simp only [readBytes, List.getElem_cons_succ]
          rw [ih, show a + 1 + i = a + (i + 1) by omega]

theorem readBytes_writeBytes_self (m : Mem) (a : Nat) (bs : List UInt8) :
    readBytes (writeBytes m a bs) a bs.length = bs := by
  apply List.ext_getElem (by simp)
  intro i h₁ h₂
  rw [readBytes_getElem, writeBytes_inside h₂]

/-- Part of what was written. -/
theorem readBytes_writeBytes_part (m : Mem) (a : Nat) {i n : Nat} {bs : List UInt8}
    (h : i + n ≤ bs.length) :
    readBytes (writeBytes m a bs) (a + i) n = (bs.drop i).take n := by
  apply List.ext_getElem (by simp; omega)
  intro k h₁ h₂
  have hk : k < n := by simpa using h₁
  rw [readBytes_getElem, Nat.add_assoc, writeBytes_inside (by omega)]
  simp

theorem readBytes_writeBytes_disjoint {m : Mem} {a b n : Nat} {bs : List UInt8}
    (h : b + n ≤ a ∨ a + bs.length ≤ b) : readBytes (writeBytes m a bs) b n = readBytes m b n :=
  readBytes_congr (writeBytes_eqOn (fun x hx => by have := hx.1; have := hx.2; omega))

theorem writeBytes_append (m : Mem) (a : Nat) (bs cs : List UInt8) :
    writeBytes m a (bs ++ cs) = writeBytes (writeBytes m a bs) (a + bs.length) cs := by
  induction bs generalizing m a with
  | nil => rfl
  | cons b bs ih =>
      rw [List.cons_append, writeBytes, writeBytes, ih, List.length_cons, Nat.add_right_comm,
        Nat.add_assoc]

/-- Memories that agree on a set still do after the same write. -/
theorem writeBytes_congr {m m' : Mem} {a : Nat} {bs : List UInt8} {S : Set Nat}
    (h : Set.EqOn m m' S) : Set.EqOn (writeBytes m a bs) (writeBytes m' a bs) S := by
  induction bs generalizing m m' a with
  | nil => exact h
  | cons b bs ih =>
      apply ih
      intro x hx
      by_cases hxa : x = a
      · rw [hxa, Function.update_self, Function.update_self]
      · rw [Function.update_of_ne hxa, Function.update_of_ne hxa, h hx]

theorem readBytes_add (m : Mem) (a i j : Nat) :
    readBytes m a (i + j) = readBytes m a i ++ readBytes m (a + i) j := by
  induction i generalizing a with
  | zero => rw [Nat.zero_add, Nat.add_zero, readBytes, List.nil_append]
  | succ i ih =>
      rw [Nat.add_right_comm, readBytes, readBytes, ih, List.cons_append, Nat.add_assoc a,
        Nat.add_comm 1]

theorem readBytes_take {m : Mem} {a k n : Nat} (h : k ≤ n) :
    (readBytes m a n).take k = readBytes m a k := by
  rw [← Nat.add_sub_cancel' h, readBytes_add, List.take_append_of_le_length (by simp),
    List.take_of_length_le (by simp)]

/-! ## Words -/

/-- The `n`-byte little-endian number at address `a`. -/
def load (m : Mem) (a n : Nat) : Nat := leNat (readBytes m a n)

/-- Store the `n` low bytes of `v` at address `a`. -/
def store (m : Mem) (a n v : Nat) : Mem := writeBytes m a (leBytes n v)

theorem load_lt (m : Mem) (a n : Nat) : load m a n < 256 ^ n := by
  have h := leNat_lt (readBytes m a n)
  rwa [readBytes_length] at h

theorem load_congr {m m' : Mem} {a n : Nat} (h : Set.EqOn m m' (Set.Ico a (a + n))) :
    load m a n = load m' a n := by
  rw [load, load, readBytes_congr h]

/-- Equal bytes load as the same number, wherever they lie. -/
theorem load_ext {m m' : Mem} {a b n : Nat} (h : ∀ i < n, m (a + i) = m' (b + i)) :
    load m a n = load m' b n := by
  refine congrArg leNat (List.ext_getElem (by simp) ?_)
  intro i h₁ h₂
  rw [readBytes_getElem, readBytes_getElem]
  exact h i (by simpa using h₁)

/-- A wide load is two narrower ones. -/
theorem load_add (m : Mem) (a i j : Nat) : load m a (i + j) = load m a i + 256 ^ i * load m (a + i) j := by
  rw [load, load, load, readBytes_add, leNat_append, readBytes_length]

/-- Smaller bytes load as a smaller number. -/
theorem load_mono {m m' : Mem} {a n : Nat} (h : ∀ x, m x ≤ m' x) : load m a n ≤ load m' a n := by
  induction n generalizing a with
  | zero => exact Nat.le_refl _
  | succ n ih =>
      have hhead : (m a).toNat ≤ (m' a).toNat := UInt8.le_iff_toNat_le.mp (h a)
      have htail : leNat (readBytes m (a + 1) n) ≤ leNat (readBytes m' (a + 1) n) := ih
      rw [load, load, readBytes, readBytes, leNat, leNat]
      omega

/-- **Read-over-write, same range.** -/
theorem load_store_self (m : Mem) (a n v : Nat) : load (store m a n v) a n = v % 256 ^ n := by
  have h := readBytes_writeBytes_self m a (leBytes n v)
  rw [leBytes_length] at h
  rw [load, store, h, leNat_leBytes]

/-- **Read-over-write, disjoint ranges.** -/
theorem load_store_disjoint {m : Mem} {a b n k v : Nat} (h : b + k ≤ a ∨ a + n ≤ b) :
    load (store m a n v) b k = load m b k := by
  rw [load, store, readBytes_writeBytes_disjoint (by simpa using h), load]

theorem store_outside {m : Mem} {a n v x : Nat} (h : x < a ∨ a + n ≤ x) :
    store m a n v x = m x :=
  writeBytes_outside (by simpa using h)

theorem store_eqOn {m : Mem} {a n v : Nat} {S : Set Nat} (h : ∀ x ∈ S, x < a ∨ a + n ≤ x) :
    Set.EqOn (store m a n v) m S :=
  fun x hx => store_outside (h x hx)

theorem store_congr {m m' : Mem} {a n v : Nat} {S : Set Nat} (h : Set.EqOn m m' S) :
    Set.EqOn (store m a n v) (store m' a n v) S :=
  writeBytes_congr h

/-- Memories that agree on a set agree on the stored range too after the same store. -/
theorem store_known {m m' : Mem} {a n v : Nat} {S : Set Nat} (h : Set.EqOn m m' S) :
    Set.EqOn (store m a n v) (store m' a n v) (S ∪ Set.Ico a (a + n)) := by
  rintro x (hx | ⟨hlo, hhi⟩)
  · exact store_congr h hx
  · have hin : x - a < (leBytes n v).length := by
      rw [leBytes_length]
      omega
    rw [← Nat.add_sub_cancel' hlo, store, store, writeBytes_inside hin, writeBytes_inside hin]

/-- Storing zero lowers every byte. -/
theorem store_zero_le (m : Mem) (a n x : Nat) : store m a n 0 x ≤ m x := by
  have hzero : ∀ n, ∀ b ∈ leBytes n 0, b = 0 := by
    intro n
    induction n with
    | zero => simp [leBytes]
    | succ n ih => simpa [leBytes] using ih
  by_cases hx : a ≤ x ∧ x < a + n
  · have hin : x - a < (leBytes n 0).length := by
      rw [leBytes_length]
      omega
    rw [← Nat.add_sub_cancel' hx.1, store, writeBytes_inside hin, hzero n _ (List.getElem_mem hin)]
    exact UInt8.le_iff_toNat_le.mpr (Nat.zero_le _)
  · rw [store_outside (by omega)]
    exact UInt8.le_refl _

theorem store_byte (m : Mem) (a : Nat) (b : UInt8) : store m a 1 b.toNat = writeBytes m a [b] := by
  rw [store, leBytes, leBytes, UInt8.ofNat_toNat]

theorem load_byte (m : Mem) (a : Nat) : load m a 1 = (m a).toNat := by
  rw [load, readBytes, readBytes, leNat, leNat, Nat.mul_zero, Nat.add_zero]

/-- A range of zero bytes loads as zero. -/
theorem load_zero {m : Mem} {a n : Nat} (h : ∀ i < n, m (a + i) = 0) : load m a n = 0 := by
  induction n generalizing a with
  | zero => rfl
  | succ n ih =>
      have hhead : m a = 0 := h 0 (by omega)
      have htail : load m (a + 1) n = 0 :=
        ih (fun i hi => by rw [show a + 1 + i = a + (i + 1) by omega]; exact h (i + 1) (by omega))
      rw [load] at htail
      rw [load, readBytes, leNat, htail, hhead]
      rfl

end Lib.ByteMem

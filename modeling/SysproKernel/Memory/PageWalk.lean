import SysproKernel.Lib.ByteMem

/-!
# `Memory.PageWalk` — `struct Entry` and the four-level page walk

`Entry` is the kernel's `struct Entry` (memory.c), field by field; `Entry.decode`/`Entry.encode` are its
packed bit layout, so the same eight bytes are what the code writes and what the processor reads. `walk`
is the processor's translation of a 48-bit virtual address from a `cr3` value: four table reads, each
failing on an entry that is not present, with the large-page bit honoured at the two middle levels.
-/

namespace SysproKernel
namespace Memory

open Lib.ByteMem

def pageLen : Nat := 2 ^ 12
def ptLen : Nat := 2 ^ 21
def pdLen : Nat := 2 ^ 30
def pdpLen : Nat := 2 ^ 39
def nPagesInTable : Nat := 512

/-! ## `struct Entry` -/

/-- `struct Entry`: one page-table entry. -/
structure Entry where
  present : Bool
  writable : Bool
  userAccessible : Bool
  writeThroughCaching : Bool
  disableCache : Bool
  accessed : Bool
  dirty : Bool
  hugePage : Bool
  global : Bool
  available1 : BitVec 3
  physicalAddress : BitVec 40
  available2 : BitVec 11
  noExecute : Bool
  deriving DecidableEq, Repr

namespace Entry

/-- The entry whose fields are all zero. -/
def zero : Entry :=
  { present := false, writable := false, userAccessible := false, writeThroughCaching := false
    disableCache := false, accessed := false, dirty := false, hugePage := false, global := false
    available1 := 0, physicalAddress := 0, available2 := 0, noExecute := false }

/-- Bit `k` of a word. -/
def bit (w k : Nat) : Bool := w / 2 ^ k % 2 == 1

/-- The packed struct read out of a 64-bit word. -/
def decode (w : Nat) : Entry :=
  { present := bit w 0, writable := bit w 1, userAccessible := bit w 2
    writeThroughCaching := bit w 3, disableCache := bit w 4, accessed := bit w 5
    dirty := bit w 6, hugePage := bit w 7, global := bit w 8
    available1 := BitVec.ofNat 3 (w / 2 ^ 9)
    physicalAddress := BitVec.ofNat 40 (w / 2 ^ 12)
    available2 := BitVec.ofNat 11 (w / 2 ^ 52)
    noExecute := bit w 63 }

/-- The 64-bit word holding the packed struct. -/
def encode (e : Entry) : Nat :=
  e.present.toNat + 2 ^ 1 * e.writable.toNat + 2 ^ 2 * e.userAccessible.toNat
    + 2 ^ 3 * e.writeThroughCaching.toNat + 2 ^ 4 * e.disableCache.toNat
    + 2 ^ 5 * e.accessed.toNat + 2 ^ 6 * e.dirty.toNat + 2 ^ 7 * e.hugePage.toNat
    + 2 ^ 8 * e.global.toNat + 2 ^ 9 * e.available1.toNat + 2 ^ 12 * e.physicalAddress.toNat
    + 2 ^ 52 * e.available2.toNat + 2 ^ 63 * e.noExecute.toNat

theorem bit_eq {w k : Nat} {b : Bool} (h : w / 2 ^ k % 2 = b.toNat) : bit w k = b := by
  rw [bit, h]
  cases b <;> rfl

theorem ofNat_eq {n w : Nat} {x : BitVec n} (h : w % 2 ^ n = x.toNat) : BitVec.ofNat n w = x :=
  BitVec.eq_of_toNat_eq (by rw [BitVec.toNat_ofNat, h])

/-- **The bit layout loses nothing.** -/
theorem decode_encode (e : Entry) : decode (encode e) = e := by
  obtain ⟨p, w, u, wt, dc, ac, di, hp, gl, a1, pa, a2, nx⟩ := e
  have hbool : ∀ b : Bool, b.toNat ≤ 1 := fun b => by cases b <;> decide
  have hp' := hbool p; have hw := hbool w; have hu := hbool u; have hwt := hbool wt
  have hdc := hbool dc; have hac := hbool ac; have hdi := hbool di; have hhp := hbool hp
  have hgl := hbool gl; have hnx := hbool nx
  have ha1 := a1.isLt; have hpa := pa.isLt; have ha2 := a2.isLt
  rw [decode, Entry.mk.injEq]
  refine ⟨bit_eq ?_, bit_eq ?_, bit_eq ?_, bit_eq ?_, bit_eq ?_, bit_eq ?_, bit_eq ?_, bit_eq ?_,
    bit_eq ?_, ofNat_eq ?_, ofNat_eq ?_, ofNat_eq ?_, bit_eq ?_⟩ <;>
  · simp only [encode]
    omega

theorem encode_lt (e : Entry) : encode e < 2 ^ 64 := by
  obtain ⟨p, w, u, wt, dc, ac, di, hp, gl, a1, pa, a2, nx⟩ := e
  have hbool : ∀ b : Bool, b.toNat ≤ 1 := fun b => by cases b <;> decide
  have hp' := hbool p; have hw := hbool w; have hu := hbool u; have hwt := hbool wt
  have hdc := hbool dc; have hac := hbool ac; have hdi := hbool di; have hhp := hbool hp
  have hgl := hbool gl; have hnx := hbool nx
  have ha1 := a1.isLt; have hpa := pa.isLt; have ha2 := a2.isLt
  simp only [encode]
  omega

theorem decode_zero : decode 0 = zero := by decide

/-- The physical address of the table or page an entry points to. -/
def target (e : Entry) : Nat := e.physicalAddress.toNat * pageLen

end Entry

/-- The entry stored at a physical address. -/
def readEntry (m : Mem) (a : Nat) : Entry := Entry.decode (load m a 8)

/-- Store an entry at a physical address. -/
def writeEntry (m : Mem) (a : Nat) (e : Entry) : Mem := store m a 8 e.encode

theorem readEntry_writeEntry_self (m : Mem) (a : Nat) (e : Entry) :
    readEntry (writeEntry m a e) a = e := by
  have hmod : e.encode % 256 ^ 8 = e.encode := Nat.mod_eq_of_lt e.encode_lt
  rw [readEntry, writeEntry, load_store_self, hmod, Entry.decode_encode]

theorem readEntry_writeEntry_disjoint {m : Mem} {a b : Nat} {e : Entry}
    (h : b + 8 ≤ a ∨ a + 8 ≤ b) : readEntry (writeEntry m a e) b = readEntry m b := by
  rw [readEntry, writeEntry, load_store_disjoint h, readEntry]

theorem readEntry_congr {m m' : Mem} {a : Nat} (h : Set.EqOn m m' (Set.Ico a (a + 8))) :
    readEntry m a = readEntry m' a := by
  rw [readEntry, load_congr h, readEntry]

/-! ## The walk -/

/-- The present entry at index `i` of the table at physical address `table`. -/
def walkStep (m : Mem) (table i : Nat) : Option Entry :=
  let e := readEntry m (table + 8 * i)
  if e.present then some e else none

/-- Physical base of the top-level table named by a `cr3` value (bits 51:12). -/
def cr3Table (cr3 : Nat) : Nat := cr3 / pageLen % 2 ^ 40 * pageLen

/-- **The processor's four-level walk** of virtual address `v` (bits 47:39, 38:30, 29:21, 20:12). -/
def walk (m : Mem) (cr3 v : Nat) : Option Nat := do
  let pml4e ← walkStep m (cr3Table cr3) (v / pdpLen % nPagesInTable)
  let pdpe ← walkStep m pml4e.target (v / pdLen % nPagesInTable)
  if pdpe.hugePage then
    return pdpe.target / pdLen * pdLen + v % pdLen
  let pde ← walkStep m pdpe.target (v / ptLen % nPagesInTable)
  if pde.hugePage then
    return pde.target / ptLen * ptLen + v % ptLen
  let pte ← walkStep m pde.target (v / pageLen % nPagesInTable)
  return pte.target + v % pageLen

end Memory
end SysproKernel

import SysproKernel.Console
import SysproKernel.Lib.ByteMem
import SysproKernel.Timer.PmTimer

/-!
# `Timer.Acpi` — the search for the FADT (`pm_timer.c`)

`rsdp_to_fadt` walks over the table pointers behind the header of the XSDT and returns the first table
with the signature `FACP`; `init_acpi_pm_timer` takes the timer's port and width from it. How many
pointers there are is computed from the length field the firmware wrote, by a subtraction in `u32`: for a
length below the 36 bytes of the header it wraps, and the walk leaves the table (`searchCorrect_iff`).

`search` keeps the entries it examines beside what it finds, so that one definition says both.
-/

namespace SysproKernel
namespace Timer

open Lib.ByteMem

/-! ## The code -/

/-- `my_memcmp` from byte `i` on, with `n` bytes to go. -/
def memcmpFrom (s t : Nat → Int8) (i : Nat) : Nat → Int
  | 0     => 0
  | n + 1 => if s i ≠ t i then (if s i < t i then -1 else 1) else memcmpFrom s t (i + 1) n

def myMemcmp (s t : Nat → Int8) (len : Nat) : Int := memcmpFrom s t 0 len

/-- The string literal `"FACP"`. -/
def facp : Nat → Int8 := fun k => [0x46, 0x41, 0x43, 0x50].getD k 0

/-- `sdth->signature`. -/
def signature (m : Mem) (sdth : Nat) : Nat → Int8 := fun k => (m (sdth + k)).toInt8

/-- `rsdp->xsdt_address`. -/
def xsdtAddress (m : Mem) (rsdp : Nat) : Nat := load m (rsdp + 24) 8

/-- `xsdt->sdth.length`. -/
def tableLength (m : Mem) (xsdt : Nat) : Nat := load m (xsdt + 4) 4

/-- `xsdt->other_tables[i]`. -/
def otherTable (m : Mem) (xsdt i : Nat) : Nat := load m (xsdt + (36 + 8 * i)) 8

/-- `(xsdt->sdth.length - 36) / 8`: the subtraction is one of `unsigned int`s, and the quotient fits into
    an `int`. -/
def nOtherEntries (m : Mem) (xsdt : Nat) : Nat := (2 ^ 32 - 36 + tableLength m xsdt) % 2 ^ 32 / 8

/-- The loop from entry `i` on, with `n` entries to go: the entries it examines and the pointer it
    returns, `NULL` being 0. -/
def search (m : Mem) (xsdt i : Nat) : Nat → List Nat × Nat
  | 0     => ([], 0)
  | n + 1 =>
      let curSdth := otherTable m xsdt i
      if myMemcmp (signature m curSdth) facp 4 = 0 then ([i], curSdth)
      else
        let (examined, fadt) := search m xsdt (i + 1) n
        (i :: examined, fadt)

/-- The loop of `rsdp_to_fadt`. -/
def xsdtWalk (m : Mem) (rsdp : Nat) : List Nat × Nat :=
  let xsdt := xsdtAddress m rsdp
  search m xsdt 0 (nOtherEntries m xsdt)

/-- The entries `rsdp_to_fadt` examines. -/
def examinedEntries (m : Mem) (rsdp : Nat) : List Nat := (xsdtWalk m rsdp).1

def rsdpToFadt (m : Mem) (rsdp : Nat) : Nat := (xsdtWalk m rsdp).2

/-- The result, the globals and what is printed. -/
def initAcpiPmTimer (m : Mem) (rsdp : Nat) (pm : PmTimer) : Int × PmTimer × List Out :=
  let fadt := rsdpToFadt m rsdp
  if fadt = 0 then (1, pm, [.puts "FADT not found\n"])
  else
    let pmTmrBlk := load m (fadt + 76) 4
    let flags := load m (fadt + 112) 4
    let pm : PmTimer := { blk := UInt16.ofNat pmTmrBlk, is32 := flags &&& 1 <<< 8 ≠ 0 }
    (0, pm, [.puth pmTmrBlk 8, .puts "\n", .puts "ACPI PM Timer initialized. width: ",
      .puts (if pm.is32 then "32bit\n" else "24bit\n")])

/-! ## What the table says -/

/-- The table has the signature of a FADT. -/
def IsFadt (m : Mem) (sdth : Nat) : Prop := ∀ k < 4, signature m sdth k = facp k

/-- Entry `i` lies wholly inside the XSDT, going by the table's own length. -/
def EntryInside (m : Mem) (xsdt i : Nat) : Prop := 36 + 8 * i + 8 ≤ tableLength m xsdt

/-- The search stays inside the table, finds the first FADT in it, and where there is none it returns
    `NULL` and the initialisation fails with the globals unchanged. -/
structure SearchCorrect (m : Mem) (rsdp : Nat) : Prop where
  inside : ∀ i ∈ examinedEntries m rsdp, EntryInside m (xsdtAddress m rsdp) i
  first : ∀ i, EntryInside m (xsdtAddress m rsdp) i →
    IsFadt m (otherTable m (xsdtAddress m rsdp) i) →
    (∀ j < i, ¬ IsFadt m (otherTable m (xsdtAddress m rsdp) j)) →
    rsdpToFadt m rsdp = otherTable m (xsdtAddress m rsdp) i
  null : (∀ i, EntryInside m (xsdtAddress m rsdp) i → ¬ IsFadt m (otherTable m (xsdtAddress m rsdp) i)) →
    rsdpToFadt m rsdp = 0
  fails : ∀ pm, (∀ i, EntryInside m (xsdtAddress m rsdp) i →
      ¬ IsFadt m (otherTable m (xsdtAddress m rsdp) i)) →
    (initAcpiPmTimer m rsdp pm).1 = 1 ∧ (initAcpiPmTimer m rsdp pm).2.1 = pm

/-! ## The comparison -/

theorem memcmpFrom_eq_zero_iff (s t : Nat → Int8) (i n : Nat) :
    memcmpFrom s t i n = 0 ↔ ∀ k < n, s (i + k) = t (i + k) := by
  induction n generalizing i with
  | zero => exact ⟨fun _ k hk => absurd hk (Nat.not_lt_zero k), fun _ => rfl⟩
  | succ n ih =>
      by_cases hi : s i = t i
      · have hstep : memcmpFrom s t i (n + 1) = memcmpFrom s t (i + 1) n := if_neg (not_not.mpr hi)
        rw [hstep, ih]
        constructor
        · intro h k hk
          cases k with
          | zero => exact hi
          | succ k =>
              have hk' := h k (Nat.lt_of_succ_lt_succ hk)
              rwa [Nat.add_assoc, Nat.add_comm 1 k] at hk'
        · intro h k hk
          rw [Nat.add_assoc, Nat.add_comm 1 k]
          exact h (k + 1) (Nat.succ_lt_succ hk)
      · have hstep : memcmpFrom s t i (n + 1) = if s i < t i then -1 else 1 := if_pos hi
        rw [hstep]
        constructor
        · intro h
          split at h <;> cases h
        · intro h
          exact absurd (h 0 (Nat.succ_pos n)) hi

theorem isFadt_iff (m : Mem) (sdth : Nat) : myMemcmp (signature m sdth) facp 4 = 0 ↔ IsFadt m sdth := by
  rw [myMemcmp, memcmpFrom_eq_zero_iff]
  simp only [Nat.zero_add, IsFadt]

/-! ## The search -/

section Search

variable {m : Mem} {xsdt i n : Nat}

theorem search_found (h : IsFadt m (otherTable m xsdt i)) :
    search m xsdt i (n + 1) = ([i], otherTable m xsdt i) :=
  if_pos ((isFadt_iff m _).mpr h)

theorem search_next (h : ¬ IsFadt m (otherTable m xsdt i)) :
    search m xsdt i (n + 1) = (i :: (search m xsdt (i + 1) n).1, (search m xsdt (i + 1) n).2) :=
  if_neg (fun heq => h ((isFadt_iff m _).mp heq))

theorem search_next_fadt (h : ¬ IsFadt m (otherTable m xsdt i)) :
    (search m xsdt i (n + 1)).2 = (search m xsdt (i + 1) n).2 := by
  rw [search_next h]

/-- Only entries of the range are examined. -/
theorem search_examined {j : Nat} (h : j ∈ (search m xsdt i n).1) : i ≤ j ∧ j < i + n := by
  induction n generalizing i with
  | zero => cases h
  | succ n ih =>
      by_cases hfadt : IsFadt m (otherTable m xsdt i)
      · rw [search_found hfadt, List.mem_singleton] at h
        omega
      · rw [search_next hfadt, List.mem_cons] at h
        rcases h with rfl | h
        · omega
        · have hrange := ih h
          omega

/-- The first entry is examined whatever it is. -/
theorem search_head (hn : 0 < n) : i ∈ (search m xsdt i n).1 := by
  obtain ⟨n, rfl⟩ := Nat.exists_eq_add_of_lt hn
  by_cases hfadt : IsFadt m (otherTable m xsdt i)
  · rw [Nat.zero_add, search_found hfadt]
    exact List.mem_cons_self
  · rw [Nat.zero_add, search_next hfadt]
    exact List.mem_cons_self

/-- **The first FADT of the range is returned.** -/
theorem search_first {k : Nat} (hk : k < n) (hfadt : IsFadt m (otherTable m xsdt (i + k)))
    (hbefore : ∀ j < k, ¬ IsFadt m (otherTable m xsdt (i + j))) :
    (search m xsdt i n).2 = otherTable m xsdt (i + k) := by
  induction n generalizing i k with
  | zero => exact absurd hk (Nat.not_lt_zero k)
  | succ n ih =>
      cases k with
      | zero =>
          rw [Nat.add_zero] at hfadt
          rw [search_found hfadt, Nat.add_zero]
      | succ k =>
          have hshift : ∀ j, i + (j + 1) = i + 1 + j := fun j => by omega
          have hi := hbefore 0 (Nat.succ_pos k)
          rw [Nat.add_zero] at hi
          rw [hshift k] at hfadt ⊢
          rw [search_next_fadt hi]
          refine ih (Nat.lt_of_succ_lt_succ hk) hfadt fun j hj => ?_
          have hj' := hbefore (j + 1) (Nat.succ_lt_succ hj)
          rwa [hshift j] at hj'

/-- A range without a FADT gives `NULL`. -/
theorem search_null (h : ∀ k < n, ¬ IsFadt m (otherTable m xsdt (i + k))) :
    (search m xsdt i n).2 = 0 := by
  induction n generalizing i with
  | zero => rfl
  | succ n ih =>
      have hi := h 0 (Nat.succ_pos n)
      rw [Nat.add_zero] at hi
      rw [search_next_fadt hi]
      refine ih fun k hk => ?_
      rw [Nat.add_assoc, Nat.add_comm 1 k]
      exact h (k + 1) (Nat.succ_lt_succ hk)

end Search

/-! ## Staying inside the table -/

/-- A table that is long enough for its header has room for exactly the entries counted. -/
theorem lt_nOtherEntries {m : Mem} {xsdt i : Nat} (h : 36 ≤ tableLength m xsdt) :
    i < nOtherEntries m xsdt ↔ EntryInside m xsdt i := by
  have hlt : tableLength m xsdt < 2 ^ 32 := load_lt m _ 4
  unfold nOtherEntries EntryInside
  omega

/-- A shorter table is taken to have half a billion entries. -/
theorem nOtherEntries_short {m : Mem} {xsdt : Nat} (h : tableLength m xsdt < 36) :
    nOtherEntries m xsdt = (2 ^ 32 - 36 + tableLength m xsdt) / 8 := by
  unfold nOtherEntries
  omega

/-- An initialisation without a FADT fails and leaves the globals alone. -/
theorem initAcpiPmTimer_null {m : Mem} {rsdp : Nat} (pm : PmTimer) (h : rsdpToFadt m rsdp = 0) :
    initAcpiPmTimer m rsdp pm = (1, pm, [.puts "FADT not found\n"]) := if_pos h

/-- Entry 0 of a shorter table is examined, and does not lie in it. -/
theorem not_searchCorrect {m : Mem} {rsdp : Nat} (h : tableLength m (xsdtAddress m rsdp) < 36) :
    ¬ SearchCorrect m rsdp := by
  intro hcorrect
  have hsome : 0 < nOtherEntries m (xsdtAddress m rsdp) := by
    rw [nOtherEntries_short h]
    omega
  have hinside : 36 + 8 * 0 + 8 ≤ tableLength m (xsdtAddress m rsdp) :=
    hcorrect.inside 0 (search_head hsome)
  omega

theorem searchCorrect_of_long {m : Mem} {rsdp : Nat} (h : 36 ≤ tableLength m (xsdtAddress m rsdp)) :
    SearchCorrect m rsdp := by
  have hnull : (∀ i, EntryInside m (xsdtAddress m rsdp) i →
      ¬ IsFadt m (otherTable m (xsdtAddress m rsdp) i)) → rsdpToFadt m rsdp = 0 := by
    intro hnone
    refine search_null fun k hk => ?_
    rw [Nat.zero_add]
    exact hnone k ((lt_nOtherEntries h).mp hk)
  refine ⟨?_, ?_, hnull, ?_⟩
  · intro i hi
    have hrange := (search_examined hi).2
    rw [Nat.zero_add] at hrange
    exact (lt_nOtherEntries h).mp hrange
  · intro i hi hfadt hbefore
    have hfirst := search_first (i := 0) ((lt_nOtherEntries h).mpr hi)
      (by rwa [Nat.zero_add]) (fun j hj => by rw [Nat.zero_add]; exact hbefore j hj)
    rwa [Nat.zero_add] at hfirst
  · intro pm hnone
    rw [initAcpiPmTimer_null pm (hnull hnone)]
    exact ⟨rfl, rfl⟩

/-- **The search is correct exactly for the tables that are long enough for their header.** -/
theorem searchCorrect_iff (m : Mem) (rsdp : Nat) :
    SearchCorrect m rsdp ↔ 36 ≤ tableLength m (xsdtAddress m rsdp) := by
  constructor
  · intro h
    by_contra hshort
    exact not_searchCorrect (Nat.not_le.mp hshort) h
  · exact searchCorrect_of_long

/-- An RSDP at `0x1000` whose XSDT at `0x2000` has the length 0. -/
def emptyXsdt : Mem := store (fun _ => 0) 0x1018 8 0x2000

theorem emptyXsdt_length : tableLength emptyXsdt (xsdtAddress emptyXsdt 0x1000) = 0 := by
  have haddress : xsdtAddress emptyXsdt 0x1000 = 0x2000 := load_store_self _ _ 8 0x2000
  rw [haddress, tableLength, emptyXsdt, load_store_disjoint (by decide)]
  exact load_zero fun _ _ => rfl

/-- With a length of 0 the walk leaves the table. -/
theorem search_leaves_table : ¬ ∀ (m : Mem) (rsdp : Nat), SearchCorrect m rsdp := by
  intro h
  refine not_searchCorrect ?_ (h emptyXsdt 0x1000)
  rw [emptyXsdt_length]
  decide

end Timer
end SysproKernel

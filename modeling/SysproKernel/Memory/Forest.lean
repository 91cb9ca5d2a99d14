import SysproKernel.Memory.Tables

/-!
# `Memory.Forest` — page tables as a forest of references

The abstract view of the tables: `Forest` says, for every table and index, whether the slot is empty or
which table or page it refers to, with no addresses of tables and no bytes. `Represents L m τ` ties a
memory to a forest. Two facts connect the layers:

* `initEntry_represents` — `init_entry` on a slot is `Forest.set`, for a reference that fits the slot;
* `walk_eq_translate` — the processor's walk over a memory is `Forest.translate` over the forest it
  represents.
-/

namespace SysproKernel
namespace Memory

open Lib.ByteMem Lib.Loop

/-! ## Forests -/

/-- What a used slot refers to. -/
inductive Ref where
  | table (T : TableId)
  | page (addr : Nat)
  deriving DecidableEq, Repr

/-- The level of a table: 4 at the root, 1 for the tables of pages. -/
def TableId.level : TableId → Nat
  | .PML4s _ => 4
  | .PDPs _ => 3
  | .PDs _ | .kernelPD | .ioPD | .additionalPD => 2
  | .PTs _ _ | .kernelPTs _ | .fbPT | .lapicPT | .additionalPT => 1

/-- A reference fits a table: an existing table one level down, or a page below the last level. -/
def Ref.Fits (K : VmConsts) (T : TableId) : Ref → Prop
  | .table T' => T'.Valid K ∧ T'.level + 1 = T.level
  | .page a => T.level = 1 ∧ a % pageLen = 0 ∧ a < 2 ^ 52

/-- Page tables without addresses: the reference in each slot of each table. -/
abbrev Forest := TableId → Nat → Option Ref

namespace Forest

/-- No slot is used. -/
def empty : Forest := fun _ _ => none

/-- Use slot `k` of table `T`. -/
def set (τ : Forest) (T : TableId) (k : Nat) (r : Ref) : Forest :=
  fun T' k' => if T' = T ∧ k' = k then some r else τ T' k'

/-- The sub-table in slot `k` of table `T`. -/
def next (τ : Forest) (T : TableId) (k : Nat) : Option TableId :=
  match τ T k with
  | some (.table T') => some T'
  | _ => none

/-- The translation of `v` from the root table. -/
def translate (τ : Forest) (root : TableId) (v : Nat) : Option Nat := do
  let pdp ← τ.next root (v / pdpLen % nPagesInTable)
  let pd ← τ.next pdp (v / pdLen % nPagesInTable)
  let pt ← τ.next pd (v / ptLen % nPagesInTable)
  match τ pt (v / pageLen % nPagesInTable) with
  | some (.page a) => some (a + v % pageLen)
  | _ => none

end Forest

/-! ### A translation, level by level -/

section Paths

variable {τ : Forest} {root pdp pd pt : TableId} {v a : Nat}

theorem translate_page (h4 : τ.next root (v / pdpLen % nPagesInTable) = some pdp)
    (h3 : τ.next pdp (v / pdLen % nPagesInTable) = some pd)
    (h2 : τ.next pd (v / ptLen % nPagesInTable) = some pt)
    (h1 : τ pt (v / pageLen % nPagesInTable) = some (.page a)) :
    τ.translate root v = some (a + v % pageLen) := by
  simp [Forest.translate, h4, h3, h2, h1]

theorem translate_noPage (h4 : τ.next root (v / pdpLen % nPagesInTable) = some pdp)
    (h3 : τ.next pdp (v / pdLen % nPagesInTable) = some pd)
    (h2 : τ.next pd (v / ptLen % nPagesInTable) = some pt)
    (h1 : τ pt (v / pageLen % nPagesInTable) = none) : τ.translate root v = none := by
  simp [Forest.translate, h4, h3, h2, h1]

theorem translate_noPT (h4 : τ.next root (v / pdpLen % nPagesInTable) = some pdp)
    (h3 : τ.next pdp (v / pdLen % nPagesInTable) = some pd)
    (h2 : τ.next pd (v / ptLen % nPagesInTable) = none) : τ.translate root v = none := by
  simp [Forest.translate, h4, h3, h2]

theorem translate_noPDP (h4 : τ.next root (v / pdpLen % nPagesInTable) = none) :
    τ.translate root v = none := by
  simp [Forest.translate, h4]

theorem next_eq_some_iff {T T' : TableId} {k : Nat} :
    τ.next T k = some T' ↔ τ T k = some (.table T') := by
  unfold Forest.next
  split
  · rename_i T'' h
    rw [h, Option.some.injEq, Option.some.injEq, Ref.table.injEq]
  · rename_i h
    constructor
    · intro hnone
      cases hnone
    · exact fun hslot => absurd hslot (h T')

theorem translate_eq_some_iff {p : Nat} :
    τ.translate root v = some p ↔
      ∃ pdp pd pt a, τ.next root (v / pdpLen % nPagesInTable) = some pdp
        ∧ τ.next pdp (v / pdLen % nPagesInTable) = some pd
        ∧ τ.next pd (v / ptLen % nPagesInTable) = some pt
        ∧ τ pt (v / pageLen % nPagesInTable) = some (.page a) ∧ a + v % pageLen = p := by
  constructor
  · intro h
    obtain ⟨pdp, h4, h⟩ := Option.bind_eq_some_iff.mp h
    obtain ⟨pd, h3, h⟩ := Option.bind_eq_some_iff.mp h
    obtain ⟨pt, h2, h⟩ := Option.bind_eq_some_iff.mp h
    split at h
    · rename_i a h1
      exact ⟨pdp, pd, pt, a, h4, h3, h2, h1, Option.some.inj h⟩
    · cases h
  · rintro ⟨pdp, pd, pt, a, h4, h3, h2, h1, rfl⟩
    exact translate_page h4 h3 h2 h1

end Paths

/-! ## Representation -/

variable {K : VmConsts} {L : TableLayout K} {m m' : Mem} {τ : Forest}

/-- The address a reference is stored as. -/
def Ref.addr (L : TableLayout K) : Ref → Nat
  | .table T => L.addr T
  | .page a => a

/-- The entry a slot holds. -/
def entryOf (L : TableLayout K) : Option Ref → Entry
  | none => Entry.zero
  | some r => { Entry.zero with
      present := true, writable := true
      physicalAddress := BitVec.ofNat 40 (r.addr L / 2 ^ 12) }

/-- The memory holds exactly the forest, in tables placed by `L`. -/
structure Represents (L : TableLayout K) (m : Mem) (τ : Forest) : Prop where
  entry : ∀ T, T.Valid K → ∀ k < nPagesInTable, readEntry m (L.slot T k) = entryOf L (τ T k)
  fits : ∀ T k r, τ T k = some r → r.Fits K T

/-- The bytes of the tables. -/
def TableLayout.bytes (L : TableLayout K) : Set Nat :=
  {x | ∃ T, T.Valid K ∧ L.addr T ≤ x ∧ x < L.addr T + pageLen}

theorem slot_range {T : TableId} {k : Nat} (hT : T.Valid K) (hk : k < nPagesInTable) :
    Set.Ico (L.slot T k) (L.slot T k + 8) ⊆ L.bytes := by
  intro x hx
  simp only [Set.mem_Ico, TableLayout.slot, nPagesInTable] at hx hk
  exact ⟨T, hT, by omega, by unfold pageLen; omega⟩

/-- Distinct slots of existing tables are disjoint. -/
theorem slot_disjoint {T T' : TableId} {k k' : Nat} (hT : T.Valid K) (hT' : T'.Valid K)
    (hk : k < nPagesInTable) (hk' : k' < nPagesInTable) (hne : ¬(T' = T ∧ k' = k)) :
    L.slot T' k' + 8 ≤ L.slot T k ∨ L.slot T k + 8 ≤ L.slot T' k' := by
  have ha := L.aligned T hT
  have ha' := L.aligned T' hT'
  simp only [TableLayout.slot, nPagesInTable, pageLen] at *
  by_cases hTT : T' = T
  · subst hTT
    have : k' ≠ k := fun h => hne ⟨rfl, h⟩
    omega
  · have hd : L.addr T' ≠ L.addr T := fun h => hTT (L.distinct T' T hT' hT h)
    omega

/-- The forest a memory represents depends only on the bytes of the tables. -/
theorem Represents.congr (h : Represents L m τ) (heq : Set.EqOn m' m L.bytes) :
    Represents L m' τ where
  entry T hT k hk := by
    rw [readEntry_congr (heq.mono (slot_range hT hk))]
    exact h.entry T hT k hk
  fits := h.fits

/-- Zeroed tables represent the empty forest. -/
theorem represents_empty (hzero : ∀ x ∈ L.bytes, m x = 0) : Represents L m Forest.empty where
  entry T hT k hk := by
    have hload : load m (L.slot T k) 8 = 0 :=
      load_zero (fun i hi => hzero _ (slot_range hT hk ⟨by omega, by omega⟩))
    rw [readEntry, hload, Entry.decode_zero]
    rfl
  fits T k r h := by simp [Forest.empty] at h

/-! ## `init_entry` is `Forest.set` -/

/-- The kernel's memory lies where its addresses fit an entry. -/
structure VmConsts.Below (K : VmConsts) : Prop where
  kernel : K.kernelMemAddr + K.kernelMemLen ≤ 2 ^ 52

theorem Ref.addr_aligned {T : TableId} {r : Ref} (hr : r.Fits K T) : r.addr L % pageLen = 0 := by
  cases r with
  | table T' => exact L.aligned T' hr.1
  | page a => exact hr.2.1

theorem Ref.addr_lt {T : TableId} {r : Ref} (hr : r.Fits K T) : r.addr L < 2 ^ 52 := by
  cases r with
  | table T' =>
      have h := L.below T' hr.1
      simp only [Ref.addr, pageLen] at *
      omega
  | page a => exact hr.2.2

theorem addr2page_ok {a : Nat} (h : a % pageLen = 0) : addr2page a = .ok (a / 2 ^ 12) := by
  simp [addr2page, assert, h, ok_bind, pure, Except.pure]

/-- Whatever a slot held, `init_entry` leaves exactly the entry of the new reference. -/
theorem entryOf_update (o : Option Ref) (r : Ref) :
    { entryOf L o with
      present := true, writable := true
      physicalAddress := BitVec.ofNat 40 (r.addr L / 2 ^ 12) } = entryOf L (some r) := by
  cases o <;> rfl

/-- **`init_entry` refines `Forest.set`**, and touches only the bytes of the tables. -/
theorem initEntry_represents {T : TableId} {k : Nat} {r : Ref} (h : Represents L m τ)
    (hT : T.Valid K) (hk : k < nPagesInTable) (hr : r.Fits K T) :
    ∃ m', initEntry m (L.slot T k) (r.addr L) = .ok m' ∧ Represents L m' (τ.set T k r) := by
  refine ⟨_, by rw [initEntry, addr2page_ok (Ref.addr_aligned hr), ok_bind]; rfl, ?_, ?_⟩
  · intro T' hT' k' hk'
    by_cases hsame : T' = T ∧ k' = k
    · obtain ⟨rfl, rfl⟩ := hsame
      rw [readEntry_writeEntry_self, h.entry T' hT' k' hk', entryOf_update]
      simp [Forest.set]
    · rw [readEntry_writeEntry_disjoint (slot_disjoint hT hT' hk hk' hsame),
        h.entry T' hT' k' hk', Forest.set, if_neg hsame]
  · intro T' k' r' hset
    unfold Forest.set at hset
    split at hset
    · rename_i hsame
      rw [hsame.1, ← Option.some.inj hset]
      exact hr
    · exact h.fits T' k' r' hset

/-! ## The walk is the translation -/

theorem target_entryOf {T : TableId} {r : Ref} (hr : r.Fits K T) :
    (entryOf L (some r)).target = r.addr L := by
  have ha := Ref.addr_aligned (L := L) hr
  have hlt := Ref.addr_lt (L := L) hr
  simp only [entryOf, Entry.target, BitVec.toNat_ofNat, pageLen] at *
  omega

/-- A table read of the walk sees the slot of the forest. -/
theorem walkStep_eq {T : TableId} {k : Nat} (h : Represents L m τ) (hT : T.Valid K)
    (hk : k < nPagesInTable) :
    walkStep m (L.addr T) k = (τ T k).map (fun r => entryOf L (some r)) := by
  have hentry := h.entry T hT k hk
  rw [TableLayout.slot] at hentry
  rw [walkStep, hentry]
  cases τ T k <;> rfl

theorem cr3Table_addr {T : TableId} (hT : T.Valid K) : cr3Table (L.addr T) = L.addr T := by
  have ha := L.aligned T hT
  have hbelow := L.below T hT
  simp only [cr3Table, pageLen] at *
  omega

/-- One level of the walk: below level 1 nothing is a page, so a used slot is a sub-table. -/
theorem walkStep_next {T : TableId} {k : Nat} (h : Represents L m τ) (hT : T.Valid K)
    (hk : k < nPagesInTable) (hlevel : T.level ≠ 1) {β : Type}
    (f : Entry → Option β) (g : TableId → Option β)
    (hfg : ∀ T' e, T'.Valid K → T'.level + 1 = T.level → e.hugePage = false →
      e.target = L.addr T' → f e = g T') :
    (walkStep m (L.addr T) k).bind f = (τ.next T k).bind g := by
  rw [walkStep_eq h hT hk, Forest.next]
  cases hslot : τ T k with
  | none => rfl
  | some r =>
      have hfit := h.fits T k r hslot
      cases r with
      | table T' => exact hfg T' _ hfit.1 hfit.2 rfl (target_entryOf hfit)
      | page a => exact absurd hfit.1 hlevel

theorem index_lt (v d : Nat) : v / d % nPagesInTable < nPagesInTable :=
  Nat.mod_lt _ (by decide)

/-- **The processor's walk is the forest's translation.** -/
theorem walk_eq_translate {i v : Nat} (h : Represents L m τ) (hi : i < nTasks) :
    walk m (L.addr (.PML4s i)) v = τ.translate (.PML4s i) v := by
  have hroot : (TableId.PML4s i).Valid K := hi
  unfold walk Forest.translate
  rw [cr3Table_addr hroot]
  refine walkStep_next h hroot (index_lt _ _) (by simp [TableId.level]) _ _ ?_
  intro T₃ e₄ hT₃ hl₃ _ he₄
  have hlevel₃ : T₃.level = 3 := Nat.succ.inj hl₃
  rw [he₄]
  refine walkStep_next h hT₃ (index_lt _ _) (by omega) _ _ ?_
  intro T₂ e₃ hT₂ hl₂ hh₃ he₃
  simp only [hh₃, he₃, Bool.false_eq_true, if_false]
  refine walkStep_next h hT₂ (index_lt _ _) (by omega) _ _ ?_
  intro T₁ e₂ hT₁ hl₁ hh₂ he₂
  simp only [hh₂, he₂, Bool.false_eq_true, if_false]
  rw [walkStep_eq h hT₁ (index_lt _ _)]
  cases hslot : τ T₁ (v / pageLen % nPagesInTable) with
  | none => rfl
  | some r =>
      have hfit := h.fits T₁ _ r hslot
      cases r with
      | table T' =>
          -- a reference to a table would need a level below 1
          have hl := hfit.2
          have hpos : 0 < T'.level := by cases T' <;> simp [TableId.level]
          omega
      | page a =>
          show some ((entryOf L (some (.page a))).target + v % pageLen) = some (a + v % pageLen)
          rw [target_entryOf hfit]
          rfl

end Memory
end SysproKernel

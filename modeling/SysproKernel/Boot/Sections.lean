import SysproKernel.Boot.Load
import Mathlib.Data.Nat.Find

/-!
# `Boot.Sections` — the section headers of an ELF file

`getbss` walks over the section headers and reads the name of each section into a buffer of 32 bytes, of
which it compares four. In a file with a section name table every byte it compares has been read, so it
finds the first section whose name *starts with* `.bss` (`getbss_of_ok`); without such a table the names
come from wherever the uninitialised `strtable` points.
-/

namespace SysproKernel
namespace Boot

open Lib.ByteMem Lib.Loop

variable {data : List UInt8} {f f' : File} {m m' o e : Mem} {off n a : Nat}

/-! ## What the file says -/

/-- The bytes of a file, with zeros after its end. -/
def contents (data : List UInt8) : Mem := fun i => data.getD i 0

/-- Section header `i` of the file. -/
def shdrOffset (data : List UInt8) (i : Nat) : Nat := eShoff (contents data) + sizeofShdr * i

/-- Where the name of section `i` starts. -/
def nameOffset (data : List UInt8) (i : Nat) : Nat :=
  shOffset (contents data) (shdrOffset data (eShstrndx (contents data)))
    + shName (contents data) (shdrOffset data i)

/-- The name of section `i` starts with `.bss`. -/
def NamedBss (data : List UInt8) (i : Nat) : Prop :=
  ∀ k < 4, contents data (nameOffset data i + k) = dotBss k

/-- Section `i` is the one `getbss` takes. -/
def FirstBss (data : List UInt8) (i : Nat) : Prop :=
  i < eShnum (contents data) ∧ NamedBss data i ∧ ∀ j < i, ¬ NamedBss data j

/-- **An ELF64 executable whose section headers have the size of `struct shdr`**: its headers lie in the
    file, and with a section name table so do the names, each ended by a zero byte. -/
structure SectionTable (data : List UInt8) : Prop where
  ident : iself (contents data) = true
  elfclass64 : contents data 4 = 2
  elfdata2lsb : contents data 5 = 1
  header : sizeofEhdr ≤ data.length
  shentsize : eShentsize (contents data) = sizeofShdr
  shdrs : ∀ i < eShnum (contents data), shdrOffset data i + sizeofShdr ≤ data.length
  strtab : eShstrndx (contents data) ≠ shnUndef →
    shdrOffset data (eShstrndx (contents data)) + sizeofShdr ≤ data.length
  names : eShstrndx (contents data) ≠ shnUndef → ∀ i < eShnum (contents data),
    ∃ k, nameOffset data i + k < data.length ∧ contents data (nameOffset data i + k) = 0

/-! ## Reads that give all there is -/

/-- The `n` bytes of the file at `off`, as many as there are. -/
def slice (data : List UInt8) (off n : Nat) : List UInt8 := (data.drop off).take n

/-- Whenever `Read` succeeds, it gives every byte that is there, up to the requested size. -/
def File.ReadsAll (f : File) : Prop := ∀ i n, (f.answer i n).2 = n

/-- Every `Read` succeeds. -/
def File.Succeeds (f : File) : Prop := ∀ i n, (f.answer i n).1 = 0

/-- `f'` is `f` at some other position. -/
structure File.Same (f f' : File) : Prop where
  data : f'.data = f.data
  answer : f'.answer = f.answer

theorem File.Same.refl (f : File) : f.Same f := ⟨rfl, rfl⟩

theorem File.Same.trans {f'' : File} (h : f.Same f') (h' : f'.Same f'') : f.Same f'' :=
  ⟨h'.data.trans h.data, h'.answer.trans h.answer⟩

theorem File.Same.readsAll (h : f.Same f') (hall : f.ReadsAll) : f'.ReadsAll := by
  unfold ReadsAll
  rw [h.answer]
  exact hall

theorem File.Same.succeeds (h : f.Same f') (hok : f.Succeeds) : f'.Succeeds := by
  unfold Succeeds
  rw [h.answer]
  exact hok

/-- The file after a read of `n` bytes at `off`. -/
def File.after (f : File) (off n : Nat) : File :=
  { f.setPosition off with
    position := (f.setPosition off).position + (slice f.data off n).length
    calls := f.calls + 1 }

theorem File.same_after (f : File) (off n : Nat) : f.Same (f.after off n) := ⟨rfl, rfl⟩

theorem slice_length : (slice data off n).length = min n (data.length - off) := by
  rw [slice, List.length_take, List.length_drop]

theorem File.after_start (f : File) (n : Nat) : (f.after 0 n).position = min n f.data.length := by
  have hne : (0 : Nat) ≠ File.endPosition := by decide
  have hstart : (f.setPosition 0).position = 0 := by
    rw [setPosition, if_neg hne]
  show (f.setPosition 0).position + (slice f.data 0 n).length = _
  rw [hstart, slice_length, Nat.zero_add, Nat.sub_zero]

theorem File.after_end (f : File) (n : Nat) : (f.after f.data.length n).position = f.data.length := by
  have hend : (f.setPosition f.data.length).position = f.data.length := ite_self ..
  show (f.setPosition f.data.length).position + (slice f.data f.data.length n).length = _
  rw [hend, slice_length, Nat.sub_self, Nat.min_zero, Nat.add_zero]

/-- The object holds the `n` bytes of the file at `off`. -/
def Holds (data : List UInt8) (off n : Nat) (o : Mem) : Prop :=
  ∀ i < n, o i = contents data (off + i)

theorem Holds.field (h : Holds data off n o) (k : Nat) {w : Nat} (hk : k + w ≤ n) :
    load o (0 + k) w = load (contents data) (off + k) w := by
  refine load_ext (fun i hi => ?_)
  rw [h (0 + k + i) (by omega), Nat.zero_add, Nat.add_assoc]

theorem Holds.shName (h : Holds data off sizeofShdr o) : shName o 0 = shName (contents data) off :=
  h.field 0 (by decide)

theorem Holds.shAddr (h : Holds data off sizeofShdr o) : shAddr o 0 = shAddr (contents data) off :=
  h.field 16 (by decide)

theorem Holds.shOffset (h : Holds data off sizeofShdr o) : shOffset o 0 = shOffset (contents data) off :=
  h.field 24 (by decide)

theorem Holds.shSize (h : Holds data off sizeofShdr o) : shSize o 0 = shSize (contents data) off :=
  h.field 32 (by decide)

theorem writeBytes_slice {i : Nat} (hi : i < n) (hlt : off + i < data.length) :
    writeBytes m a (slice data off n) (a + i) = contents data (off + i) := by
  have hlen : i < (slice data off n).length := by
    rw [slice_length]
    omega
  rw [writeBytes_inside hlen]
  simp only [slice, List.getElem_take, List.getElem_drop, contents, List.getD_eq_getElem?_getD,
    List.getElem?_eq_getElem hlt, Option.getD_some]

theorem holds_slice (h : off + n ≤ data.length) : Holds data off n (writeBytes m 0 (slice data off n)) := by
  intro i hi
  rw [← writeBytes_slice (m := m) (a := 0) hi (by omega), Nat.zero_add]

/-- The bytes at a position, and those at the end of the file for the position that stands for it. -/
theorem next_setPosition : (f.setPosition off).next n = slice f.data off n := by
  have hlt := f.size_lt
  unfold File.next File.setPosition slice
  by_cases hend : off = File.endPosition
  · have hlen : f.data.length ≤ off := by
      rw [hend, File.endPosition]
      omega
    rw [if_pos hend, List.drop_length, List.drop_of_length_le hlen]
  · rw [if_neg hend]

/-- A successful `elfread`. -/
theorem elfread_of_ok (hall : f.ReadsAll) {dst : Nat} (hn : n < 2 ^ 64)
    (h : elfread f off dst n m = .ok (f', m')) :
    f' = f.after off n ∧ m' = writeBytes m dst (slice f.data off n) := by
  have hcount : ((f.setPosition off).answer (f.setPosition off).calls (UInt64.ofNat n)).2.toNat = n := by
    show (f.answer f.calls (UInt64.ofNat n)).2.toNat = n
    rw [hall, UInt64.toNat_ofNat', Nat.mod_eq_of_lt hn]
  unfold elfread File.read at h
  obtain ⟨_, -, h⟩ := of_bind_ok h
  cases h
  rw [hcount, next_setPosition]
  exact ⟨rfl, rfl⟩

/-- With a firmware that reports no error, `elfread` succeeds. -/
theorem elfread_returns (hok : f.Succeeds) (off dst n : Nat) (m : Mem) :
    ∃ f' m', elfread f off dst n m = .ok (f', m') ∧ f.Same f' := by
  let r := (f.setPosition off).read (UInt64.ofNat n) dst m
  have hstatus : r.1 = 0 := hok ..
  refine ⟨r.2.2.1, r.2.2.2, ?_, rfl, rfl⟩
  show (assert r.1 "read error" >>= _) = _
  rw [hstatus]
  rfl

/-! ## The file header -/

/-- What a local variable that `loadelf` has read the file header into agrees with. -/
abbrev HoldsEhdr (data : List UInt8) (e : Mem) : Prop := Holds data 0 sizeofEhdr e

theorem HoldsEhdr.field (h : HoldsEhdr data e) (k : Nat) {w : Nat} (hk : k + w ≤ sizeofEhdr) :
    load e k w = load (contents data) k w := by
  have hfield := Holds.field h k hk
  rwa [Nat.zero_add] at hfield

section Fields

variable (he : HoldsEhdr data e)

include he

theorem HoldsEhdr.ePhoff : ePhoff e = ePhoff (contents data) := he.field 32 (by decide)

theorem HoldsEhdr.eShoff : eShoff e = eShoff (contents data) := he.field 40 (by decide)

theorem HoldsEhdr.ePhnum : ePhnum e = ePhnum (contents data) := he.field 56 (by decide)

theorem HoldsEhdr.eShnum : eShnum e = eShnum (contents data) := he.field 60 (by decide)

theorem HoldsEhdr.eShstrndx : eShstrndx e = eShstrndx (contents data) := he.field 62 (by decide)

theorem HoldsEhdr.eShentsize (h : SectionTable data) : eShentsize e = sizeofShdr :=
  (he.field 58 (by decide)).trans h.shentsize

theorem HoldsEhdr.iself : iself e = iself (contents data) := by
  have hbyte : ∀ i < sizeofEhdr, e i = contents data i := by
    intro i hi
    rw [he i hi, Nat.zero_add]
  unfold Boot.iself eType
  rw [hbyte 0 (by decide), hbyte 1 (by decide), hbyte 2 (by decide), hbyte 3 (by decide),
    he.field 16 (by decide)]

end Fields

/-! ## The search -/

/-- **Names are compared by their first four bytes.** A name that ends in the file decides the comparison
    before the bytes a short read has left over do. -/
theorem compare_name (hend : ∃ k, off + k < data.length ∧ contents data (off + k) = 0) (name : Mem) :
    compare dotBss (writeBytes name 0 (slice data off 32)) 4 = true
      ↔ ∀ k < 4, contents data (off + k) = dotBss k := by
  obtain ⟨j, hj, hzero⟩ := hend
  have hread : ∀ k < 4, off + k < data.length →
      writeBytes name 0 (slice data off 32) k = contents data (off + k) := by
    intro k hk hlt
    rw [← writeBytes_slice (m := name) (a := 0) (show k < 32 by omega) hlt, Nat.zero_add]
  have hne : ∀ k < 4, dotBss k ≠ 0 := by decide
  unfold compare
  rw [List.all_eq_true]
  constructor
  · intro hall k hk
    have heq : ∀ i < 4, dotBss i = writeBytes name 0 (slice data off 32) i :=
      fun i hi => beq_iff_eq.mp (hall i (List.mem_range.mpr hi))
    by_cases hlt : off + k < data.length
    · rw [heq k hk, hread k hk hlt]
    · -- the terminator is among the bytes read, where `.bss` has none
      have hj4 : j < 4 := by omega
      exact absurd ((heq j hj4).trans ((hread j hj4 hj).trans hzero)) (hne j hj4)
  · intro hall k hk
    have hk4 : k < 4 := List.mem_range.mp hk
    have hlt : off + k < data.length := by
      by_contra hge
      have hzero : contents data (off + k) = 0 := by
        unfold contents
        rw [List.getD_eq_getElem?_getD, List.getElem?_eq_none (by omega), Option.getD_none]
      exact hne k hk4 ((hall k hk4).symm.trans hzero)
    rw [beq_iff_eq, hread k hk4 hlt, hall k hk4]

theorem shdrOffset_succ (data : List UInt8) (i : Nat) :
    shdrOffset data (i + 1) = shdrOffset data i + sizeofShdr := by
  unfold shdrOffset
  rw [Nat.mul_succ, Nat.add_assoc]

/-- The step from one section header to the next. -/
theorem next_shdrOffset (h : SectionTable data) (he : HoldsEhdr data e) {i : Nat}
    (hi : i < eShnum (contents data)) (hlt : data.length < 2 ^ 64) :
    (shdrOffset data i + eShentsize e) % 2 ^ 64 = shdrOffset data (i + 1) := by
  have hle := h.shdrs i hi
  rw [he.eShentsize h, shdrOffset_succ, Nat.mod_eq_of_lt (by omega)]

/-- The object holds the header of the section name table. -/
abbrev HoldsStrtab (data : List UInt8) (strtable : Mem) : Prop :=
  Holds data (shdrOffset data (eShstrndx (contents data))) sizeofShdr strtable

/-- Where the name of section `i` is read, given what is in `strtable`. -/
def nameAt (data : List UInt8) (strtable : Mem) (i : Nat) : Nat :=
  (shOffset strtable 0 + shName (contents data) (shdrOffset data i)) % 2 ^ 64

/-- The header and the name of one section, as `getbss` reads them. -/
theorem section_of_ok (h : SectionTable data) {i : Nat} (hi : i < eShnum (contents data))
    (he : HoldsEhdr data e) (hdata : f.data = data) (hall : f.ReadsAll)
    {strtable shdr shdr' name name' : Mem} {f'' : File}
    (hhead : elfread f (shdrOffset data i) 0 (eShentsize e) shdr = .ok (f', shdr'))
    (hname : sectionname f' strtable (shName shdr' 0) name = .ok (f'', name')) :
    f'' = (f.after (shdrOffset data i) sizeofShdr).after (nameAt data strtable i) 32
      ∧ Holds data (shdrOffset data i) sizeofShdr shdr'
      ∧ name' = writeBytes name 0 (slice data (nameAt data strtable i) 32) := by
  rw [he.eShentsize h] at hhead
  obtain ⟨hafter, hshdr⟩ := elfread_of_ok hall (by decide) hhead
  have hsame : f.Same f' := hafter ▸ f.same_after _ _
  have hholds : Holds data (shdrOffset data i) sizeofShdr shdr' := by
    rw [hshdr, hdata]
    exact holds_slice (h.shdrs i hi)
  unfold sectionname at hname
  rw [hholds.shName] at hname
  obtain ⟨hafter', hname'⟩ := elfread_of_ok (hsame.readsAll hall) (by decide) hname
  rw [hsame.data, hdata] at hname'
  exact ⟨hafter'.trans (congrArg (File.after · _ 32) hafter), hholds, hname'⟩

/-- With a name table this is where the name is. -/
theorem nameAt_eq (h : SectionTable data) (hnames : eShstrndx (contents data) ≠ shnUndef) {i : Nat}
    (hi : i < eShnum (contents data)) {strtable : Mem} (hstr : HoldsStrtab data strtable)
    (hlt : data.length < 2 ^ 64) : nameAt data strtable i = nameOffset data i := by
  obtain ⟨k, hk, -⟩ := h.names hnames i hi
  have hsum : shOffset strtable 0 + shName (contents data) (shdrOffset data i) = nameOffset data i := by
    rw [hstr.shOffset, nameOffset]
  rw [nameAt, hsum, Nat.mod_eq_of_lt (by omega)]

/-- The file after the header and the name of section `i` have been read. -/
def File.afterSection (f : File) (i : Nat) : File :=
  (f.after (shdrOffset f.data i) sizeofShdr).after (nameOffset f.data i) 32

theorem File.same_afterSection (f : File) (i : Nat) : f.Same (f.afterSection i) :=
  (f.same_after _ _).trans (File.same_after _ _ _)

instance (data : List UInt8) (i : Nat) : Decidable (NamedBss data i) :=
  inferInstanceAs (Decidable (∀ k < 4, contents data (nameOffset data i + k) = dotBss k))

/-- The file after the search among the `n` sections from `i` on. -/
def File.searched (f : File) : Nat → Nat → File
  | 0,     _ => f
  | n + 1, i => if NamedBss f.data i then f.afterSection i else (f.afterSection i).searched n (i + 1)

theorem File.same_searched (f : File) (n i : Nat) : f.Same (f.searched n i) := by
  induction n generalizing f i with
  | zero => exact .refl f
  | succ n ih =>
      unfold searched
      split_ifs
      · exact f.same_afterSection i
      · exact (f.same_afterSection i).trans (ih (f.afterSection i) (i + 1))

/-- **The search for `.bss`** stops at the first section whose name starts so. -/
theorem findBss_of_ok (h : SectionTable data) (hnames : eShstrndx (contents data) ≠ shnUndef)
    (he : HoldsEhdr data e) {strtable : Mem} (hstr : HoldsStrtab data strtable) {i : Nat}
    {shdr name : Mem} {found : Option Mem} (hcount : i + n = eShnum (contents data))
    (hdata : f.data = data) (hall : f.ReadsAll)
    (hrun : findBss e strtable n (shdrOffset data i) f shdr name = .ok (f', found)) :
    f' = f.searched n i
      ∧ (∀ o, found = some o → ∃ j, i ≤ j ∧ j < i + n ∧ NamedBss data j
          ∧ (∀ k, i ≤ k → k < j → ¬ NamedBss data k) ∧ Holds data (shdrOffset data j) sizeofShdr o)
      ∧ (found = none → ∀ j, i ≤ j → j < i + n → ¬ NamedBss data j) := by
  induction n generalizing i f shdr name with
  | zero =>
      cases hrun
      refine ⟨rfl, ?_, fun _ j hlo hhi => by omega⟩
      rintro _ ⟨⟩
  | succ n ih =>
      unfold findBss at hrun
      obtain ⟨⟨f₁, shdr₁⟩, hhead, hrun⟩ := of_bind_ok hrun
      obtain ⟨⟨f₂, name₂⟩, hname, hrun⟩ := of_bind_ok hrun
      have hlt : data.length < 2 ^ 64 := hdata ▸ f.size_lt
      obtain ⟨hafter, hshdr, rfl⟩ := section_of_ok h (by omega) he hdata hall hhead hname
      rw [nameAt_eq h hnames (by omega) hstr hlt] at hafter hrun
      have hsection : f₂ = f.afterSection i := by
        rw [hafter, File.afterSection, hdata]
      have hcompare := compare_name (h.names hnames i (by omega)) name
      dsimp only at hrun
      rw [next_shdrOffset h he (by omega) hlt] at hrun
      unfold File.searched
      rw [hdata]
      by_cases hbss : NamedBss data i
      · rw [if_pos (hcompare.mpr hbss)] at hrun
        cases hrun
        rw [if_pos hbss]
        refine ⟨hsection, ?_, fun hnone => by cases hnone⟩
        rintro _ ⟨⟩
        exact ⟨i, Nat.le_refl i, by omega, hbss, fun k hlo hhi => by omega, hshdr⟩
      · rw [if_neg (fun hc => hbss (hcompare.mp hc)), hsection] at hrun
        have hsame := f.same_afterSection i
        obtain ⟨hf', hsome, hnone⟩ := ih (i := i + 1) (by omega) (hsame.data.trans hdata)
          (hsame.readsAll hall) hrun
        rw [if_neg hbss]
        refine ⟨hf', ?_, ?_⟩
        · intro o ho
          obtain ⟨j, hlo, hhi, hj, hfirst, hholds⟩ := hsome o ho
          refine ⟨j, by omega, by omega, hj, fun k hk hkj => ?_, hholds⟩
          rcases Nat.eq_or_lt_of_le hk with rfl | hlt
          · exact hbss
          · exact hfirst k hlt hkj
        · intro hn j hlo hhi
          rcases Nat.eq_or_lt_of_le hlo with rfl | hlt
          · exact hbss
          · exact hnone hn j hlt (by omega)

theorem FirstBss.unique {i j : Nat} (hi : FirstBss data i) (hj : FirstBss data j) : i = j := by
  rcases Nat.lt_trichotomy i j with hlt | heq | hlt
  · exact absurd hi.2.1 (hj.2.2 i hlt)
  · exact heq
  · exact absurd hj.2.1 (hi.2.2 j hlt)

theorem firstBss_or_none (data : List UInt8) :
    (∃ i, FirstBss data i) ∨ ∀ i < eShnum (contents data), ¬ NamedBss data i := by
  by_cases hex : ∃ i, i < eShnum (contents data) ∧ NamedBss data i
  · obtain ⟨hlt, hname⟩ := Nat.find_spec hex
    refine Or.inl ⟨Nat.find hex, hlt, hname, fun j hj hnamed => ?_⟩
    exact Nat.find_min hex hj ⟨Nat.lt_trans hj hlt, hnamed⟩
  · exact Or.inr (fun i hi hname => hex ⟨i, hi, hname⟩)

/-! ## The range of `.bss` -/

/-- `sh_addr` and `sh_size` of section `i`. -/
def sectionRange (data : List UInt8) (i : Nat) : Nat × Nat :=
  (shAddr (contents data) (shdrOffset data i), shSize (contents data) (shdrOffset data i))

/-- The range of the first section with the property `p`, zeros if there is none. -/
def firstRange (data : List UInt8) (p : Nat → Prop) [DecidablePred p] : Nat × Nat :=
  ((List.range (eShnum (contents data))).find? fun i => p i).elim (0, 0) (sectionRange data)

theorem firstRange_some {p : Nat → Prop} [DecidablePred p] {i : Nat} (hi : i < eShnum (contents data))
    (hp : p i) (hfirst : ∀ j < i, ¬ p j) : firstRange data p = sectionRange data i := by
  have hfind : (List.range (eShnum (contents data))).find? (fun i => p i) = some i := by
    rw [List.find?_range_eq_some]
    refine ⟨decide_eq_true hp, List.mem_range.mpr hi, fun j hj => ?_⟩
    rw [decide_eq_false (hfirst j hj)]
    rfl
  rw [firstRange, hfind]
  rfl

theorem firstRange_none {p : Nat → Prop} [DecidablePred p] (hnone : ∀ i < eShnum (contents data), ¬ p i) :
    firstRange data p = (0, 0) := by
  have hfind : (List.range (eShnum (contents data))).find? (fun i => p i) = none := by
    rw [List.find?_range_eq_none]
    intro i hi
    rw [decide_eq_false (hnone i hi)]
    rfl
  rw [firstRange, hfind]
  rfl

theorem firstRange_lt (data : List UInt8) (p : Nat → Prop) [DecidablePred p] :
    (firstRange data p).1 < 2 ^ 64 ∧ (firstRange data p).2 < 2 ^ 64 := by
  unfold firstRange
  cases (List.range (eShnum (contents data))).find? fun i => p i with
  | none => exact ⟨Nat.two_pow_pos 64, Nat.two_pow_pos 64⟩
  | some i => exact ⟨load_lt .., load_lt ..⟩

theorem load_setHeader (hdr : Mem) (start size : Nat) :
    load (setHeader hdr start size) 0 8 = start % 2 ^ 64
      ∧ load (setHeader hdr start size) 8 8 = size % 2 ^ 64 := by
  have hpow : 256 ^ 8 = 2 ^ 64 := by decide
  unfold setHeader
  constructor
  · rw [load_store_disjoint (show 0 + 8 ≤ 8 ∨ 8 + 8 ≤ 0 by decide), load_store_self, hpow]
  · rw [load_store_self, hpow]

theorem setHeader_inj {hdr : Mem} {r r' : Nat × Nat} (hr : r.1 < 2 ^ 64 ∧ r.2 < 2 ^ 64)
    (hr' : r'.1 < 2 ^ 64 ∧ r'.2 < 2 ^ 64) (h : setHeader hdr r.1 r.2 = setHeader hdr r'.1 r'.2) : r = r' := by
  obtain ⟨hstart, hsize⟩ := load_setHeader hdr r.1 r.2
  obtain ⟨hstart', hsize'⟩ := load_setHeader hdr r'.1 r'.2
  rw [← h] at hstart' hsize'
  rw [Nat.mod_eq_of_lt hr.1] at hstart
  rw [Nat.mod_eq_of_lt hr'.1] at hstart'
  rw [Nat.mod_eq_of_lt hr.2] at hsize
  rw [Nat.mod_eq_of_lt hr'.2] at hsize'
  exact Prod.ext (hstart.symm.trans hstart') (hsize.symm.trans hsize')

/-- **`getbss`** takes address and size of the first section whose name starts with `.bss`. -/
theorem getbss_of_ok (h : SectionTable data) (hnames : eShstrndx (contents data) ≠ shnUndef) {l : Locals}
    {hdr hdr' : Mem} (he : HoldsEhdr data e) (hdata : f.data = data) (hall : f.ReadsAll)
    (hrun : getbss l f e hdr = .ok (f', hdr')) :
    f' = (f.after (shdrOffset data (eShstrndx (contents data))) sizeofShdr).searched
        (eShnum (contents data)) 0
      ∧ hdr' = setHeader hdr (firstRange data (NamedBss data)).1 (firstRange data (NamedBss data)).2 := by
  unfold getbss at hrun
  obtain ⟨_, -, hrun⟩ := of_bind_ok hrun
  obtain ⟨⟨f₁, strtable⟩, hstr, hrun⟩ := of_bind_ok hrun
  obtain ⟨⟨f₂, found⟩, hfind, hrun⟩ := of_bind_ok hrun
  have hle := h.strtab hnames
  have hoff : (eShoff e + eShentsize e * eShstrndx e) % 2 ^ 64
      = shdrOffset data (eShstrndx (contents data)) := by
    have hlt : shdrOffset data (eShstrndx (contents data)) < 2 ^ 64 :=
      Nat.lt_of_le_of_lt (Nat.le_of_add_right_le hle) (hdata ▸ f.size_lt)
    rw [he.eShoff, he.eShentsize h, he.eShstrndx]
    exact Nat.mod_eq_of_lt hlt
  have hstart : eShoff e = shdrOffset data 0 := he.eShoff.trans (Nat.add_zero _).symm
  unfold elfstrtable at hstr
  rw [if_neg (by rw [he.eShstrndx]; exact hnames), hoff] at hstr
  obtain ⟨rfl, hstrtable⟩ := elfread_of_ok hall (by decide) hstr
  have hholds : HoldsStrtab data strtable := by
    rw [hstrtable, hdata]
    exact holds_slice hle
  have hsame := f.same_after (shdrOffset data (eShstrndx (contents data))) sizeofShdr
  rw [he.eShnum, hstart] at hfind
  obtain ⟨hsearched, hsome, hnone⟩ := findBss_of_ok h hnames he hholds (Nat.zero_add _)
    (hsame.data.trans hdata) (hsame.readsAll hall) hfind
  cases found with
  | none =>
      cases hrun
      rw [firstRange_none (fun i hi => hnone rfl i (Nat.zero_le i) (by omega))]
      exact ⟨hsearched, rfl⟩
  | some shdr =>
      cases hrun
      obtain ⟨i, -, hi, hname, hfirst, hshdr⟩ := hsome shdr rfl
      rw [firstRange_some (by omega) hname (fun j hj => hfirst j (Nat.zero_le j) hj), hshdr.shAddr,
        hshdr.shSize]
      exact ⟨hsearched, rfl⟩

/-- With a firmware that reports no error, the search and `getbss` return. -/
theorem findBss_returns (e strtable : Mem) (hok : f.Succeeds) (soff : Nat)
    (shdr name : Mem) :
    ∃ f' found, findBss e strtable n soff f shdr name = .ok (f', found) ∧ f.Same f' := by
  induction n generalizing f soff shdr name with
  | zero => exact ⟨f, none, rfl, .refl f⟩
  | succ n ih =>
      obtain ⟨f₁, shdr₁, hhead, hsame₁⟩ := elfread_returns hok soff 0 (eShentsize e) shdr
      obtain ⟨f₂, name₂, hname, hsame₂⟩ := elfread_returns (hsame₁.succeeds hok)
        ((shOffset strtable 0 + shName shdr₁ 0) % 2 ^ 64) 0 32 name
      have hsame := hsame₁.trans hsame₂
      unfold findBss
      rw [hhead, ok_bind]
      show ∃ f' found, (sectionname f₁ strtable (shName shdr₁ 0) name >>= _) = _ ∧ _
      rw [sectionname, hname, ok_bind]
      dsimp only
      split_ifs
      · exact ⟨f₂, some shdr₁, rfl, hsame⟩
      · obtain ⟨f₃, found, hrest, hsame₃⟩ := ih (hsame.succeeds hok) ((soff + eShentsize e) % 2 ^ 64) shdr₁
          name₂
        exact ⟨f₃, found, hrest, hsame.trans hsame₃⟩

theorem getbss_returns (hok : f.Succeeds)
    (hsize : eShentsize e = sizeofShdr) (l : Locals) (hdr : Mem) :
    ∃ f' hdr', getbss l f e hdr = .ok (f', hdr') ∧ f.Same f' := by
  have hassert : assert (if sizeofShdr ≠ eShentsize e then 1 else 0) "oi" = .ok () := by
    rw [hsize]
    rfl
  have hstrtable : ∃ f₁ strtable, elfstrtable f e l.strtable = .ok (f₁, strtable) ∧ f.Same f₁ := by
    unfold elfstrtable
    split_ifs
    · exact ⟨f, l.strtable, rfl, .refl f⟩
    · exact elfread_returns hok ..
  obtain ⟨f₁, strtable, hstr, hsame₁⟩ := hstrtable
  obtain ⟨f₂, found, hfind, hsame₂⟩ := findBss_returns (n := eShnum e) e strtable
    (hsame₁.succeeds hok) (eShoff e) l.shdr l.name
  unfold getbss
  rw [hassert, ok_bind, hstr, ok_bind]
  dsimp only
  rw [hfind, ok_bind]
  cases found with
  | none => exact ⟨f₂, _, rfl, hsame₁.trans hsame₂⟩
  | some shdr => exact ⟨f₂, _, rfl, hsame₁.trans hsame₂⟩

/-! ## Without a name table -/

/-- Every section visited costs reads. -/
theorem findBss_calls (hall : f.ReadsAll) {strtable shdr name : Mem} {found : Option Mem} {soff : Nat}
    (hrun : findBss e strtable n soff f shdr name = .ok (f', found)) : f' = f ∨ f.calls < f'.calls := by
  induction n generalizing f soff shdr name with
  | zero =>
      cases hrun
      exact Or.inl rfl
  | succ n ih =>
      have hsize : eShentsize e < 2 ^ 64 := Nat.lt_trans (load_lt ..) (by decide)
      unfold findBss at hrun
      obtain ⟨⟨f₁, shdr₁⟩, hhead, hrun⟩ := of_bind_ok hrun
      obtain ⟨⟨f₂, name₂⟩, hname, hrun⟩ := of_bind_ok hrun
      obtain ⟨hf₁, -⟩ := elfread_of_ok hall hsize hhead
      have hsame₁ : f.Same f₁ := hf₁ ▸ f.same_after _ _
      obtain ⟨hf₂, -⟩ := elfread_of_ok (hsame₁.readsAll hall) (by decide) hname
      have hsame₂ : f₁.Same f₂ := hf₂ ▸ f₁.same_after _ _
      have hcalls₁ : f₁.calls = f.calls + 1 := congrArg File.calls hf₁
      have hcalls₂ : f₂.calls = f₁.calls + 1 := congrArg File.calls hf₂
      right
      dsimp only at hrun
      split_ifs at hrun
      · cases hrun
        omega
      · rcases ih ((hsame₁.trans hsame₂).readsAll hall) hrun with rfl | hmore <;> omega

/-- **The first section visited**: the search goes on from there, or ends there, as it does for a buffer
    with the right name. -/
theorem findBss_first (h : SectionTable data) (he : HoldsEhdr data e) (hpos : 0 < eShnum (contents data))
    (hdata : f.data = data) (hall : f.ReadsAll) {strtable shdr name : Mem} {found : Option Mem}
    (hrun : findBss e strtable (n + 1) (shdrOffset data 0) f shdr name = .ok (f', found)) {g : File}
    (hg : g = (f.after (shdrOffset data 0) sizeofShdr).after (nameAt data strtable 0) 32) :
    (f' = g ∨ g.calls < f'.calls)
      ∧ (compare dotBss (writeBytes name 0 (slice data (nameAt data strtable 0) 32)) 4 = true → f' = g) := by
  unfold findBss at hrun
  obtain ⟨⟨f₁, shdr₁⟩, hhead, hrun⟩ := of_bind_ok hrun
  obtain ⟨⟨f₂, name₂⟩, hname, hrun⟩ := of_bind_ok hrun
  obtain ⟨hafter, -, rfl⟩ := section_of_ok h hpos he hdata hall hhead hname
  obtain rfl : f₂ = g := hafter.trans hg.symm
  have hsame : f.Same f₂ := by
    rw [hafter]
    exact (f.same_after _ _).trans (File.same_after _ _ _)
  dsimp only at hrun
  split_ifs at hrun with hcompare
  · cases hrun
    exact ⟨Or.inl rfl, fun _ => rfl⟩
  · exact ⟨findBss_calls (hsame.readsAll hall) hrun, fun hc => absurd hc hcompare⟩

/-- A `strtable` that has the name of the first section read at `target`. -/
def strtableTo (data : List UInt8) (target : Nat) : Mem :=
  store (fun _ => 0) 24 8 (target + (2 ^ 64 - shName (contents data) (shdrOffset data 0)))

theorem nameAt_strtableTo (data : List UInt8) {target : Nat} (h : target < 2 ^ 64) :
    nameAt data (strtableTo data target) 0 = target := by
  have hname : shName (contents data) (shdrOffset data 0) < 2 ^ 32 := load_lt ..
  have hload : shOffset (strtableTo data target) 0
      = (target + (2 ^ 64 - shName (contents data) (shdrOffset data 0))) % 2 ^ 64 :=
    load_store_self ..
  rw [nameAt, hload]
  omega

/-- Stack memory with `.bss` in `name` and a `strtable` as above. -/
def localsTo (data : List UInt8) (target : Nat) : Locals :=
  ⟨fun _ => 0, fun _ => 0, fun _ => 0, strtableTo data target, dotBss⟩

theorem getbss_find {l : Locals} {hdr hdr' : Mem} (hundef : eShstrndx e = shnUndef)
    (hrun : getbss l f e hdr = .ok (f', hdr')) :
    ∃ found, findBss e l.strtable (eShnum e) (eShoff e) f l.shdr l.name = .ok (f', found) := by
  unfold getbss elfstrtable at hrun
  rw [if_pos hundef] at hrun
  obtain ⟨_, -, hrun⟩ := of_bind_ok hrun
  obtain ⟨⟨f₁, strtable⟩, hstr, hrun⟩ := of_bind_ok hrun
  obtain ⟨⟨f₂, found⟩, hfind, hrun⟩ := of_bind_ok hrun
  cases hstr
  cases found <;> cases hrun <;> exact ⟨_, hfind⟩

/-- **Without a name table the file does not decide what `getbss` does**: it reads the first name from where
    `strtable` happens to point. -/
theorem getbss_undefined (h : SectionTable data) (he : HoldsEhdr data e)
    (hundef : eShstrndx (contents data) = shnUndef) (hpos : 0 < eShnum (contents data)) (hdata : f.data = data)
    (hall : f.ReadsAll) {hdr hdr₁ hdr₂ : Mem} {f₁ f₂ : File}
    (hrun₁ : getbss (localsTo data data.length) f e hdr = .ok (f₁, hdr₁))
    (hrun₂ : getbss (localsTo data 0) f e hdr = .ok (f₂, hdr₂)) : f₁ ≠ f₂ := by
  have hlt : data.length < 2 ^ 64 := hdata ▸ f.size_lt
  have hheader := h.header
  obtain ⟨n, hn⟩ := Nat.exists_eq_succ_of_ne_zero (Nat.ne_of_gt hpos)
  have hstart : eShoff e = shdrOffset data 0 := he.eShoff.trans (Nat.add_zero _).symm
  obtain ⟨found₁, hfind₁⟩ := getbss_find (he.eShstrndx.trans hundef) hrun₁
  obtain ⟨found₂, hfind₂⟩ := getbss_find (he.eShstrndx.trans hundef) hrun₂
  rw [he.eShnum, hn, hstart] at hfind₁ hfind₂
  obtain ⟨-, hends⟩ := findBss_first h he hpos hdata hall hfind₁ rfl
  obtain ⟨hon, -⟩ := findBss_first h he hpos hdata hall hfind₂ rfl
  have hat₁ : nameAt data (localsTo data data.length).strtable 0 = data.length :=
    nameAt_strtableTo data hlt
  have hat₂ : nameAt data (localsTo data 0).strtable 0 = 0 := nameAt_strtableTo data (by decide)
  -- at the end of the file the buffer keeps its `.bss`, and the search is over
  have hempty : slice data data.length 32 = [] := by
    rw [slice, List.drop_length, List.take_nil]
  rw [hat₁, hempty] at hends
  have hkept : compare dotBss dotBss 4 = true := by decide
  have hf₁ := hends hkept
  rw [hat₂] at hon
  obtain ⟨g, hg⟩ : ∃ g, g = f.after (shdrOffset data 0) sizeofShdr := ⟨_, rfl⟩
  have hgdata : g.data = data := by
    rw [hg, (f.same_after _ _).data, hdata]
  rw [← hg] at hf₁ hon
  rw [hf₁]
  intro heq
  rw [← heq] at hon
  rcases hon with hsame | hmore
  · have hposition := congrArg File.position hsame
    rw [← hgdata, g.after_end, g.after_start, hgdata] at hposition
    unfold sizeofEhdr at hheader
    omega
  · exact absurd hmore (Nat.lt_irrefl (g.calls + 1))

/-! ## Main result -/

/-- The name of section `i` is `.bss`. -/
def NamedDotBss (data : List UInt8) (i : Nat) : Prop :=
  ∀ k < 5, contents data (nameOffset data i + k) = dotBss k

instance (data : List UInt8) (i : Nat) : Decidable (NamedDotBss data i) :=
  inferInstanceAs (Decidable (∀ k < 5, contents data (nameOffset data i + k) = dotBss k))

/-- The range of `.bss` as the file has it: that of the first section with this name, and zeros if there is
    none or no section has a name. -/
def bssRange (data : List UInt8) : Nat × Nat :=
  if eShstrndx (contents data) = shnUndef then (0, 0) else firstRange data (NamedDotBss data)

/-- **`getbss` finds `.bss` by its name**, in a file just as it is: whatever is on the stack, it makes the
    same reads and sets the header to the range of `.bss`. -/
def FindsBss (f : File) (e : Mem) : Prop :=
  ∃ f', ∀ l hdr, getbss l f e hdr = .ok (f', setHeader hdr (bssRange f.data).1 (bssRange f.data).2)

theorem NamedDotBss.namedBss {i : Nat} (h : NamedDotBss data i) : NamedBss data i :=
  fun k hk => h k (Nat.lt_succ_of_lt hk)

/-- A first section named exactly `.bss` is the one of `bssRange`. -/
theorem FirstBss.range {i : Nat} (h : FirstBss data i) (hname : NamedDotBss data i) :
    sectionRange data i = firstRange data (NamedDotBss data) :=
  (firstRange_some h.1 hname (fun j hj hnamed => h.2.2 j hj hnamed.namedBss)).symm

/-- In a file with a name table, `getbss` depends on the file alone. -/
theorem getbss_eq (h : SectionTable f.data) (hnames : eShstrndx (contents f.data) ≠ shnUndef)
    (he : HoldsEhdr f.data e) (hall : f.ReadsAll) (hok : f.Succeeds) (l : Locals) (hdr : Mem) :
    getbss l f e hdr = .ok
      ((f.after (shdrOffset f.data (eShstrndx (contents f.data))) sizeofShdr).searched
          (eShnum (contents f.data)) 0,
        setHeader hdr (firstRange f.data (NamedBss f.data)).1 (firstRange f.data (NamedBss f.data)).2) := by
  obtain ⟨f', hdr', hrun, -⟩ := getbss_returns hok (he.eShentsize h) l hdr
  obtain ⟨hf', hhdr'⟩ := getbss_of_ok h hnames he rfl hall hrun
  rw [hrun, hf', hhdr']

/-- Without sections and without a name table nothing is read. -/
theorem getbss_no_sections (h : SectionTable f.data) (hundef : eShstrndx (contents f.data) = shnUndef)
    (hnone : eShnum (contents f.data) = 0) (he : HoldsEhdr f.data e) (l : Locals) (hdr : Mem) :
    getbss l f e hdr = .ok (f, setHeader hdr 0 0) := by
  unfold getbss elfstrtable
  rw [he.eShentsize h, he.eShstrndx, he.eShnum, if_pos hundef, hnone]
  rfl

/-- **When `getbss` finds `.bss` by its name**: the file has a section name table, and the first section
    whose name starts with `.bss` is named so, or has the same range as the one that is; or there are no
    sections at all. -/
theorem finds_bss_iff (f : File) (e : Mem) (h : SectionTable f.data) (he : HoldsEhdr f.data e)
    (hall : f.ReadsAll) (hok : f.Succeeds) :
    FindsBss f e ↔ eShnum (contents f.data) = 0 ∨ (eShstrndx (contents f.data) ≠ shnUndef
      ∧ ∀ i, FirstBss f.data i →
        NamedDotBss f.data i ∨ sectionRange f.data i = firstRange f.data (NamedDotBss f.data)) := by
  constructor
  · rintro ⟨f', hfinds⟩
    by_cases hnone : eShnum (contents f.data) = 0
    · exact Or.inl hnone
    have hnames : eShstrndx (contents f.data) ≠ shnUndef := by
      intro hundef
      exact getbss_undefined h he hundef (Nat.pos_of_ne_zero hnone) rfl hall (hfinds _ fun _ => 0)
        (hfinds _ fun _ => 0) rfl
    refine Or.inr ⟨hnames, fun i hfirst => Or.inr ?_⟩
    obtain ⟨-, hhdr⟩ := getbss_of_ok h hnames he rfl hall (hfinds zeroLocals fun _ => 0)
    unfold bssRange at hhdr
    rw [if_neg hnames] at hhdr
    have hrange := setHeader_inj (firstRange_lt _ _) (firstRange_lt _ _) hhdr
    rw [hrange, firstRange_some hfirst.1 hfirst.2.1 hfirst.2.2]
  · intro hcond
    by_cases hundef : eShstrndx (contents f.data) = shnUndef
    · have hnone : eShnum (contents f.data) = 0 := hcond.resolve_right (fun hc => hc.1 hundef)
      refine ⟨f, fun l hdr => ?_⟩
      rw [getbss_no_sections h hundef hnone he, bssRange, if_pos hundef]
    · have hrange : firstRange f.data (NamedBss f.data) = bssRange f.data := by
        rw [bssRange, if_neg hundef]
        rcases firstBss_or_none f.data with ⟨i, hi⟩ | hnone
        · rw [firstRange_some hi.1 hi.2.1 hi.2.2]
          rcases hcond with hzero | ⟨-, hfirst⟩
          · exact absurd hi.1 (hzero ▸ Nat.not_lt_zero i)
          · exact (hfirst i hi).elim hi.range id
        · rw [firstRange_none hnone, firstRange_none (fun i hi hname => hnone i hi hname.namedBss)]
      exact ⟨_, fun l hdr => hrange ▸ getbss_eq h hundef he hall hok l hdr⟩

/-! ## Two concrete files -/

/-- An executable with three sections: none, one with the given name, and the names. -/
def namedSection (name : List UInt8) : List UInt8 :=
  [[0x7f, 0x45, 0x4c, 0x46, 2, 1, 1], leBytes 9 0, leBytes 2 2, leBytes 2 0x3e, leBytes 4 1,
    leBytes 8 0x100000000, leBytes 8 0, leBytes 8 64, leBytes 4 0, leBytes 2 64,
    leBytes 2 56, leBytes 2 0, leBytes 2 64, leBytes 2 3, leBytes 2 2,
    -- the section headers
    leBytes 64 0,
    leBytes 4 1, leBytes 4 8, leBytes 8 3, leBytes 8 0x100001000, leBytes 8 256, leBytes 8 16, leBytes 24 0,
    leBytes 4 0, leBytes 4 3, leBytes 8 0, leBytes 8 0, leBytes 8 256, leBytes 8 8, leBytes 24 0,
    -- the section names
    [0], name, [0]].flatten

/-- A file just opened, with no byte held back by any read. -/
def promptFile (data : List UInt8) (h : data.length < 2 ^ 64) : File :=
  { data, position := 0, calls := 0, answer := fun _ n => (0, n), size_lt := h }

theorem holdsEhdr_contents (data : List UInt8) : HoldsEhdr data (contents data) :=
  fun i _ => congrArg (contents data) (Nat.zero_add i).symm

theorem namedSection_table {name : List UInt8}
    (h : name = [0x2e, 0x62, 0x73, 0x73] ∨ name = [0x2e, 0x62, 0x73, 0x73, 0x2e, 0x78]) :
    SectionTable (namedSection name) := by
  have hshnum : eShnum (contents (namedSection name)) = 3 := by
    rcases h with rfl | rfl <;> decide +kernel
  have hcases : ∀ i < eShnum (contents (namedSection name)), i = 0 ∨ i = 1 ∨ i = 2 := by
    intro i hi
    omega
  exact {
    ident := by rcases h with rfl | rfl <;> decide +kernel
    elfclass64 := by rcases h with rfl | rfl <;> decide +kernel
    elfdata2lsb := by rcases h with rfl | rfl <;> decide +kernel
    header := by rcases h with rfl | rfl <;> decide +kernel
    shentsize := by rcases h with rfl | rfl <;> decide +kernel
    shdrs := fun i hi => by
      rcases h with rfl | rfl <;> rcases hcases i hi with rfl | rfl | rfl <;> decide +kernel
    strtab := fun _ => by rcases h with rfl | rfl <;> decide +kernel
    names := fun _ i hi => by
      rcases hcases i hi with rfl | rfl | rfl
      · exact ⟨0, by rcases h with rfl | rfl <;> decide +kernel⟩
      · exact ⟨name.length, by rcases h with rfl | rfl <;> decide +kernel⟩
      · exact ⟨0, by rcases h with rfl | rfl <;> decide +kernel⟩ }

/-- The file whose section is `.bss`. -/
def bssFile : File := promptFile (namedSection [0x2e, 0x62, 0x73, 0x73]) (by decide +kernel)

/-- The file whose section is `.bss.x`. -/
def bssXFile : File := promptFile (namedSection [0x2e, 0x62, 0x73, 0x73, 0x2e, 0x78]) (by decide +kernel)

/-- A section `.bss` with its bytes is found. -/
theorem finds_bss_named : FindsBss bssFile (contents bssFile.data) := by
  refine (finds_bss_iff bssFile (contents bssFile.data) (namedSection_table (Or.inl rfl))
    (holdsEhdr_contents _) (fun _ _ => rfl) (fun _ _ => rfl)).mpr (Or.inr ⟨by decide +kernel, ?_⟩)
  rintro i ⟨hi, hname, -⟩
  have hshnum : eShnum (contents bssFile.data) = 3 := by decide +kernel
  have hall : ∀ i < 3, NamedBss bssFile.data i → NamedDotBss bssFile.data i := by decide +kernel
  exact Or.inl (hall i (by omega) hname)

/-- `.bss.x` is taken for `.bss`. -/
theorem bss_x_found : ¬ ∀ (f : File) (e : Mem), SectionTable f.data → HoldsEhdr f.data e → f.ReadsAll →
    f.Succeeds → FindsBss f e := by
  intro hall
  have htable : SectionTable bssXFile.data := namedSection_table (Or.inr rfl)
  obtain ⟨f', hfinds⟩ := hall bssXFile (contents bssXFile.data) htable (holdsEhdr_contents _)
    (fun _ _ => rfl) (fun _ _ => rfl)
  obtain ⟨-, hhdr⟩ := getbss_of_ok htable (by decide +kernel) (holdsEhdr_contents _) rfl (fun _ _ => rfl)
    (hfinds zeroLocals fun _ => 0)
  have hrange := setHeader_inj (firstRange_lt _ _) (by decide +kernel) hhdr.symm
  exact absurd hrange (by decide +kernel)

end Boot
end SysproKernel

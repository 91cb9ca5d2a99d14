import SysproKernel.Boot.Sections

/-!
# `Boot.Segments` — an ELF kernel in memory

What `loadelf` makes of a well-formed ELF kernel whose `Read`s give all there is. Two tables meet here:
the segments the file has, `e_phentsize` apart, each with an address of its own; and the headers the loop
visits, `sizeof(struct phdr)` apart, whose bytes all go to the start of kernel memory, one over the other
(`walked`). The zeros behind a segment come from elsewhere, from the first section whose name starts with
`.bss`.

A byte of kernel memory is therefore right exactly when the last visited segment that is long enough to
reach it happens to hold it, or when the `.bss` section clears it and it is to be zero (`Placed`).
-/

namespace SysproKernel
namespace Boot

open Lib.ByteMem Lib.Loop

variable {data : List UInt8} {f f' : File} {m m' o : Mem} {off n a : Nat}

/-! ## What the file says -/

/-- Program header `i` of the file. -/
def phdrOffset (data : List UInt8) (i : Nat) : Nat :=
  ePhoff (contents data) + ePhentsize (contents data) * i

/-- Segment `i` is loadable. -/
def Loadable (data : List UInt8) (i : Nat) : Prop :=
  i < ePhnum (contents data) ∧ pType (contents data) (phdrOffset data i) = ptLoad

/-- Byte `k` of segment `i`, from the file or zero. -/
def segmentByte (data : List UInt8) (i k : Nat) : UInt8 :=
  if k < pFilesz (contents data) (phdrOffset data i) then
    contents data (pOffset (contents data) (phdrOffset data i) + k)
  else 0

/-- Memory holds every loadable segment at its own address. -/
def SegmentsLoaded (data : List UInt8) (m : Mem) : Prop :=
  ∀ i, Loadable data i → ∀ k < pMemsz (contents data) (phdrOffset data i),
    m (pPaddr (contents data) (phdrOffset data i) + k) = segmentByte data i k

/-- **A well-formed ELF kernel**: a little-endian ELF64 executable whose headers, names and segments lie in
    the file, with a section `.bss` and with disjoint segments in kernel memory. -/
structure ElfKernel (data : List UInt8) : Prop where
  ident : iself (contents data) = true
  elfclass64 : contents data 4 = 2
  elfdata2lsb : contents data 5 = 1
  header : sizeofEhdr ≤ data.length
  phentsize : sizeofPhdr ≤ ePhentsize (contents data)
  phdrs : phdrOffset data (ePhnum (contents data)) ≤ data.length
  shentsize : eShentsize (contents data) = sizeofShdr
  shdrs : shdrOffset data (eShnum (contents data)) ≤ data.length
  shstrndx : eShstrndx (contents data) ≠ shnUndef ∧ eShstrndx (contents data) < eShnum (contents data)
  names : ∀ i < eShnum (contents data), ∃ k, nameOffset data i + k < data.length
    ∧ contents data (nameOffset data i + k) = 0
  bss : ∃ i < eShnum (contents data), ∀ k < 5, contents data (nameOffset data i + k) = dotBss k
  inFile : ∀ i, Loadable data i →
    pOffset (contents data) (phdrOffset data i) + pFilesz (contents data) (phdrOffset data i)
      ≤ data.length
  filesz : ∀ i, Loadable data i →
    pFilesz (contents data) (phdrOffset data i) ≤ pMemsz (contents data) (phdrOffset data i)
  paddr : ∀ i, Loadable data i →
    pPaddr (contents data) (phdrOffset data i) = pVaddr (contents data) (phdrOffset data i)
  inKernel : ∀ i, Loadable data i → kernelStart ≤ pPaddr (contents data) (phdrOffset data i)
    ∧ pPaddr (contents data) (phdrOffset data i) + pMemsz (contents data) (phdrOffset data i)
      ≤ kernelStart + 0x1000000
  disjoint : ∀ i j, Loadable data i → Loadable data j → i ≠ j →
    pPaddr (contents data) (phdrOffset data i) + pMemsz (contents data) (phdrOffset data i)
      ≤ pPaddr (contents data) (phdrOffset data j)
    ∨ pPaddr (contents data) (phdrOffset data j) + pMemsz (contents data) (phdrOffset data j)
      ≤ pPaddr (contents data) (phdrOffset data i)

/-! ## What the loader does with it -/

/-- The header the loop of `loadelf` visits in iteration `i`. -/
def walkOffset (data : List UInt8) (i : Nat) : Nat := ePhoff (contents data) + sizeofPhdr * i

/-- Main memory after `n` iterations. -/
def walked (data : List UInt8) (m : Mem) : Nat → Mem
  | 0     => m
  | n + 1 =>
      if pType (contents data) (walkOffset data n) = ptLoad then
        writeBytes (walked data m n) kernelStart
          (slice data (pOffset (contents data) (walkOffset data n))
            (pFilesz (contents data) (walkOffset data n)))
      else walked data m n

/-- The address is cleared as `.bss`. -/
def InBss (data : List UInt8) (a : Nat) : Prop :=
  ∃ i, FirstBss data i ∧ shAddr (contents data) (shdrOffset data i) ≠ 0
    ∧ shAddr (contents data) (shdrOffset data i) ≤ a
    ∧ a < shAddr (contents data) (shdrOffset data i) + shSize (contents data) (shdrOffset data i)

/-- Iteration `i` writes to address `a`: the segment it visits is longer than `a`'s distance from the
    start of kernel memory. -/
def Reaches (data : List UInt8) (i a : Nat) : Prop :=
  pType (contents data) (walkOffset data i) = ptLoad ∧ kernelStart ≤ a
    ∧ a - kernelStart < pFilesz (contents data) (walkOffset data i)
    ∧ pOffset (contents data) (walkOffset data i) + (a - kernelStart) < data.length

/-- Iteration `i` of `n` is the last one that writes to address `a`. -/
def LastReaching (data : List UInt8) (n i a : Nat) : Prop :=
  i < n ∧ Reaches data i a ∧ ∀ j, i < j → j < n → ¬ Reaches data j a

/-- **The byte `w` for address `a` is already where the loader takes it from**: it is zero and `a` is in
    the `.bss` section; or it lies as far into the last visited segment that reaches `a` as `a` into kernel
    memory; or no segment reaches `a`, and `w` was in memory before. -/
def Placed (data : List UInt8) (m : Mem) (a : Nat) (w : UInt8) : Prop :=
  (InBss data a ∧ w = 0)
    ∨ (¬ InBss data a ∧ ∃ i, LastReaching data (ePhnum (contents data)) i a
      ∧ contents data (pOffset (contents data) (walkOffset data i) + (a - kernelStart)) = w)
    ∨ (¬ InBss data a ∧ (∀ i < ePhnum (contents data), ¬ Reaches data i a) ∧ m a = w)

theorem Holds.pType (h : Holds data off sizeofPhdr o) : pType o 0 = pType (contents data) off :=
  h.field 0 (by decide)

theorem Holds.pOffset (h : Holds data off sizeofPhdr o) : pOffset o 0 = pOffset (contents data) off :=
  h.field 8 (by decide)

theorem Holds.pFilesz (h : Holds data off sizeofPhdr o) : pFilesz o 0 = pFilesz (contents data) off :=
  h.field 32 (by decide)

/-! ## The headers of a kernel -/

theorem ElfKernel.sectionTable (h : ElfKernel data) : SectionTable data := by
  have hshdrs : ∀ i < eShnum (contents data), shdrOffset data i + sizeofShdr ≤ data.length := by
    intro i hi
    have hall := h.shdrs
    unfold shdrOffset sizeofShdr at *
    omega
  exact {
    ident := h.ident
    elfclass64 := h.elfclass64
    elfdata2lsb := h.elfdata2lsb
    header := h.header
    shentsize := h.shentsize
    shdrs := hshdrs
    strtab := fun _ => hshdrs _ h.shstrndx.2
    names := fun _ => h.names }

/-- A section `.bss` makes one section the first whose name starts so. -/
theorem ElfKernel.firstBss (h : ElfKernel data) : ∃ i, FirstBss data i := by
  obtain ⟨i, hi, hname⟩ := h.bss
  refine (firstBss_or_none data).resolve_right (fun hnone => hnone i hi ?_)
  exact NamedDotBss.namedBss hname

/-- The header `getbss` leaves for a kernel. -/
theorem bss_of_ok (h : ElfKernel data) {l : Locals} {e hdr hdr' : Mem} (he : HoldsEhdr data e)
    (hdata : f.data = data) (hall : f.ReadsAll) (hrun : getbss l f e hdr = .ok (f', hdr')) :
    f.Same f' ∧ ∃ i, FirstBss data i
      ∧ load hdr' 0 8 = shAddr (contents data) (shdrOffset data i)
      ∧ load hdr' 8 8 = shSize (contents data) (shdrOffset data i) := by
  obtain ⟨rfl, rfl⟩ := getbss_of_ok h.sectionTable h.shstrndx.1 he hdata hall hrun
  obtain ⟨i, hfirst⟩ := h.firstBss
  have hrange := firstRange_some hfirst.1 hfirst.2.1 hfirst.2.2
  refine ⟨(f.same_after _ _).trans (File.same_searched _ _ _), i, hfirst, ?_, ?_⟩
  · rw [(load_setHeader hdr _ _).1, hrange]
    exact Nat.mod_eq_of_lt (load_lt ..)
  · rw [(load_setHeader hdr _ _).2, hrange]
    exact Nat.mod_eq_of_lt (load_lt ..)

/-! ## The program headers -/

/-- The headers visited lie in the file, since those of the file are at least as far apart. -/
theorem walkOffset_le (h : ElfKernel data) {i : Nat} (hi : i < ePhnum (contents data)) :
    walkOffset data i + sizeofPhdr ≤ data.length := by
  have hphdrs := h.phdrs
  have hmul : sizeofPhdr * (i + 1) ≤ ePhentsize (contents data) * ePhnum (contents data) :=
    Nat.mul_le_mul h.phentsize hi
  rw [Nat.mul_succ] at hmul
  unfold phdrOffset at hphdrs
  unfold walkOffset
  omega

/-- **One iteration** of the loop of `loadelf`. -/
theorem loadSegment_of_ok (h : ElfKernel data) {e : Mem} (he : HoldsEhdr data e) {i : Nat}
    (hi : i < ePhnum (contents data)) {s s' : Loading} (hdata : s.file.data = data)
    (hall : s.file.ReadsAll) (hrun : loadSegment e kernelStart i s = .ok s') :
    s.file.Same s'.file ∧ s'.mem =
      if pType (contents data) (walkOffset data i) = ptLoad then
        writeBytes s.mem kernelStart (slice data (pOffset (contents data) (walkOffset data i))
          (pFilesz (contents data) (walkOffset data i)))
      else s.mem := by
  have hlt : data.length < 2 ^ 64 := hdata ▸ s.file.size_lt
  have hle := walkOffset_le h hi
  have hoff : (ePhoff e + sizeofPhdr * i) % 2 ^ 64 = walkOffset data i := by
    rw [he.ePhoff]
    exact Nat.mod_eq_of_lt (by unfold walkOffset at hle; omega)
  unfold loadSegment at hrun
  rw [hoff] at hrun
  obtain ⟨⟨f₁, phdr⟩, hhead, hrun⟩ := of_bind_ok hrun
  obtain ⟨rfl, hphdr⟩ := elfread_of_ok hall (by decide) hhead
  have hsame := s.file.same_after (walkOffset data i) sizeofPhdr
  rw [hdata] at hphdr
  have hholds : Holds data (walkOffset data i) sizeofPhdr phdr := hphdr ▸ holds_slice hle
  dsimp only at hrun
  rw [hholds.pType, hholds.pOffset, hholds.pFilesz] at hrun
  by_cases hload : pType (contents data) (walkOffset data i) = ptLoad
  · rw [if_neg (not_not.mpr hload)] at hrun
    obtain ⟨⟨f₂, mem₂⟩, hbody, hrun⟩ := of_bind_ok hrun
    obtain ⟨rfl, hmem⟩ := elfread_of_ok (hsame.readsAll hall) (load_lt ..) hbody
    cases hrun
    rw [if_pos hload]
    refine ⟨hsame.trans (File.same_after _ _ _), ?_⟩
    rw [hmem, hsame.data, hdata]
  · rw [if_pos hload] at hrun
    cases hrun
    rw [if_neg hload]
    exact ⟨hsame, rfl⟩

/-- The read of the file header, at the start of the file. -/
theorem readEhdr (hopened : f.position = 0) (hall : f.ReadsAll) (hlen : sizeofEhdr ≤ f.data.length)
    {status count : UInt64} {e e' : Mem}
    (hread : f.read (UInt64.ofNat sizeofEhdr) 0 e = (status, count, f', e')) :
    f.Same f' ∧ HoldsEhdr f.data e' := by
  have hcount : (f.answer f.calls (UInt64.ofNat sizeofEhdr)).2.toNat = sizeofEhdr := by
    rw [hall]
    rfl
  have hnext : f.next sizeofEhdr = slice f.data 0 sizeofEhdr := by
    rw [File.next, hopened, slice]
  cases hread
  refine ⟨⟨rfl, rfl⟩, ?_⟩
  rw [hcount, hnext]
  exact holds_slice (by rw [Nat.zero_add]; exact hlen)

/-- **What `loadelf` has done when it returns 0.** -/
theorem loadelf_of_ok (h : ElfKernel f.data) (hopened : f.position = 0) (hall : f.ReadsAll) {l : Locals}
    {hdr hdr' mem mem' : Mem} (hrun : loadelf l f kernelStart hdr mem = .ok (0, f', hdr', mem')) :
    mem' = walked f.data mem (ePhnum (contents f.data)) ∧ ∃ i, FirstBss f.data i
      ∧ load hdr' 0 8 = shAddr (contents f.data) (shdrOffset f.data i)
      ∧ load hdr' 8 8 = shSize (contents f.data) (shdrOffset f.data i) := by
  obtain ⟨⟨status, count, f₀, e⟩, hread⟩ :
      ∃ r, f.read (UInt64.ofNat sizeofEhdr) 0 l.e = r := ⟨_, rfl⟩
  obtain ⟨hsame₀, he⟩ := readEhdr hopened hall h.header hread
  unfold loadelf at hrun
  rw [hread] at hrun
  obtain ⟨_, -, hrun⟩ := of_bind_ok hrun
  rw [if_pos (he.iself.trans h.ident)] at hrun
  obtain ⟨⟨f₁, hdr₁⟩, hbss, hrun⟩ := of_bind_ok hrun
  obtain ⟨s, hloop, hrun⟩ := of_bind_ok hrun
  cases hrun
  obtain ⟨hsame, hfirst⟩ := bss_of_ok h he hsame₀.data (hsame₀.readsAll hall) hbss
  rw [he.ePhnum] at hloop
  have hwalk := forLoop_of_ok (fun i (s : Loading) => f.Same s.file ∧ s.mem = walked f.data mem i)
    ⟨hsame₀.trans hsame, rfl⟩
    (fun i s s' hi hs hstep => by
      obtain ⟨hsame', hmem⟩ := loadSegment_of_ok h he hi hs.1.data (hs.1.readsAll hall) hstep
      refine ⟨hs.1.trans hsame', ?_⟩
      rw [hmem, hs.2, walked]) hloop
  exact ⟨hwalk.2, hfirst⟩

/-! ## Which byte ends up where -/

theorem writeBytes_reached {i : Nat} (h : Reaches data i a) (m : Mem) :
    writeBytes m kernelStart (slice data (pOffset (contents data) (walkOffset data i))
        (pFilesz (contents data) (walkOffset data i))) a
      = contents data (pOffset (contents data) (walkOffset data i) + (a - kernelStart)) := by
  obtain ⟨-, hlo, hfilesz, hlt⟩ := h
  have hbyte := writeBytes_slice (m := m) (a := kernelStart) hfilesz hlt
  rwa [Nat.add_sub_cancel' hlo] at hbyte

theorem writeBytes_unreached {i : Nat} (hload : pType (contents data) (walkOffset data i) = ptLoad)
    (h : ¬ Reaches data i a) (m : Mem) :
    writeBytes m kernelStart (slice data (pOffset (contents data) (walkOffset data i))
        (pFilesz (contents data) (walkOffset data i))) a = m a := by
  refine writeBytes_outside ?_
  by_contra hin
  refine h ⟨hload, by omega, ?_⟩
  rw [slice_length] at hin
  omega

/-- **Later segments overwrite earlier ones.** -/
theorem walked_last {i : Nat} (h : LastReaching data n i a) (m : Mem) :
    walked data m n a
      = contents data (pOffset (contents data) (walkOffset data i) + (a - kernelStart)) := by
  induction n with
  | zero => exact absurd h.1 (Nat.not_lt_zero i)
  | succ n ih =>
      obtain ⟨hi, hreach, hlast⟩ := h
      rw [walked]
      rcases Nat.eq_or_lt_of_le (Nat.le_of_lt_succ hi) with rfl | hlt
      · rw [if_pos hreach.1]
        exact writeBytes_reached hreach _
      · have hrest := ih ⟨hlt, hreach, fun j hij hj => hlast j hij (Nat.lt_succ_of_lt hj)⟩
        split_ifs with hload
        · rw [writeBytes_unreached hload (hlast n hlt (Nat.lt_succ_self n)), hrest]
        · exact hrest

theorem walked_unreached (h : ∀ i < n, ¬ Reaches data i a) (m : Mem) : walked data m n a = m a := by
  induction n with
  | zero => rfl
  | succ n ih =>
      have hrest := ih (fun i hi => h i (Nat.lt_succ_of_lt hi))
      rw [walked]
      split_ifs with hload
      · rw [writeBytes_unreached hload (h n (Nat.lt_succ_self n)), hrest]
      · exact hrest

/-- An address is reached last by one iteration, or by none. -/
theorem lastReaching_or_unreached (data : List UInt8) (n a : Nat) :
    (∃ i, LastReaching data n i a) ∨ ∀ i < n, ¬ Reaches data i a := by
  induction n with
  | zero => exact Or.inr (fun i hi => absurd hi (Nat.not_lt_zero i))
  | succ n ih =>
      by_cases hn : Reaches data n a
      · exact Or.inl ⟨n, Nat.lt_succ_self n, hn, fun j hlo hhi => by omega⟩
      · rcases ih with ⟨i, hi, hreach, hlast⟩ | hnone
        · refine Or.inl ⟨i, Nat.lt_succ_of_lt hi, hreach, fun j hlo hhi => ?_⟩
          rcases Nat.eq_or_lt_of_le (Nat.le_of_lt_succ hhi) with rfl | hlt
          · exact hn
          · exact hlast j hlo hlt
        · refine Or.inr (fun i hi => ?_)
          rcases Nat.eq_or_lt_of_le (Nat.le_of_lt_succ hi) with rfl | hlt
          · exact hn
          · exact hnone i hlt

theorem LastReaching.unique {i j : Nat} (hi : LastReaching data n i a) (hj : LastReaching data n j a) :
    i = j := by
  rcases Nat.lt_trichotomy i j with hlt | heq | hlt
  · exact absurd hj.2.1 (hi.2.2 j hlt hj.1)
  · exact heq
  · exact absurd hi.2.1 (hj.2.2 i hlt hi.1)

/-- **The final byte at an address** is `w` exactly when `w` is `Placed` there. -/
theorem placed_iff {i : Nat} (hfirst : FirstBss data i) (m : Mem) (a : Nat) (w : UInt8) :
    clearBss (shAddr (contents data) (shdrOffset data i)) (shSize (contents data) (shdrOffset data i))
      (walked data m (ePhnum (contents data))) a = w ↔ Placed data m a w := by
  have hin : InBss data a ↔ shAddr (contents data) (shdrOffset data i) ≠ 0
      ∧ shAddr (contents data) (shdrOffset data i) ≤ a
      ∧ a < shAddr (contents data) (shdrOffset data i) + shSize (contents data) (shdrOffset data i) := by
    constructor
    · rintro ⟨j, hj, hrange⟩
      rwa [hfirst.unique hj]
    · intro hrange
      exact ⟨i, hfirst, hrange⟩
  rw [clearBss_apply]
  by_cases hbss : InBss data a
  · rw [if_pos (hin.mp hbss)]
    constructor
    · intro hw
      exact Or.inl ⟨hbss, hw.symm⟩
    · rintro (⟨-, hw⟩ | ⟨hnot, -⟩ | ⟨hnot, -⟩)
      · exact hw.symm
      · exact absurd hbss hnot
      · exact absurd hbss hnot
  · rw [if_neg (fun hrange => hbss (hin.mpr hrange))]
    rcases lastReaching_or_unreached data (ePhnum (contents data)) a with ⟨j, hj⟩ | hnone
    · rw [walked_last hj]
      constructor
      · intro hw
        exact Or.inr (Or.inl ⟨hbss, j, hj, hw⟩)
      · rintro (⟨hyes, -⟩ | ⟨-, k, hk, hw⟩ | ⟨-, hnone, -⟩)
        · exact absurd hyes hbss
        · rwa [hj.unique hk]
        · exact absurd hj.2.1 (hnone j hj.1)
    · rw [walked_unreached hnone]
      constructor
      · intro hw
        exact Or.inr (Or.inr ⟨hbss, hnone, hw⟩)
      · rintro (⟨hyes, -⟩ | ⟨-, k, hk, -⟩ | ⟨-, -, hw⟩)
        · exact absurd hyes hbss
        · exact absurd hk.2.1 (hnone k hk.1)
        · exact hw

/-- **When an ELF kernel is loaded as its program headers say.** For a well-formed kernel that `loadelf`
    has accepted, memory holds every segment at its own address, zeros included, exactly when each byte of
    each segment is `Placed`. -/
theorem segments_loaded_iff (f : File) (h : ElfKernel f.data) (hopened : f.position = 0)
    (hall : f.ReadsAll) (l : Locals) (hdr mem : Mem) {f' : File} {hdr' mem' : Mem}
    (hrun : loadelf l f kernelStart hdr mem = .ok (0, f', hdr', mem')) :
    SegmentsLoaded f.data (clearBss (load hdr' 0 8) (load hdr' 8 8) mem') ↔
      ∀ i, Loadable f.data i → ∀ k < pMemsz (contents f.data) (phdrOffset f.data i),
        Placed f.data mem (pPaddr (contents f.data) (phdrOffset f.data i) + k)
          (segmentByte f.data i k) := by
  obtain ⟨hmem, i, hfirst, hstart, hsize⟩ := loadelf_of_ok h hopened hall hrun
  rw [hmem, hstart, hsize]
  refine forall₂_congr (fun j hj => forall₂_congr (fun k hk => ?_))
  exact placed_iff hfirst mem _ _

/-- **One segment hides the mistake.** A kernel with a single loadable segment, at the start of kernel
    memory and with its zeros in `.bss`, is loaded as its program header says. -/
theorem one_segment_loaded (h : ElfKernel f.data) (hopened : f.position = 0) (hall : f.ReadsAll)
    {l : Locals} {hdr hdr' mem mem' : Mem}
    (hrun : loadelf l f kernelStart hdr mem = .ok (0, f', hdr', mem'))
    (hstride : ePhentsize (contents f.data) = sizeofPhdr) {i : Nat} (honly : ∀ j, Loadable f.data j ↔ j = i)
    (hstart : pPaddr (contents f.data) (phdrOffset f.data i) = kernelStart)
    (hbss : ∀ a, InBss f.data a ↔ kernelStart + pFilesz (contents f.data) (phdrOffset f.data i) ≤ a
      ∧ a < kernelStart + pMemsz (contents f.data) (phdrOffset f.data i)) :
    SegmentsLoaded f.data (clearBss (load hdr' 0 8) (load hdr' 8 8) mem') := by
  obtain ⟨hmem, n, hfirst, hshAddr, hshSize⟩ := loadelf_of_ok h hopened hall hrun
  rw [hmem, hshAddr, hshSize]
  intro j hj k hk
  refine (placed_iff hfirst mem _ _).mpr ?_
  obtain rfl := (honly j).mp hj
  have hwalk : ∀ j, walkOffset f.data j = phdrOffset f.data j := by
    intro j
    rw [walkOffset, phdrOffset, hstride]
  have hle : kernelStart ≤ kernelStart + k := Nat.le_add_right kernelStart k
  have hsub : kernelStart + k - kernelStart = k := Nat.add_sub_cancel_left kernelStart k
  rw [hstart]
  unfold segmentByte
  by_cases hfile : k < pFilesz (contents f.data) (phdrOffset f.data j)
  · rw [if_pos hfile]
    have hnot : ¬ InBss f.data (kernelStart + k) := by
      intro hin
      have := ((hbss _).mp hin).1
      omega
    have hreach : Reaches f.data j (kernelStart + k) := by
      have hinFile := h.inFile j hj
      unfold Reaches
      rw [hwalk, hsub]
      exact ⟨hj.2, hle, hfile, by omega⟩
    have hlast : LastReaching f.data (ePhnum (contents f.data)) j (kernelStart + k) := by
      refine ⟨hj.1, hreach, fun n hlo hn hother => ?_⟩
      have hload : Loadable f.data n := ⟨hn, hwalk n ▸ hother.1⟩
      have := (honly n).mp hload
      omega
    refine Or.inr (Or.inl ⟨hnot, j, hlast, ?_⟩)
    rw [hwalk, hsub]
  · rw [if_neg hfile]
    exact Or.inl ⟨(hbss _).mpr ⟨by omega, by omega⟩, rfl⟩

/-! ## Two concrete kernels -/

theorem loadSegment_returns {s : Loading} (hok : s.file.Succeeds) (e : Mem)
    (dst i : Nat) : ∃ s', loadSegment e dst i s = .ok s' ∧ s.file.Same s'.file := by
  obtain ⟨f₁, phdr, hhead, hsame₁⟩ := elfread_returns hok ((ePhoff e + sizeofPhdr * i) % 2 ^ 64) 0
    sizeofPhdr s.phdr
  unfold loadSegment
  rw [hhead, ok_bind]
  dsimp only
  split_ifs
  · exact ⟨_, rfl, hsame₁⟩
  · obtain ⟨f₂, mem₂, hbody, hsame₂⟩ := elfread_returns (hsame₁.succeeds hok) (pOffset phdr 0) dst
      (pFilesz phdr 0) s.mem
    rw [hbody]
    exact ⟨_, rfl, hsame₁.trans hsame₂⟩

/-- **`loadelf` accepts every well-formed kernel** when the firmware reports no error. -/
theorem loadelf_returns (h : ElfKernel f.data) (hopened : f.position = 0) (hall : f.ReadsAll)
    (hok : f.Succeeds) (l : Locals) (hdr mem : Mem) :
    ∃ f' hdr' mem', loadelf l f kernelStart hdr mem = .ok (0, f', hdr', mem') := by
  obtain ⟨⟨status, count, f₀, e⟩, hread⟩ :
      ∃ r, f.read (UInt64.ofNat sizeofEhdr) 0 l.e = r := ⟨_, rfl⟩
  obtain ⟨hsame₀, he⟩ := readEhdr hopened hall h.header hread
  have hstatus : status = 0 := by
    have hfirst := congrArg Prod.fst hread
    exact hfirst.symm.trans (hok ..)
  obtain ⟨f₁, hdr', hbss, hsame₁⟩ := getbss_returns (hsame₀.succeeds hok) (he.eShentsize h.sectionTable) l hdr
  have hstep : ∀ (i : Nat) (s : Loading), i < ePhnum e → f.Same s.file →
      ∃ s', loadSegment e kernelStart i s = .ok s' ∧ f.Same s'.file := by
    intro i s _ hs
    obtain ⟨s', hstep, hsame⟩ := loadSegment_returns (hs.succeeds hok) e kernelStart i
    exact ⟨s', hstep, hs.trans hsame⟩
  have hinit : f.Same (Loading.mk f₁ l.phdr mem).file := hsame₀.trans hsame₁
  obtain ⟨s, hloop, -⟩ := forLoop_ok (fun _ (s : Loading) => f.Same s.file) hinit hstep
  refine ⟨s.file, hdr', s.mem, ?_⟩
  unfold loadelf
  rw [hread, hstatus]
  show (if iself e = true then _ else _) = _
  rw [if_pos (he.iself.trans h.ident), hbss, ok_bind]
  dsimp only
  rw [hloop]
  rfl

/-- The file header of an executable: `n` program headers follow it, and behind them three section headers,
    the last of the section names. -/
def ehdrBytes (n : Nat) : List UInt8 :=
  [0x7f, 0x45, 0x4c, 0x46, 2, 1, 1] ++ leBytes 9 0 ++ leBytes 2 2 ++ leBytes 2 0x3e ++ leBytes 4 1
    ++ leBytes 8 0x100000000 ++ leBytes 8 64 ++ leBytes 8 (64 + 56 * n) ++ leBytes 4 0 ++ leBytes 2 64
    ++ leBytes 2 56 ++ leBytes 2 n ++ leBytes 2 64 ++ leBytes 2 3 ++ leBytes 2 2

/-- The program header of a loadable segment. -/
def phdrBytes (flags offset addr filesz memsz : Nat) : List UInt8 :=
  leBytes 4 1 ++ leBytes 4 flags ++ leBytes 8 offset ++ leBytes 8 addr ++ leBytes 8 addr
    ++ leBytes 8 filesz ++ leBytes 8 memsz ++ leBytes 8 1

/-- The section headers, none, `.bss` and `.shstrtab`, and the section names. -/
def sectionBytes (addr offset size strtab : Nat) : List UInt8 :=
  leBytes 64 0
    ++ leBytes 4 1 ++ leBytes 4 8 ++ leBytes 8 3 ++ leBytes 8 addr ++ leBytes 8 offset ++ leBytes 8 size
    ++ leBytes 24 0
    ++ leBytes 4 6 ++ leBytes 4 3 ++ leBytes 8 0 ++ leBytes 8 0 ++ leBytes 8 strtab ++ leBytes 8 16
    ++ leBytes 24 0
    ++ [0, 0x2e, 0x62, 0x73, 0x73, 0, 0x2e, 0x73, 0x68, 0x73, 0x74, 0x72, 0x74, 0x61, 0x62, 0]

/-- A kernel of one segment, `0xf4` and `0x2a` at the start of kernel memory, with a zero byte in `.bss`
    behind them. -/
def oneSegment : List UInt8 :=
  ehdrBytes 1 ++ phdrBytes 7 328 0x100000000 2 3 ++ sectionBytes 0x100000002 330 1 312 ++ [0xf4, 0x2a]

/-- A kernel of two one-byte segments, `0xf4` at the start of kernel memory and `0x2a` in its second page,
    with a zero byte in `.bss` behind the second. -/
def twoSegments : List UInt8 :=
  ehdrBytes 2 ++ phdrBytes 5 384 0x100000000 1 1 ++ phdrBytes 6 385 0x100001000 1 2
    ++ sectionBytes 0x100001001 386 1 368 ++ [0xf4, 0x2a]

/-- The kernels just opened, with no byte held back by any read. -/
def oneSegmentFile : File := promptFile oneSegment (by decide +kernel)

def twoSegmentsFile : File := promptFile twoSegments (by decide +kernel)

instance (data : List UInt8) (i : Nat) : Decidable (Loadable data i) :=
  inferInstanceAs (Decidable (_ ∧ _))

theorem forall_loadable {P : Nat → Prop}
    (h : ∀ i < ePhnum (contents data), Loadable data i → P i) : ∀ i, Loadable data i → P i :=
  fun i hi => h i hi.1 hi

/-- In both kernels the names end within 16 bytes. -/
theorem ends_within {i : Nat}
    (h : ∃ k < 16, nameOffset data i + k < data.length ∧ contents data (nameOffset data i + k) = 0) :
    ∃ k, nameOffset data i + k < data.length ∧ contents data (nameOffset data i + k) = 0 := by
  obtain ⟨k, -, hk⟩ := h
  exact ⟨k, hk⟩

theorem oneSegment_only (i : Nat) : Loadable oneSegment i ↔ i = 0 := by
  constructor
  · rintro ⟨hi, -⟩
    have hphnum : ePhnum (contents oneSegment) = 1 := by decide +kernel
    omega
  · rintro rfl
    decide +kernel

theorem oneSegment_elf : ElfKernel oneSegment where
  ident := by decide +kernel
  elfclass64 := by decide +kernel
  elfdata2lsb := by decide +kernel
  header := by decide +kernel
  phentsize := by decide +kernel
  phdrs := by decide +kernel
  shentsize := by decide +kernel
  shdrs := by decide +kernel
  shstrndx := by decide +kernel
  names := fun i hi => ends_within (by revert i; decide +kernel)
  bss := ⟨1, by decide +kernel⟩
  inFile := forall_loadable (by decide +kernel)
  filesz := forall_loadable (by decide +kernel)
  paddr := forall_loadable (by decide +kernel)
  inKernel := forall_loadable (by decide +kernel)
  disjoint := fun i j hi hj hne =>
    absurd (((oneSegment_only i).mp hi).trans ((oneSegment_only j).mp hj).symm) hne

theorem oneSegment_bss (a : Nat) : InBss oneSegment a ↔
    kernelStart + pFilesz (contents oneSegment) (phdrOffset oneSegment 0) ≤ a
      ∧ a < kernelStart + pMemsz (contents oneSegment) (phdrOffset oneSegment 0) := by
  have hfirst : FirstBss oneSegment 1 := by
    unfold FirstBss
    decide +kernel
  have haddr : shAddr (contents oneSegment) (shdrOffset oneSegment 1)
      = kernelStart + pFilesz (contents oneSegment) (phdrOffset oneSegment 0) := by decide +kernel
  have hsize : shAddr (contents oneSegment) (shdrOffset oneSegment 1)
      + shSize (contents oneSegment) (shdrOffset oneSegment 1)
      = kernelStart + pMemsz (contents oneSegment) (phdrOffset oneSegment 0) := by decide +kernel
  rw [← hsize, ← haddr]
  constructor
  · rintro ⟨i, hi, -, hrange⟩
    rwa [hi.unique hfirst] at hrange
  · intro hrange
    exact ⟨1, hfirst, by decide +kernel, hrange⟩

theorem twoSegments_cases {i : Nat} (h : Loadable twoSegments i) : i = 0 ∨ i = 1 := by
  have hphnum : ePhnum (contents twoSegments) = 2 := by decide +kernel
  have hi := h.1
  omega

theorem twoSegments_elf : ElfKernel twoSegments where
  ident := by decide +kernel
  elfclass64 := by decide +kernel
  elfdata2lsb := by decide +kernel
  header := by decide +kernel
  phentsize := by decide +kernel
  phdrs := by decide +kernel
  shentsize := by decide +kernel
  shdrs := by decide +kernel
  shstrndx := by decide +kernel
  names := fun i hi => ends_within (by revert i; decide +kernel)
  bss := ⟨1, by decide +kernel⟩
  inFile := forall_loadable (by decide +kernel)
  filesz := forall_loadable (by decide +kernel)
  paddr := forall_loadable (by decide +kernel)
  inKernel := forall_loadable (by decide +kernel)
  disjoint := fun i j hi hj hne => by
    rcases twoSegments_cases hi with rfl | rfl <;> rcases twoSegments_cases hj with rfl | rfl
    · exact absurd rfl hne
    · exact Or.inl (by decide +kernel)
    · exact Or.inr (by decide +kernel)
    · exact absurd rfl hne

/-- The one-segment kernel is loaded as its program header says, and its bytes are `Placed`. -/
theorem segments_loaded_iff_one :
    ∃ f' hdr' mem', loadelf zeroLocals oneSegmentFile kernelStart (fun _ => 0)
        (fun _ => 0) = .ok (0, f', hdr', mem')
      ∧ SegmentsLoaded oneSegment (clearBss (load hdr' 0 8) (load hdr' 8 8) mem')
      ∧ ∀ i, Loadable oneSegment i → ∀ k < pMemsz (contents oneSegment) (phdrOffset oneSegment i),
        Placed oneSegment (fun _ => 0) (pPaddr (contents oneSegment) (phdrOffset oneSegment i) + k)
          (segmentByte oneSegment i k) := by
  obtain ⟨f', hdr', mem', hrun⟩ := loadelf_returns (f := oneSegmentFile)
    oneSegment_elf rfl (fun _ _ => rfl) (fun _ _ => rfl) zeroLocals (fun _ => 0) (fun _ => 0)
  have hloaded := one_segment_loaded oneSegment_elf rfl (fun _ _ => rfl) hrun (by decide +kernel)
    oneSegment_only (by decide +kernel) oneSegment_bss
  exact ⟨f', hdr', mem', hrun, hloaded, (segments_loaded_iff oneSegmentFile oneSegment_elf
    rfl (fun _ _ => rfl) zeroLocals (fun _ => 0) (fun _ => 0) hrun).mp hloaded⟩

/-- The second segment has overwritten the first one. -/
theorem two_segments_not_loaded :
    ElfKernel twoSegments ∧ ∃ f' hdr' mem', loadelf zeroLocals twoSegmentsFile
        kernelStart (fun _ => 0) (fun _ => 0) = .ok (0, f', hdr', mem')
      ∧ ¬ SegmentsLoaded twoSegments (clearBss (load hdr' 0 8) (load hdr' 8 8) mem') := by
  obtain ⟨f', hdr', mem', hrun⟩ := loadelf_returns (f := twoSegmentsFile)
    twoSegments_elf rfl (fun _ _ => rfl) (fun _ _ => rfl) zeroLocals (fun _ => 0) (fun _ => 0)
  refine ⟨twoSegments_elf, f', hdr', mem', hrun, fun hloaded => ?_⟩
  obtain ⟨hmem, i, hfirst, hstart, hsize⟩ := loadelf_of_ok twoSegments_elf rfl (fun _ _ => rfl) hrun
  have hbyte := hloaded 0 (by unfold Loadable; decide +kernel) 0 (by decide +kernel)
  rw [hmem, hstart, hsize] at hbyte
  have hlast : LastReaching twoSegments (ePhnum (contents twoSegments)) 1
      (pPaddr (contents twoSegments) (phdrOffset twoSegments 0) + 0) := by
    refine ⟨by decide +kernel, by unfold Reaches; decide +kernel, fun j hlo hhi => ?_⟩
    have hphnum : ePhnum (contents twoSegments) = 2 := by decide +kernel
    omega
  rcases (placed_iff hfirst _ _ _).mp hbyte with ⟨-, hw⟩ | ⟨-, j, hj, hw⟩ | ⟨-, hnone, -⟩
  · exact absurd hw (by decide +kernel)
  · rw [← hlast.unique hj] at hw
    exact absurd hw (by decide +kernel)
  · exact hnone 1 hlast.1 hlast.2.1

end Boot
end SysproKernel

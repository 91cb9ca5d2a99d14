import SysproKernel.Boot.Elf

/-!
# `Boot.Load` — the load sequence of `efi_main`

The kernel and the three applications go to their fixed addresses. A flat file starts with a header of 16
bytes that is read into the variable `head`, and the rest of the file follows at its load address; one
`head` serves all four files, and the kernel's values are copied out of it before the first application is
loaded. With an accepted `kernel.elf` the kernel comes from `loadelf` instead.
-/

namespace SysproKernel
namespace Boot

open Lib.ByteMem Lib.Loop

/-! ## The code -/

def kernelStart : Nat := 0x100000000
def app1Start : Nat := 0x104000000
def app2Start : Nat := 0x105000000
def app3Start : Nat := 0x106000000

/-- `sizeof(struct header)`. -/
def headSize : UInt64 := 16

/-- Loading a flat file: its header into `head`, the rest to `start`. -/
def loadFlat (fuel : Nat) (file : File) (start : Nat) (head mem : Mem) : Except Halt (Mem × Mem) := do
  let size := fileSize file
  let (file, head) ← loadFile fuel file 0 headSize head
  let size := size - headSize
  let (_, mem) ← loadFile fuel file start size mem
  return (head, mem)

/-- The files `efi_main` has opened; `kernel.elf` may be missing. -/
structure Files where
  kernel : File
  kernelElf : Option File
  app1 : File
  app2 : File
  app3 : File

/-- The kernel's part of the sequence. -/
def loadKernel (fuel : Nat) (files : Files) (l : Locals) (head mem : Mem) : Except Halt (Mem × Mem) :=
  match files.kernelElf with
  | none => loadFlat fuel files.kernel kernelStart head mem
  | some elf => do
      let (r, _, head, mem) ← loadelf l elf kernelStart head mem
      if r = 0 then
        return (head, mem)
      else
        loadFlat fuel files.kernel kernelStart head mem

/-- `SetMem(buffer, size, value)` of the boot services. -/
def setMem (buffer size : Nat) (value : UInt8) (m : Mem) : Mem :=
  fun a => if buffer ≤ a ∧ a < buffer + size then value else m a

/-- `if (bss_start && bss_size) SetMem(bss_start, bss_size, 0)`. -/
def clearBss (bssStart bssSize : Nat) (m : Mem) : Mem :=
  if bssStart ≠ 0 ∧ bssSize ≠ 0 then setMem bssStart bssSize 0 m else m

/-- **The load sequence of `efi_main`**, from the opened files to the cleared `.bss`. -/
def loadSequence (fuel : Nat) (files : Files) (l : Locals) (head mem : Mem) : Except Halt Mem := do
  let (head, mem) ← loadKernel fuel files l head mem
  let bssStart := load head 0 8
  let bssSize := load head 8 8
  let (head, mem) ← loadFlat fuel files.app1 app1Start head mem
  let (head, mem) ← loadFlat fuel files.app2 app2Start head mem
  let (_, mem) ← loadFlat fuel files.app3 app3Start head mem
  return clearBss bssStart bssSize mem

/-! ## Flat files -/

/-- A freshly opened flat file that fits its window, read with arbitrarily short reads. -/
structure FlatFile (f : File) : Prop where
  opened : f.position = 0
  header : 16 ≤ f.data.length
  fits : f.data.length ≤ 0x1000000 + 16
  reads : f.ShortReads

/-- `bss_start` and `bss_size` of a flat file's header. -/
def bssStart (f : File) : Nat := leNat (f.data.take 8)
def bssSize (f : File) : Nat := leNat ((f.data.drop 8).take 8)

variable {fuel : Nat} {f : File} {files : Files} {l : Locals} {head mem : Mem}

/-- **A flat file** goes to `head` with its first 16 bytes and to its load address with the others. -/
theorem loadFlat_spec (hopened : f.position = 0) (hheader : 16 ≤ f.data.length)
    (hshort : f.ShortReads) (hfuel : f.data.length < fuel) (start : Nat) (head mem : Mem) :
    loadFlat fuel f start head mem
      = .ok (writeBytes head 0 (f.data.take 16), writeBytes mem start (f.data.drop 16)) := by
  have hlt := f.size_lt
  have hsixteen : headSize.toNat = 16 := rfl
  have hsize : (fileSize f).toNat = f.data.length := by
    rw [fileSize, UInt64.toNat_ofNat', Nat.mod_eq_of_lt hlt]
  have hle : headSize ≤ fileSize f := by
    rw [UInt64.le_iff_toNat_le]
    omega
  have hrest : (fileSize f - headSize).toNat = f.data.length - 16 := by
    rw [UInt64.toNat_sub_of_le _ _ hle, hsize, hsixteen]
  obtain ⟨f', hload, hadv⟩ := loadFile_spec hshort fuel headSize 0 head (by omega) (by omega)
  have hposition := hadv.position
  have hdata := hadv.data
  obtain ⟨f'', hload', -⟩ := loadFile_spec (hadv.shortReads hshort) fuel (fileSize f - headSize)
    start mem (by rw [hdata]; omega) (by omega)
  have hfirst : f.next headSize.toNat = f.data.take 16 := by
    rw [File.next, hopened, List.drop_zero, hsixteen]
  have hnext : f'.next (fileSize f - headSize).toNat = f.data.drop 16 := by
    rw [File.next, hdata, hposition, hopened, hsixteen, Nat.zero_add, hrest]
    exact List.take_of_length_le (by rw [List.length_drop])
  unfold loadFlat
  show (loadFile fuel f 0 headSize head >>= _) = _
  rw [hload, ok_bind]
  show (loadFile fuel f' start (fileSize f - headSize) mem >>= _) = _
  rw [hload', ok_bind, hfirst, hnext]
  rfl

theorem FlatFile.loaded (h : FlatFile f) (hfuel : f.data.length < fuel) (start : Nat) (head mem : Mem) :
    loadFlat fuel f start head mem
      = .ok (writeBytes head 0 (f.data.take 16), writeBytes mem start (f.data.drop 16)) :=
  loadFlat_spec h.opened h.header h.reads hfuel start head mem

/-- A missing or rejected `kernel.elf` leaves the kernel to the flat file. -/
theorem loadKernel_spec (hkernel : FlatFile files.kernel) (hfuel : files.kernel.data.length < fuel)
    (hrejected : ∀ elf ∈ files.kernelElf, ∃ elf' head' mem',
      loadelf l elf kernelStart head mem = .ok (-1, elf', head', mem')) :
    loadKernel fuel files l head mem
      = .ok (writeBytes head 0 (files.kernel.data.take 16),
          writeBytes mem kernelStart (files.kernel.data.drop 16)) := by
  unfold loadKernel
  cases helf : files.kernelElf with
  | none => exact hkernel.loaded hfuel kernelStart head mem
  | some elf =>
      obtain ⟨elf', head', mem', hreject⟩ := hrejected elf helf
      obtain ⟨hhead, hmem⟩ := loadelf_rejected hreject
      show (loadelf l elf kernelStart head mem >>= _) = _
      rw [hreject, ok_bind, hhead, hmem]
      exact hkernel.loaded hfuel kernelStart head mem

/-- The fields of `head` after the header of a flat file has been read into it. -/
theorem load_head (head : Mem) (h : 16 ≤ f.data.length) :
    load (writeBytes head 0 (f.data.take 16)) 0 8 = bssStart f
      ∧ load (writeBytes head 0 (f.data.take 16)) 8 8 = bssSize f := by
  have hlen : (f.data.take 16).length = 16 := List.length_take_of_le h
  have hstart := readBytes_writeBytes_part head 0 (show 0 + 8 ≤ (f.data.take 16).length by omega)
  have hsize := readBytes_writeBytes_part head 0 (show 8 + 8 ≤ (f.data.take 16).length by omega)
  refine ⟨congrArg leNat (hstart.trans ?_), congrArg leNat (hsize.trans ?_)⟩
  · rw [List.drop_zero, List.take_take]
    rfl
  · rw [List.drop_take, List.take_take]
    rfl

/-! ## The memory image -/

theorem clearBss_apply (start size a : Nat) (m : Mem) :
    clearBss start size m a = if start ≠ 0 ∧ start ≤ a ∧ a < start + size then 0 else m a := by
  unfold clearBss
  by_cases hboth : start ≠ 0 ∧ size ≠ 0
  · rw [if_pos hboth, setMem]
    exact if_congr (by simp [hboth.1]) rfl rfl
  · rw [if_neg hboth, if_neg (by omega)]

/-- A byte of a file loaded to `start`. -/
theorem loaded_byte {m : Mem} {start i : Nat} (hi : 16 + i < f.data.length) :
    writeBytes m start (f.data.drop 16) (start + i) = f.data[16 + i] := by
  rw [writeBytes_inside (by rw [List.length_drop]; omega), List.getElem_drop]

/-- Memory after the four files have been loaded. -/
def flatImage (files : Files) (mem : Mem) : Mem :=
  let mem := writeBytes mem kernelStart (files.kernel.data.drop 16)
  let mem := writeBytes mem app1Start (files.app1.data.drop 16)
  let mem := writeBytes mem app2Start (files.app2.data.drop 16)
  writeBytes mem app3Start (files.app3.data.drop 16)

/-- **The load sequence ends**, and what it clears is the `.bss` of the kernel's header. -/
theorem loadSequence_spec (hkernel : FlatFile files.kernel) (happ1 : FlatFile files.app1)
    (happ2 : FlatFile files.app2) (happ3 : FlatFile files.app3) (hfuel : 0x1000010 < fuel)
    (hrejected : ∀ elf ∈ files.kernelElf, ∃ elf' head' mem',
      loadelf l elf kernelStart head mem = .ok (-1, elf', head', mem')) :
    loadSequence fuel files l head mem
      = .ok (clearBss (bssStart files.kernel) (bssSize files.kernel) (flatImage files mem)) := by
  have hlt : ∀ f : File, FlatFile f → f.data.length < fuel :=
    fun f hf => Nat.lt_of_le_of_lt hf.fits hfuel
  obtain ⟨hloadStart, hloadSize⟩ := load_head head hkernel.header
  unfold loadSequence
  rw [loadKernel_spec hkernel (hlt _ hkernel) hrejected, ok_bind]
  show (loadFlat fuel files.app1 app1Start _ _ >>= _) = _
  rw [happ1.loaded (hlt _ happ1), ok_bind]
  show (loadFlat fuel files.app2 app2Start _ _ >>= _) = _
  rw [happ2.loaded (hlt _ happ2), ok_bind]
  show (loadFlat fuel files.app3 app3Start _ _ >>= _) = _
  rw [happ3.loaded (hlt _ happ3), ok_bind, hloadStart, hloadSize]
  rfl

section Image

variable (mem)

theorem flatImage_app3 {i : Nat} (hi : 16 + i < files.app3.data.length) :
    flatImage files mem (app3Start + i) = files.app3.data[16 + i] :=
  loaded_byte hi

theorem flatImage_app2 (happ2 : FlatFile files.app2) {i : Nat}
    (hi : 16 + i < files.app2.data.length) :
    flatImage files mem (app2Start + i) = files.app2.data[16 + i] := by
  have hfits := happ2.fits
  have hbelow : app2Start + i < app3Start := by
    unfold app2Start app3Start
    omega
  unfold flatImage
  rw [writeBytes_outside (Or.inl hbelow)]
  exact loaded_byte hi

theorem flatImage_app1 (happ1 : FlatFile files.app1) {i : Nat}
    (hi : 16 + i < files.app1.data.length) :
    flatImage files mem (app1Start + i) = files.app1.data[16 + i] := by
  have hfits := happ1.fits
  have hbelow : app1Start + i < app2Start ∧ app1Start + i < app3Start := by
    unfold app1Start app2Start app3Start
    omega
  unfold flatImage
  rw [writeBytes_outside (Or.inl hbelow.2), writeBytes_outside (Or.inl hbelow.1)]
  exact loaded_byte hi

theorem flatImage_kernel (hkernel : FlatFile files.kernel) {i : Nat}
    (hi : 16 + i < files.kernel.data.length) :
    flatImage files mem (kernelStart + i) = files.kernel.data[16 + i] := by
  have hfits := hkernel.fits
  have hbelow : kernelStart + i < app1Start ∧ kernelStart + i < app2Start ∧ kernelStart + i < app3Start := by
    unfold kernelStart app1Start app2Start app3Start
    omega
  unfold flatImage
  rw [writeBytes_outside (Or.inl hbelow.2.2), writeBytes_outside (Or.inl hbelow.2.1),
    writeBytes_outside (Or.inl hbelow.1)]
  exact loaded_byte hi

end Image

/-- **The flat load sequence builds the right memory image.** With `kernel.elf` missing or rejected, and
    however short the reads are, the sequence ends; each application lies at its address as it is in its
    file, and so does the kernel, except that its `.bss`, as the kernel's own header gives it, is zero. -/
theorem flat_load_image (files : Files) (l : Locals) (head mem : Mem)
    (hkernel : FlatFile files.kernel) (happ1 : FlatFile files.app1) (happ2 : FlatFile files.app2)
    (happ3 : FlatFile files.app3)
    (hrejected : ∀ elf ∈ files.kernelElf, ∃ elf' head' mem',
      loadelf l elf kernelStart head mem = .ok (-1, elf', head', mem'))
    (hbssLo : kernelStart ≤ bssStart files.kernel)
    (hbssHi : bssStart files.kernel + bssSize files.kernel ≤ kernelStart + 0x1000000) :
    ∃ mem', (∀ fuel, 0x1000010 < fuel → loadSequence fuel files l head mem = .ok mem')
      ∧ (∀ i (hi : 16 + i < files.app1.data.length), mem' (app1Start + i) = files.app1.data[16 + i])
      ∧ (∀ i (hi : 16 + i < files.app2.data.length), mem' (app2Start + i) = files.app2.data[16 + i])
      ∧ (∀ i (hi : 16 + i < files.app3.data.length), mem' (app3Start + i) = files.app3.data[16 + i])
      ∧ (∀ i (hi : 16 + i < files.kernel.data.length), mem' (kernelStart + i) =
          if bssStart files.kernel ≤ kernelStart + i
            ∧ kernelStart + i < bssStart files.kernel + bssSize files.kernel then 0
          else files.kernel.data[16 + i])
      ∧ ∀ a, bssStart files.kernel ≤ a → a < bssStart files.kernel + bssSize files.kernel →
          mem' a = 0 := by
  have hne : bssStart files.kernel ≠ 0 := by
    unfold kernelStart at hbssLo
    omega
  -- no application lies in the cleared range
  have happs : ∀ start i, kernelStart + 0x1000000 ≤ start → ¬ (bssStart files.kernel ≠ 0
      ∧ bssStart files.kernel ≤ start + i
      ∧ start + i < bssStart files.kernel + bssSize files.kernel) := by
    intro start i hstart
    omega
  have happly := fun a => clearBss_apply (bssStart files.kernel) (bssSize files.kernel) a
    (flatImage files mem)
  refine ⟨clearBss (bssStart files.kernel) (bssSize files.kernel) (flatImage files mem),
    fun fuel hfuel => loadSequence_spec hkernel happ1 happ2 happ3 hfuel hrejected, ?_, ?_, ?_, ?_, ?_⟩
  · intro i hi
    rw [happly, if_neg (happs app1Start i (by decide))]
    exact flatImage_app1 mem happ1 hi
  · intro i hi
    rw [happly, if_neg (happs app2Start i (by decide))]
    exact flatImage_app2 mem happ2 hi
  · intro i hi
    rw [happly, if_neg (happs app3Start i (by decide))]
    exact flatImage_app3 mem hi
  · intro i hi
    rw [happly]
    exact if_congr (and_iff_right hne) rfl (flatImage_kernel mem hkernel hi)
  · intro a hlo hhi
    rw [happly, if_pos ⟨hne, hlo, hhi⟩]

/-! ## A concrete load -/

/-- A file just opened, read at most seven bytes at a time. -/
def slowFile (data : List UInt8) (h : data.length < 2 ^ 64) : File :=
  { data, position := 0, calls := 0, answer := fun _ n => (0, if n < 7 then n else 7), size_lt := h }

theorem slowFile_reads {data : List UInt8} (h : data.length < 2 ^ 64) : (slowFile data h).ShortReads := by
  refine fun i n => ⟨rfl, ?_, ?_⟩
  · intro hpos
    show 0 < (if n < 7 then n else 7)
    split_ifs
    · exact hpos
    · decide
  · show (if n < 7 then n else 7) ≤ n
    split_ifs with hlt
    · exact UInt64.le_refl n
    · exact UInt64.not_lt.mp hlt

theorem slowFile_flat {data : List UInt8} (h : data.length < 2 ^ 64) (hlo : 16 ≤ data.length)
    (hhi : data.length ≤ 0x1000000 + 16) : FlatFile (slowFile data h) :=
  ⟨rfl, hlo, hhi, slowFile_reads h⟩

/-- A kernel of four bytes whose `.bss` is its third byte, three applications and an empty `kernel.elf`. -/
def smallFiles : Files where
  kernel := slowFile (leBytes 8 0x100000002 ++ leBytes 8 1 ++ [0xf4, 0xeb, 0xff, 0x90]) (by decide)
  kernelElf := some (slowFile [] (by decide))
  app1 := slowFile (leBytes 16 0 ++ [0x01]) (by decide)
  app2 := slowFile (leBytes 16 0) (by decide)
  app3 := slowFile (leBytes 8 0x40000000 ++ leBytes 8 4096 ++ [0x03]) (by decide)

/-- Stack memory full of zeros. -/
def zeroLocals : Locals := ⟨fun _ => 0, fun _ => 0, fun _ => 0, fun _ => 0, fun _ => 0⟩

/-- The empty `kernel.elf` is rejected, and the four flat files end up at their places. -/
theorem flat_load_image_small :
    ∃ mem', (∀ fuel, 0x1000010 < fuel →
        loadSequence fuel smallFiles zeroLocals (fun _ => 0) (fun _ => 0xff) = .ok mem')
      ∧ mem' 0x104000000 = 0x01 ∧ mem' 0x106000000 = 0x03 ∧ mem' 0x100000001 = 0xeb
      ∧ mem' 0x100000002 = 0 := by
  have hrejected : ∀ elf ∈ smallFiles.kernelElf, ∃ elf' head' mem',
      loadelf zeroLocals elf kernelStart (fun _ => 0) (fun _ => 0xff) = .ok (-1, elf', head', mem') := by
    rintro _ ⟨⟩
    exact ⟨_, _, _, rfl⟩
  obtain ⟨mem', hrun, happ1, -, happ3, hkernel, hbss⟩ := flat_load_image smallFiles zeroLocals
    (fun _ => 0) (fun _ => 0xff) (slowFile_flat _ (by decide) (by decide))
    (slowFile_flat _ (by decide) (by decide)) (slowFile_flat _ (by decide) (by decide))
    (slowFile_flat _ (by decide) (by decide)) hrejected (by decide) (by decide)
  refine ⟨mem', hrun, happ1 0 (by decide), happ3 0 (by decide), ?_, hbss _ (by decide) (by decide)⟩
  exact (hkernel 1 (by decide)).trans (if_neg (by decide))

/-! ## Truncated files -/

/-- Loading `f` to `start` ends, and stores neither past `head` nor past `start` by more than the length of
    the file. -/
def FlatLoadEnds (f : File) (start : Nat) : Prop :=
  ∃ needed, ∀ fuel, needed < fuel → ∀ head mem, ∃ head' mem',
    loadFlat fuel f start head mem = .ok (head', mem')
      ∧ Set.EqOn head' head (Set.compl (Set.Ico 0 (min 16 f.data.length)))
      ∧ Set.EqOn mem' mem (Set.compl (Set.Ico start (start + f.data.length)))

/-- Without a whole header the first `load_file` does not end. -/
theorem loadFlat_truncated (hopened : f.position = 0) (hshort : f.ShortReads) (htrunc : f.data.length < 16)
    (fuel start : Nat) (head mem : Mem) : loadFlat fuel f start head mem = .error .fuel := by
  have hless : f.remaining < headSize.toNat := by
    unfold File.remaining
    rw [hopened]
    exact htrunc
  unfold loadFlat
  show (loadFile fuel f 0 headSize head >>= _) = _
  rw [loadFile_past hshort fuel 0 head hless]
  rfl

/-- **Loading a flat file ends exactly when the file has a whole header**, whatever the sizes of the reads
    are; there is no test for the end of the file. -/
theorem flat_load_ends_iff (f : File) (start : Nat) (hopened : f.position = 0) (hshort : f.ShortReads) :
    FlatLoadEnds f start ↔ 16 ≤ f.data.length := by
  constructor
  · rintro ⟨needed, hends⟩
    by_contra htrunc
    obtain ⟨head', mem', hload, -⟩ := hends (needed + 1) (Nat.lt_succ_self needed) (fun _ => 0) (fun _ => 0)
    rw [loadFlat_truncated hopened hshort (by omega)] at hload
    cases hload
  · intro hheader
    refine ⟨f.data.length, fun fuel hfuel head mem =>
      ⟨_, _, loadFlat_spec hopened hheader hshort hfuel start head mem, ?_, ?_⟩⟩
    · intro a ha
      refine writeBytes_outside (Or.inr ?_)
      rw [List.length_take, Nat.zero_add]
      exact Nat.not_lt.mp fun hlt => ha ⟨Nat.zero_le a, hlt⟩
    · intro a ha
      refine writeBytes_outside ?_
      rw [List.length_drop]
      have hout : ¬ (start ≤ a ∧ a < start + f.data.length) := ha
      omega

/-- A file of a header and one byte of code. -/
theorem flat_load_ends_small : FlatLoadEnds smallFiles.app1 app1Start :=
  (flat_load_ends_iff smallFiles.app1 app1Start rfl (slowFile_reads _)).mpr (by decide)

/-- The empty file. -/
theorem flat_load_empty : ¬ ∀ (f : File) (start : Nat), f.position = 0 → f.ShortReads →
    FlatLoadEnds f start := by
  intro hall
  obtain ⟨needed, hends⟩ := hall (slowFile [] (by decide)) app1Start rfl (slowFile_reads _)
  obtain ⟨head', mem', hload, -⟩ := hends (needed + 1) (Nat.lt_succ_self needed) (fun _ => 0) (fun _ => 0)
  rw [loadFlat_truncated rfl (slowFile_reads _) (by decide)] at hload
  cases hload

end Boot
end SysproKernel

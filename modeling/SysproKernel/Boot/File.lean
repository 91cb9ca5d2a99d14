import SysproKernel.Lib.ByteMem
import SysproKernel.Lib.Loop

/-!
# `Boot.File` — reading files through the firmware

`EFI_FILE_PROTOCOL` as far as the boot loader uses it, and `load_file`, which asks for a file's bytes in
units of 16 KiB and takes what each `Read` gives. A `Read` may return fewer bytes than asked for, so the
two loops of `load_file` must keep `size`, `dst` and the file's position in step (`readWhile_spec`).

Local variables of the boot loader are objects of their own: a pointer is an offset in the object, or an
address in main memory.
-/

namespace SysproKernel
namespace Boot

open Lib.ByteMem Lib.Loop

/-! ## Files -/

/-- Where the boot loader stops for good: in `assert`, or in a loop that gets no further. -/
inductive Halt where
  | spin (msg : String) (status : UInt64)
  | fuel

/-- `assert(status, msg)` of the boot loader: anything but `EFI_SUCCESS` is printed and spun on. -/
def assert (status : UInt64) (msg : String) : Except Halt Unit :=
  if status ≠ 0 then .error (.spin msg status) else .ok ()

/-- An open file. How the firmware answers the `i`-th call of `Read` for `n` bytes is up to `answer`: a
    status, and how many bytes it is willing to give. -/
structure File where
  data : List UInt8
  position : Nat
  calls : Nat
  answer : Nat → UInt64 → UInt64 × UInt64
  size_lt : data.length < 2 ^ 64

namespace File

/-- The position that stands for the end of the file. -/
def endPosition : Nat := 0xffffffffffffffff

/-- `SetPosition`. -/
def setPosition (f : File) (position : Nat) : File :=
  { f with position := if position = endPosition then f.data.length else position }

/-- The `n` bytes from the file's position, as many as there are. -/
def next (f : File) (n : Nat) : List UInt8 := (f.data.drop f.position).take n

/-- `Read`: the status, the new `*BufferSize`, the file afterwards and the object the buffer is in. -/
def read (f : File) (bufferSize : UInt64) (buffer : Nat) (m : Mem) : UInt64 × UInt64 × File × Mem :=
  let (status, count) := f.answer f.calls bufferSize
  let bytes := f.next count.toNat
  (status, UInt64.ofNat bytes.length,
    { f with position := f.position + bytes.length, calls := f.calls + 1 }, writeBytes m buffer bytes)

/-- `Read` succeeds and, where any bytes are asked for, gives one to all of them. -/
def ShortReads (f : File) : Prop :=
  ∀ i n, (f.answer i n).1 = 0 ∧ (0 < n → 0 < (f.answer i n).2) ∧ (f.answer i n).2 ≤ n

/-- `f'` is `f` after `k` bytes. -/
structure Advanced (f f' : File) (k : Nat) : Prop where
  data : f'.data = f.data
  answer : f'.answer = f.answer
  position : f'.position = f.position + k

variable {f f' f'' : File} {k k' n : Nat}

theorem Advanced.refl (f : File) : f.Advanced f 0 := ⟨rfl, rfl, rfl⟩

theorem Advanced.trans (h : f.Advanced f' k) (h' : f'.Advanced f'' k') :
    f.Advanced f'' (k + k') where
  data := h'.data.trans h.data
  answer := h'.answer.trans h.answer
  position := by rw [h'.position, h.position, Nat.add_assoc]

theorem Advanced.shortReads (h : f.Advanced f' k) (hshort : f.ShortReads) : f'.ShortReads := by
  unfold ShortReads
  rw [h.answer]
  exact hshort

/-- The bytes after the next `k` are the next ones of the advanced file. -/
theorem Advanced.next (h : f.Advanced f' k) : f.next (k + n) = f.next k ++ f'.next n := by
  unfold File.next
  rw [h.data, h.position, List.take_add, List.drop_drop]

theorem next_length (h : f.position + n ≤ f.data.length) : (f.next n).length = n := by
  unfold next
  rw [List.length_take, List.length_drop]
  omega

/-- **A short read.** While the file has the bytes, a `Read` for `size` of them gives the next `k`. -/
theorem read_spec (hshort : f.ShortReads) {size : UInt64} (hsize : 0 < size)
    (henough : f.position + size.toNat ≤ f.data.length) (dst : Nat) (m : Mem) :
    ∃ count f', f.read size dst m = (0, count, f', writeBytes m dst (f.next count.toNat))
      ∧ 0 < count ∧ count ≤ size ∧ f.Advanced f' count.toNat := by
  obtain ⟨hstatus, hpos, hle⟩ := hshort f.calls size
  have hle' : (f.answer f.calls size).2.toNat ≤ size.toNat := UInt64.le_iff_toNat_le.mp hle
  have hlen := f.next_length (n := (f.answer f.calls size).2.toNat) (by omega)
  let count := (f.answer f.calls size).2
  refine ⟨count, { f with position := f.position + count.toNat, calls := f.calls + 1 }, ?_,
    hpos hsize, hle, rfl, rfl, rfl⟩
  unfold read
  simp only [hlen, hstatus, UInt64.ofNat_toNat]
  rfl

/-- The bytes from the file's position to its end. -/
def remaining (f : File) : Nat := f.data.length - f.position

/-- **A read past the end.** With more bytes to come than the file still has, a `Read` for `n` of them
    succeeds all the same, and what is missing stays missing. -/
theorem read_past (hshort : f.ShortReads) {size n : UInt64} (hn : n ≤ size)
    (hless : f.remaining < size.toNat) (dst : Nat) (m : Mem) :
    ∃ count f' m', f.read n dst m = (0, count, f', m') ∧ f'.ShortReads
      ∧ f'.remaining < (size - count).toNat := by
  obtain ⟨hstatus, -, hle⟩ := hshort f.calls n
  have hle' : (f.answer f.calls n).2.toNat ≤ size.toNat :=
    UInt64.le_iff_toNat_le.mp (UInt64.le_trans hle hn)
  let bytes := f.next (f.answer f.calls n).2.toNat
  have hlen : bytes.length = min (f.answer f.calls n).2.toNat f.remaining := by
    show ((f.data.drop f.position).take _).length = _
    rw [List.length_take, List.length_drop]
    rfl
  have hcount : (UInt64.ofNat bytes.length).toNat = bytes.length :=
    UInt64.toNat_ofNat_of_lt (Nat.lt_of_le_of_lt (by omega) size.toNat_lt)
  have hsub : (size - UInt64.ofNat bytes.length).toNat = size.toNat - bytes.length := by
    rw [UInt64.toNat_sub_of_le _ _ (UInt64.le_iff_toNat_le.mpr (by omega)), hcount]
  refine ⟨UInt64.ofNat bytes.length,
    { f with position := f.position + bytes.length, calls := f.calls + 1 }, writeBytes m dst bytes,
    ?_, hshort, ?_⟩
  · rw [← hstatus]
    rfl
  · unfold remaining at hless hlen ⊢
    show f.data.length - (f.position + bytes.length) < _
    rw [hsub]
    omega

end File

/-! ## `load_file` -/

/-- `READ_UNIT`. -/
def readUnit : UInt64 := 16384

/-- The variables of `load_file`: the bytes still to come and where they go. -/
structure Progress where
  size : UInt64
  dst : Nat
  file : File
  mem : Mem

/-- `while (size > limit) { … }`, each iteration asking for `unit size` bytes. -/
def readWhile (limit : UInt64) (unit : UInt64 → UInt64) : Nat → Progress → Except Halt Progress
  | 0,        _ => .error .fuel
  | fuel + 1, p =>
      if limit < p.size then do
        let (status, count, file, mem) := p.file.read (unit p.size) p.dst p.mem
        assert status "EFI_FILE_PROTOCOL#Read error"
        readWhile limit unit fuel ⟨p.size - count, p.dst + count.toNat, file, mem⟩
      else
        return p

/-- `load_file(src, dst, size)`, into the object `m`. -/
def loadFile (fuel : Nat) (src : File) (dst : Nat) (size : UInt64) (m : Mem) :
    Except Halt (File × Mem) := do
  let p ← readWhile readUnit (fun _ => readUnit) fuel ⟨size, dst, src, m⟩
  let p ← readWhile 0 (fun size => size) fuel p
  return (p.file, p.mem)

/-- `file_size(file)`; the buffer for `GetInfo` has room for every name the boot loader opens. -/
def fileSize (file : File) : UInt64 := UInt64.ofNat file.data.length

/-- `k` more bytes of the file have gone to memory, and `p'` is where that leads. -/
structure Progress.Advanced (p p' : Progress) (k : Nat) : Prop where
  size : p'.size.toNat + k = p.size.toNat
  dst : p'.dst = p.dst + k
  file : p.file.Advanced p'.file k
  mem : p'.mem = writeBytes p.mem p.dst (p.file.next k)

/-- One iteration, and then the rest of them. -/
theorem Progress.Advanced.trans {p p' p'' : Progress} {k k' : Nat} (h : p.Advanced p' k)
    (h' : p'.Advanced p'' k') (henough : p.file.position + p.size.toNat ≤ p.file.data.length) :
    p.Advanced p'' (k + k') where
  size := by
    have := h.size
    have := h'.size
    omega
  dst := by rw [h'.dst, h.dst, Nat.add_assoc]
  file := h.file.trans h'.file
  mem := by
    have hle : k ≤ p.size.toNat := h.size ▸ Nat.le_add_left ..
    rw [h'.mem, h.mem, h.file.next, writeBytes_append, File.next_length (by omega), h.dst]

/-- **The read loop**, as long as the file has the bytes: it ends, at most `limit` bytes are left, and
    those already read lie in memory in the file's order. -/
theorem readWhile_spec {limit : UInt64} {unit : UInt64 → UInt64}
    (hunit : ∀ size, limit < size → 0 < unit size ∧ unit size ≤ size) {fuel : Nat} {p : Progress}
    (hshort : p.file.ShortReads) (henough : p.file.position + p.size.toNat ≤ p.file.data.length)
    (hfuel : p.size.toNat < fuel) :
    ∃ p' k, readWhile limit unit fuel p = .ok p' ∧ p'.size ≤ limit ∧ p.Advanced p' k := by
  induction fuel generalizing p with
  | zero => exact absurd hfuel (Nat.not_lt_zero _)
  | succ fuel ih =>
      unfold readWhile
      by_cases hmore : limit < p.size
      · obtain ⟨hpos, hle⟩ := hunit p.size hmore
        have hle' : (unit p.size).toNat ≤ p.size.toNat := UInt64.le_iff_toNat_le.mp hle
        obtain ⟨count, f', hread, hcount, hcountle, hadv⟩ :=
          File.read_spec hshort hpos (by omega) p.dst p.mem
        have hcount' : 0 < count.toNat := UInt64.lt_iff_toNat_lt.mp hcount
        have hcountle' : count.toNat ≤ (unit p.size).toNat := UInt64.le_iff_toNat_le.mp hcountle
        have hsub : (p.size - count).toNat = p.size.toNat - count.toNat :=
          UInt64.toNat_sub_of_le _ _ (UInt64.le_trans hcountle hle)
        let p₁ : Progress :=
          ⟨p.size - count, p.dst + count.toNat, f', writeBytes p.mem p.dst (p.file.next count.toNat)⟩
        have hstep : p.Advanced p₁ count.toNat := by
          refine ⟨?_, rfl, hadv, rfl⟩
          show (p.size - count).toNat + count.toNat = p.size.toNat
          omega
        have henough₁ : p₁.file.position + p₁.size.toNat ≤ p₁.file.data.length := by
          show f'.position + (p.size - count).toNat ≤ f'.data.length
          rw [hadv.position, hadv.data]
          omega
        have hfuel₁ : p₁.size.toNat < fuel := by
          show (p.size - count).toNat < fuel
          omega
        obtain ⟨p', k, hrun, hend, hrest⟩ := ih (hadv.shortReads hshort) henough₁ hfuel₁
        refine ⟨p', count.toNat + k, ?_, hend, hstep.trans hrest henough⟩
        rw [if_pos hmore, hread]
        exact hrun
      · have hle : p.size ≤ limit := UInt64.not_lt.mp hmore
        refine ⟨p, 0, ?_, hle, rfl, rfl, .refl _, ?_⟩
        · rw [if_neg hmore]
          rfl
        · rfl

/-- **`load_file` delivers.** Where the file has `size` more bytes, `load_file` ends and puts exactly
    these to `dst`, however short the reads are. -/
theorem loadFile_spec {src : File} (hshort : src.ShortReads) (fuel : Nat) (size : UInt64) (dst : Nat)
    (m : Mem) (henough : src.position + size.toNat ≤ src.data.length) (hfuel : size.toNat < fuel) :
    ∃ src', loadFile fuel src dst size m = .ok (src', writeBytes m dst (src.next size.toNat))
      ∧ src.Advanced src' size.toNat := by
  have hunit : ∀ size : UInt64, readUnit < size → 0 < readUnit ∧ readUnit ≤ size :=
    fun size h => ⟨by decide, UInt64.le_of_lt h⟩
  have hrest : ∀ size : UInt64, 0 < size → 0 < size ∧ size ≤ size :=
    fun size h => ⟨h, UInt64.le_refl size⟩
  obtain ⟨p, k, hrun, -, hadv⟩ :=
    readWhile_spec (p := ⟨size, dst, src, m⟩) hunit hshort henough hfuel
  have hsize : p.size.toNat + k = size.toNat := hadv.size
  have henough' : p.file.position + p.size.toNat ≤ p.file.data.length := by
    rw [hadv.file.position, hadv.file.data]
    show src.position + k + p.size.toNat ≤ src.data.length
    omega
  obtain ⟨p', k', hrun', hend, hadv'⟩ := readWhile_spec hrest (hadv.file.shortReads hshort) henough'
    (show p.size.toNat < fuel by omega)
  have hall := hadv.trans hadv' henough
  have hzero : p'.size.toNat = 0 := by
    have := UInt64.le_iff_toNat_le.mp hend
    exact Nat.le_zero.mp this
  have hk : k + k' = size.toNat := by
    have hsum : p'.size.toNat + (k + k') = size.toNat := hall.size
    omega
  rw [hk] at hall
  refine ⟨p'.file, ?_, hall.file⟩
  have hmem : p'.mem = writeBytes m dst (src.next size.toNat) := hall.mem
  unfold loadFile
  rw [hrun, ok_bind, hrun', ok_bind, hmem]
  rfl

/-- **The read loop past the end**, asked for more than the file has: it runs on for ever, or it ends with
    the missing bytes still to come. -/
theorem readWhile_past {limit : UInt64} {unit : UInt64 → UInt64}
    (hunit : ∀ size, limit < size → unit size ≤ size) {fuel : Nat} {p : Progress}
    (hshort : p.file.ShortReads) (hless : p.file.remaining < p.size.toNat) :
    readWhile limit unit fuel p = .error .fuel
      ∨ ∃ p', readWhile limit unit fuel p = .ok p' ∧ p'.size ≤ limit ∧ p'.file.ShortReads
        ∧ p'.file.remaining < p'.size.toNat := by
  induction fuel generalizing p with
  | zero => exact Or.inl rfl
  | succ fuel ih =>
      unfold readWhile
      by_cases hmore : limit < p.size
      · obtain ⟨count, f', m', hread, hshort', hless'⟩ :=
          File.read_past hshort (hunit p.size hmore) hless p.dst p.mem
        rw [if_pos hmore, hread]
        exact ih (p := ⟨p.size - count, p.dst + count.toNat, f', m'⟩) hshort' hless'
      · refine Or.inr ⟨p, ?_, UInt64.not_lt.mp hmore, hshort, hless⟩
        rw [if_neg hmore]
        rfl

/-- **`load_file` does not end** where the file has fewer than `size` more bytes: at its end every `Read`
    gives nothing, and `size` never gets to zero. -/
theorem loadFile_past {src : File} (hshort : src.ShortReads) (fuel : Nat) {size : UInt64} (dst : Nat)
    (m : Mem) (hless : src.remaining < size.toNat) : loadFile fuel src dst size m = .error .fuel := by
  unfold loadFile
  obtain hrun | ⟨p, hrun, -, hshort', hless'⟩ :=
    readWhile_past (p := ⟨size, dst, src, m⟩) (fun _ h => UInt64.le_of_lt h) hshort hless
  · rw [hrun]
    rfl
  · rw [hrun, ok_bind]
    obtain hrun' | ⟨p', -, hend, -, hless''⟩ :=
      readWhile_past (fun size _ => UInt64.le_refl size) hshort' hless'
    · rw [hrun']
      rfl
    · have hzero : p'.size.toNat ≤ 0 := UInt64.le_iff_toNat_le.mp hend
      omega

end Boot
end SysproKernel

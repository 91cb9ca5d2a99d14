import SysproKernel.Boot.File

/-!
# `Boot.Elf` — `loadelf`

The boot loader's ELF loader: the file header, the walk over the section headers for `.bss`, and the walk
over the program headers. `struct ehdr`, `struct phdr` and `struct shdr` are packed, so a header is its
bytes, and a field is a little-endian number at its offset.

A read that comes back short, at the end of the file, leaves the rest of its buffer as it was; every local
variable starts with arbitrary bytes (`Locals`).
-/

namespace SysproKernel
namespace Boot

open Lib.ByteMem Lib.Loop

/-! ## Headers -/

/-- `struct ehdr` at the start of an object. -/
def eType (e : Mem) : Nat := load e 16 2
def ePhoff (e : Mem) : Nat := load e 32 8
def eShoff (e : Mem) : Nat := load e 40 8
def ePhentsize (e : Mem) : Nat := load e 54 2
def ePhnum (e : Mem) : Nat := load e 56 2
def eShentsize (e : Mem) : Nat := load e 58 2
def eShnum (e : Mem) : Nat := load e 60 2
def eShstrndx (e : Mem) : Nat := load e 62 2

/-- `struct phdr` at offset `a`. -/
def pType (m : Mem) (a : Nat) : Nat := load m a 4
def pOffset (m : Mem) (a : Nat) : Nat := load m (a + 8) 8
def pVaddr (m : Mem) (a : Nat) : Nat := load m (a + 16) 8
def pPaddr (m : Mem) (a : Nat) : Nat := load m (a + 24) 8
def pFilesz (m : Mem) (a : Nat) : Nat := load m (a + 32) 8
def pMemsz (m : Mem) (a : Nat) : Nat := load m (a + 40) 8

/-- `struct shdr` at offset `a`. -/
def shName (m : Mem) (a : Nat) : Nat := load m a 4
def shAddr (m : Mem) (a : Nat) : Nat := load m (a + 16) 8
def shOffset (m : Mem) (a : Nat) : Nat := load m (a + 24) 8
def shSize (m : Mem) (a : Nat) : Nat := load m (a + 32) 8

def sizeofEhdr : Nat := 64
def sizeofPhdr : Nat := 56
def sizeofShdr : Nat := 64

def etExec : Nat := 2
def ptLoad : Nat := 1
def shnUndef : Nat := 0

/-! ## The code -/

/-- `iself(e)`. -/
def iself (e : Mem) : Bool :=
  (e 0 == 0x7f && e 1 == 0x45 && e 2 == 0x4c && e 3 == 0x46) && eType e == etExec

/-- `elfread(file, offset, dst, size)`, with `dst` in the object `m`. -/
def elfread (file : File) (offset dst size : Nat) (m : Mem) : Except Halt (File × Mem) := do
  let (status, _, file, m) := (file.setPosition offset).read (UInt64.ofNat size) dst m
  assert status "read error"
  return (file, m)

/-- `elfstrtable(file, e, strtable)`; without a section name table `strtable` stays as it is. -/
def elfstrtable (file : File) (e strtable : Mem) : Except Halt (File × Mem) :=
  if eShstrndx e = shnUndef then .ok (file, strtable)
  else elfread file ((eShoff e + eShentsize e * eShstrndx e) % 2 ^ 64) 0 sizeofShdr strtable

/-- `sectionname(file, strtable, sh_name, name)`. -/
def sectionname (file : File) (strtable : Mem) (index : Nat) (name : Mem) :
    Except Halt (File × Mem) :=
  elfread file ((shOffset strtable 0 + index) % 2 ^ 64) 0 32 name

/-- `compare(first, second, bytes)`. -/
def compare (first second : Mem) (bytes : Nat) : Bool :=
  (List.range bytes).all fun i => first i == second i

/-- The string literal `".bss"`. -/
def dotBss : Mem := fun i => [0x2e, 0x62, 0x73, 0x73].getD i 0

/-- The loop of `getbss` over the remaining `n` section headers; the one found is in `shdr`. -/
def findBss (e strtable : Mem) : Nat → Nat → File → Mem → Mem → Except Halt (File × Option Mem)
  | 0,     _,    file, _,    _    => .ok (file, none)
  | n + 1, soff, file, shdr, name => do
      let (file, shdr) ← elfread file soff 0 (eShentsize e) shdr
      let (file, name) ← sectionname file strtable (shName shdr 0) name
      if compare dotBss name 4 then
        return (file, some shdr)
      else
        findBss e strtable n ((soff + eShentsize e) % 2 ^ 64) file shdr name

/-- The local variables of `loadelf` and `getbss`, as they are found on the stack. -/
structure Locals where
  e : Mem
  phdr : Mem
  shdr : Mem
  strtable : Mem
  name : Mem

/-- `struct header`: `bss_start` and `bss_size`. -/
def setHeader (hdr : Mem) (bssStart bssSize : Nat) : Mem := store (store hdr 0 8 bssStart) 8 8 bssSize

/-- `getbss(file, e, hdr)`. -/
def getbss (l : Locals) (file : File) (e hdr : Mem) : Except Halt (File × Mem) := do
  assert (if sizeofShdr ≠ eShentsize e then 1 else 0) "oi"
  let (file, strtable) ← elfstrtable file e l.strtable
  let (file, found) ← findBss e strtable (eShnum e) (eShoff e) file l.shdr l.name
  match found with
  | some shdr => return (file, setHeader hdr (shAddr shdr 0) (shSize shdr 0))
  | none => return (file, setHeader hdr 0 0)

/-- The variables of the loop of `loadelf`, and main memory. -/
structure Loading where
  file : File
  phdr : Mem
  mem : Mem

/-- Iteration `i` of that loop: every loadable segment goes to the same `dst`. -/
def loadSegment (e : Mem) (dst i : Nat) (s : Loading) : Except Halt Loading := do
  let (file, phdr) ← elfread s.file ((ePhoff e + sizeofPhdr * i) % 2 ^ 64) 0 sizeofPhdr s.phdr
  if pType phdr 0 ≠ ptLoad then
    return ⟨file, phdr, s.mem⟩
  else do
    let (file, mem) ← elfread file (pOffset phdr 0) dst (pFilesz phdr 0) s.mem
    return ⟨file, phdr, mem⟩

/-- `loadelf(file, dst, hdr)`: its result, the file, `*hdr` and main memory afterwards. -/
def loadelf (l : Locals) (file : File) (dst : Nat) (hdr mem : Mem) :
    Except Halt (Int × File × Mem × Mem) := do
  let (status, _, file, e) := file.read (UInt64.ofNat sizeofEhdr) 0 l.e
  assert status "read error"
  if iself e then do
    let (file, hdr) ← getbss l file e hdr
    let s ← forLoop (ePhnum e) (loadSegment e dst) ⟨file, l.phdr, mem⟩
    return (0, s.file, hdr, s.mem)
  else
    return (-1, file, hdr, mem)

/-- **A rejected file leaves no trace.** Where `loadelf` returns -1, it has written nothing but its own
    local variables. -/
theorem loadelf_rejected {l : Locals} {file file' : File} {dst : Nat} {hdr mem hdr' mem' : Mem}
    (h : loadelf l file dst hdr mem = .ok (-1, file', hdr', mem')) : hdr' = hdr ∧ mem' = mem := by
  unfold loadelf at h
  obtain ⟨_, -, h⟩ := of_bind_ok h
  split_ifs at h
  · obtain ⟨_, -, h⟩ := of_bind_ok h
    obtain ⟨_, -, h⟩ := of_bind_ok h
    cases h
  · cases h
    exact ⟨rfl, rfl⟩

end Boot
end SysproKernel

import Mathlib.Data.List.GetD
import SysproKernel.Boot.Load
import SysproKernel.Lib.Logged

/-!
# `Boot.Volumes` — the search for the kernel's volume

`efi_main` reads the root directory of every volume and opens the kernel's files on each one in which it
has found the kernel. The test compares `KERNEL_NAME_LEN` bytes of a name, which are three of its wide
characters: it finds every name that starts with `ker` (`compare_fileName`). And `KERNEL_NAME` has no room
for a terminator, so that `Open` reads on into whatever lies behind it.

Two things are taken from the firmware. Every directory entry's `EFI_FILE_INFO` fits into the loader's
buffer of 256 bytes (`Entry.fits`: names of up to 87 characters); for a longer one `Read` fails and the
assert stops the boot. And an `Open` that fails leaves the file pointer as it was (`openFile`), so that it
is null or the file of an earlier volume.

The log of the scan is the calls of `Open`. A volume in which nothing is found leaves no trace at all
(`scanHandle_other`).
-/

namespace SysproKernel
namespace Boot

open Lib Lib.ByteMem Lib.Logged

/-! ## Volumes -/

/-- The bytes of wide characters. -/
def wideBytes (cs : List UInt16) : List UInt8 := cs.flatMap fun c => leBytes 2 c.toNat

/-- A directory entry: its `struct EFI_FILE_INFO`, up to `FileName` and from there on. It fits into the
    buffer that the loader reads entries into. -/
structure Entry where
  header : List UInt8
  name : List UInt16
  header_length : header.length = 80
  name_nonzero : ∀ c ∈ name, c ≠ 0
  fits : 80 + 2 * (name.length + 1) ≤ 256

/-- The bytes of the struct, the name with its terminator. -/
def Entry.info (e : Entry) : List UInt8 := e.header ++ wideBytes (e.name ++ [0])

/-- A volume: the entries of its root directory, and what `Open` answers for a name. It opens the files
    that are there. -/
structure Volume where
  entries : List Entry
  openFile : List UInt16 → UInt64 × File
  opens : ∀ e ∈ entries, (openFile e.name).1 = 0

/-- A handle with the simple file system protocol: the statuses of `HandleProtocol` and `OpenVolume`. -/
structure Handle where
  protocolStatus : UInt64
  volumeStatus : UInt64
  volume : Volume

/-- The handle of a volume that can be opened. -/
def Volume.handle (v : Volume) : Handle := { protocolStatus := 0, volumeStatus := 0, volume := v }

def efiBufferTooSmall : UInt64 := 0x8000000000000005

/-- `Read` on a directory whose next entry is `e`: the status, `*BufferSize` and the buffer. -/
def Entry.read (e : Entry) (bufferSize : UInt64) (buffer : Mem) : UInt64 × UInt64 × Mem :=
  let size := UInt64.ofNat e.info.length
  if size ≤ bufferSize then (0, size, writeBytes buffer 0 e.info) else (efiBufferTooSmall, size, buffer)

/-! ## The code -/

/-- `KERNEL_NAME_LEN`. -/
def kernelNameLen : Nat := 6

/-- The characters of `KERNEL_NAME`, `KERNEL_ELF_NAME`, `APP1_NAME`, `APP2_NAME` and `APP3_NAME`. -/
def kernelName : List UInt16 := [0x6b, 0x65, 0x72, 0x6e, 0x65, 0x6c]
def kernelElfName : List UInt16 := [0x6b, 0x65, 0x72, 0x6e, 0x65, 0x6c, 0x2e, 0x65, 0x6c, 0x66]
def app1Name : List UInt16 := [0x61, 0x70, 0x70, 0x31]
def app2Name : List UInt16 := [0x61, 0x70, 0x70, 0x32]
def app3Name : List UInt16 := [0x61, 0x70, 0x70, 0x33]

/-- What lies in memory behind the arrays without a terminator, up to the next zero character. -/
structure Behind where
  kernel : List UInt16
  kernelElf : List UInt16

/-- A call of `Open`. -/
structure OpenCall where
  volume : Volume
  name : List UInt16
  status : UInt64

/-- `kernel_file` and the other file pointers. -/
structure FilePointers where
  kernel : Option File
  kernelElf : Option File
  app1 : Option File
  app2 : Option File
  app3 : Option File

/-- The `while (1)` over a directory from its `k`-th entry on; `stale k` is what the stack holds where
    `buffer` is then declared. At the end of the directory `Read` gives the size 0. -/
def scanDirectory (stale : Nat → Mem) (k : Nat) (kernelFound : Bool) : List Entry → Except Halt Bool
  | []      => .ok kernelFound
  | e :: es => do
      let (status, bufferSize, buffer) := e.read 256 (stale k)
      assert status "EFI_FILE_PROTOCOL#Read error"
      if bufferSize = 0 then
        return kernelFound
      else
        let fileName : Mem := fun i => buffer (80 + i)
        let name : Mem := fun i => (wideBytes kernelName).getD i 0
        scanDirectory stale (k + 1) (kernelFound || compare fileName name kernelNameLen) es

/-- `root->Open(root, &file, name, EFI_FILE_MODE_READ, 0)`: the status and the pointer afterwards. The
    firmware stores the new handle only if it succeeds. -/
def openFile (root : Volume) (file : Option File) (name : List UInt16) :
    Logged OpenCall Halt (UInt64 × Option File) := do
  let (status, opened) := root.openFile name
  tell { volume := root, name, status }
  return (status, if status = 0 then some opened else file)

/-- `if (kernel_found)`: the five files. -/
def openFiles (b : Behind) (root : Volume) (p : FilePointers) : Logged OpenCall Halt FilePointers := do
  let (status, kernel) ← openFile root p.kernel (kernelName ++ b.kernel)
  lift (assert status "EFI_FILE_PROTOCOL#Read error")
  -- the status of this one is not checked
  let (_, kernelElf) ← openFile root p.kernelElf (kernelElfName ++ b.kernelElf)
  let (status, app1) ← openFile root p.app1 app1Name
  lift (assert status "EFI_FILE_PROTOCOL#Read error")
  let (status, app2) ← openFile root p.app2 app2Name
  lift (assert status "EFI_FILE_PROTOCOL#Read error")
  let (status, app3) ← openFile root p.app3 app3Name
  lift (assert status "EFI_FILE_PROTOCOL#Read error")
  return { kernel, kernelElf, app1, app2, app3 }

/-- One handle. -/
def scanHandle (b : Behind) (stale : Nat → Mem) (h : Handle) (p : FilePointers) :
    Logged OpenCall Halt FilePointers := do
  lift (assert h.protocolStatus "BootServices#HandleProtocol error")
  lift (assert h.volumeStatus "OpenVolume error")
  let kernelFound ← lift (scanDirectory stale 0 false h.volume.entries)
  if kernelFound then openFiles b h.volume p else return p

/-- The loop over the handles from the `i`-th on. -/
def scanHandles (b : Behind) (stale : Nat → Nat → Mem) (i : Nat) :
    List Handle → FilePointers → Logged OpenCall Halt FilePointers
  | [],      p => return p
  | h :: hs, p => do
      let p ← scanHandle b (stale i) h p
      scanHandles b stale (i + 1) hs p

/-- The scan, from the status and the handles that `LocateHandleBuffer` gives. -/
def scanVolumes (b : Behind) (stale : Nat → Nat → Mem) (status : UInt64) (handles : List Handle) :
    Logged OpenCall Halt FilePointers := do
  lift (assert status "BootServices#LocateHandleBuffer error")
  scanHandles b stale 0 handles
    { kernel := none, kernelElf := none, app1 := none, app2 := none, app3 := none }

/-! ## What the names say -/

/-- The volume has a file named `kernel`. -/
def Volume.HasKernel (v : Volume) : Prop := ∃ e ∈ v.entries, e.name = kernelName

/-- The volume has a file whose name starts with `ker`. -/
def Volume.LooksLikeKernel (v : Volume) : Prop := ∃ e ∈ v.entries, kernelName.take 3 <+: e.name

/-- **The boot volume is chosen by the exact file name.** The scan of a directory finds the kernel where
    there is one; files are opened on such volumes only, `kernel` on one of them whenever there is one, and
    the scan of another volume neither fails nor changes anything. -/
structure ChoosesByName (b : Behind) (stale : Nat → Nat → Mem) (vs : List Volume) : Prop where
  found : ∀ v ∈ vs, ∀ i, ∃ kernelFound, scanDirectory (stale i) 0 false v.entries = .ok kernelFound ∧
    (kernelFound = true ↔ v.HasKernel)
  opened : (∃ v ∈ vs, v.HasKernel) → ∃ c ∈ (scanVolumes b stale 0 (vs.map Volume.handle)).log,
    c.volume ∈ vs ∧ c.volume.HasKernel ∧ c.name = kernelName ∧ c.status = 0
  pointer : (∃ v ∈ vs, v.HasKernel) → ∀ p, (scanVolumes b stale 0 (vs.map Volume.handle)).result = .ok p →
    ∃ v ∈ vs, v.HasKernel ∧ p.kernel = some (v.openFile kernelName).2
  onlyThere : ∀ c ∈ (scanVolumes b stale 0 (vs.map Volume.handle)).log, c.volume.HasKernel
  neverStops : ∀ v ∈ vs, ¬ v.HasKernel → ∀ i p,
    scanHandle b (stale i) v.handle p = { log := [], result := .ok p }

/-! ## Names in the buffer -/

variable {e : Entry} {v : Volume} {b : Behind} {p : FilePointers}

theorem wideBytes_length (cs : List UInt16) : (wideBytes cs).length = 2 * cs.length := by
  induction cs with
  | nil => rfl
  | cons c cs ih =>
      rw [wideBytes, List.flatMap_cons, List.length_append, leBytes_length, List.length_cons]
      rw [wideBytes] at ih
      omega

theorem Entry.info_length (e : Entry) : e.info.length = 80 + 2 * (e.name.length + 1) := by
  rw [Entry.info, List.length_append, e.header_length, wideBytes_length, List.length_append,
    List.length_singleton]

/-- An entry that fits is read whole. -/
theorem Entry.read_eq (e : Entry) (buffer : Mem) :
    ∃ size, size ≠ 0 ∧ e.read 256 buffer = (0, size, writeBytes buffer 0 e.info) := by
  have hlen := e.info_length
  have hfits := e.fits
  have hsize : (UInt64.ofNat e.info.length).toNat = e.info.length :=
    UInt64.toNat_ofNat_of_lt (Nat.lt_of_le_of_lt (show _ ≤ 256 by omega) (by decide))
  refine ⟨_, ?_, if_pos ?_⟩
  · intro hzero
    rw [hzero] at hsize
    have hpos : (0 : UInt64).toNat = 0 := rfl
    omega
  · rw [UInt64.le_iff_toNat_le, hsize]
    exact Nat.le_trans (by omega) (Nat.le_refl 256)

/-- The bytes at `FileName` are those of the name and its terminator. -/
theorem Entry.fileName_byte (e : Entry) (buffer : Mem) {i : Nat}
    (hi : i < (wideBytes (e.name ++ [0])).length) :
    writeBytes buffer 0 e.info (80 + i) = (wideBytes (e.name ++ [0]))[i] := by
  have hlt : 80 + i < (e.header ++ wideBytes (e.name ++ [0])).length := by
    rw [List.length_append, e.header_length]
    omega
  have hinside := writeBytes_inside (m := buffer) (a := 0) hlt
  rw [Nat.zero_add, List.getElem_append_right (by rw [e.header_length]; omega)] at hinside
  rw [Entry.info, hinside]
  congr 1
  rw [e.header_length]
  omega

theorem wideBytes_cons (c : UInt16) (cs : List UInt16) :
    wideBytes (c :: cs) = UInt8.ofNat c.toNat :: UInt8.ofNat (c.toNat / 256) :: wideBytes cs := rfl

/-- A wide character is its two bytes. -/
theorem wide_eq_iff (c d : UInt16) :
    UInt8.ofNat c.toNat = UInt8.ofNat d.toNat ∧
      UInt8.ofNat (c.toNat / 256) = UInt8.ofNat (d.toNat / 256) ↔ c = d := by
  constructor
  · rintro ⟨hlow, hhigh⟩
    have hc : leNat (leBytes 2 c.toNat) = c.toNat :=
      (leNat_leBytes 2 c.toNat).trans (Nat.mod_eq_of_lt c.toNat_lt)
    have hd : leNat (leBytes 2 d.toNat) = d.toNat :=
      (leNat_leBytes 2 d.toNat).trans (Nat.mod_eq_of_lt d.toNat_lt)
    rw [← UInt16.toNat_inj, ← hc, ← hd]
    simp only [leBytes, hlow, hhigh]
  · rintro rfl
    exact ⟨rfl, rfl⟩

/-- **Comparing bytes with a name**: as many characters as there are in `ref` are compared, and a shorter
    name is told apart by its terminator, whatever lies behind it. -/
theorem bytes_eq_iff {f : Mem} {name ref : List UInt16} (href : ∀ c ∈ ref, c ≠ 0)
    (hf : ∀ i (hi : i < (wideBytes (name ++ [0])).length), f i = (wideBytes (name ++ [0]))[i]) :
    (∀ i < 2 * ref.length, f i = (wideBytes ref).getD i 0) ↔ ref <+: name := by
  induction ref generalizing name f with
  | nil => exact ⟨fun _ => List.nil_prefix, fun _ i hi => absurd hi (Nat.not_lt_zero i)⟩
  | cons r rs ih =>
      have hr : r ≠ 0 := href r List.mem_cons_self
      have hsplit : (∀ i < 2 * (r :: rs).length, f i = (wideBytes (r :: rs)).getD i 0) ↔
          (f 0 = UInt8.ofNat r.toNat ∧ f 1 = UInt8.ofNat (r.toNat / 256)) ∧
            ∀ i < 2 * rs.length, f (i + 2) = (wideBytes rs).getD i 0 := by
        rw [wideBytes_cons, List.length_cons]
        constructor
        · intro h
          exact ⟨⟨h 0 (by omega), h 1 (by omega)⟩, fun i hi => h (i + 2) (by omega)⟩
        · rintro ⟨⟨h0, h1⟩, hrest⟩ i hi
          match i with
          | 0     => exact h0
          | 1     => exact h1
          | i + 2 => exact hrest i (by omega)
      rw [hsplit]
      cases name with
      | nil =>
          have h0 : f 0 = UInt8.ofNat (0 : UInt16).toNat := hf 0 (by decide)
          have h1 : f 1 = UInt8.ofNat ((0 : UInt16).toNat / 256) := hf 1 (by decide)
          rw [h0, h1, wide_eq_iff]
          constructor
          · rintro ⟨rfl, -⟩
            exact absurd rfl hr
          · intro h
            cases List.prefix_nil.mp h
      | cons c cs =>
          have hlen : (wideBytes (c :: cs ++ [0])).length = (wideBytes (cs ++ [0])).length + 2 := rfl
          have h0 : f 0 = UInt8.ofNat c.toNat := hf 0 (by omega)
          have h1 : f 1 = UInt8.ofNat (c.toNat / 256) := hf 1 (by omega)
          have hrest := ih (f := fun i => f (i + 2)) (fun d hd => href d (List.mem_cons_of_mem r hd))
            (fun i hi => hf (i + 2) (by omega))
          rw [h0, h1, wide_eq_iff, hrest, List.cons_prefix_cons]
          constructor
          · rintro ⟨rfl, h⟩
            exact ⟨rfl, h⟩
          · rintro ⟨rfl, h⟩
            exact ⟨rfl, h⟩

/-- **The test of the scan**: the name starts with `ker`. -/
theorem compare_fileName (e : Entry) (buffer : Mem) :
    compare (fun i => writeBytes buffer 0 e.info (80 + i)) (fun i => (wideBytes kernelName).getD i 0)
      kernelNameLen = decide (kernelName.take 3 <+: e.name) := by
  have hsplit : wideBytes kernelName = wideBytes (kernelName.take 3) ++ wideBytes (kernelName.drop 3) := by
    rw [wideBytes, wideBytes, wideBytes, ← List.flatMap_append, List.take_append_drop]
  have hker : ∀ i < 6, (wideBytes kernelName).getD i 0 = (wideBytes (kernelName.take 3)).getD i 0 := by
    intro i hi
    rw [hsplit, List.getD_append _ _ _ _ (by rw [wideBytes_length]; exact hi)]
  have hnonzero : ∀ c ∈ kernelName.take 3, c ≠ 0 := by simp [kernelName]
  have hchars := bytes_eq_iff hnonzero (fun i hi => e.fileName_byte buffer hi)
  rw [Bool.eq_iff_iff, decide_eq_true_iff, ← hchars, compare, List.all_eq_true]
  constructor
  · intro h i hi
    rw [← hker i hi]
    exact beq_iff_eq.mp (h i (List.mem_range.mpr hi))
  · intro h i hi
    rw [beq_iff_eq, hker i (List.mem_range.mp hi)]
    exact h i (List.mem_range.mp hi)

/-! ## The scan of a directory -/

/-- **What the scan finds** in any directory: a name that starts with `ker`. -/
theorem scanDirectory_eq (stale : Nat → Mem) (k : Nat) (kernelFound : Bool) (es : List Entry) :
    scanDirectory stale k kernelFound es
      = .ok (kernelFound || es.any fun e => decide (kernelName.take 3 <+: e.name)) := by
  induction es generalizing k kernelFound with
  | nil => rw [List.any_nil, Bool.or_false]; rfl
  | cons e es ih =>
      obtain ⟨size, hsize, hread⟩ := e.read_eq (stale k)
      have hstep : scanDirectory stale k kernelFound (e :: es)
          = scanDirectory stale (k + 1) (kernelFound || decide (kernelName.take 3 <+: e.name)) es := by
        rw [← compare_fileName e (stale k), scanDirectory, hread]
        exact if_neg hsize
      rw [hstep, ih, List.any_cons, Bool.or_assoc]

theorem any_eq_true_iff (v : Volume) :
    (v.entries.any fun e => decide (kernelName.take 3 <+: e.name)) = true ↔ v.LooksLikeKernel := by
  simp [Volume.LooksLikeKernel]

theorem Volume.HasKernel.looks (h : v.HasKernel) : v.LooksLikeKernel := by
  obtain ⟨e, he, hname⟩ := h
  exact ⟨e, he, by rw [hname]; exact List.take_prefix 3 kernelName⟩

/-- Opening a volume and reading its directory. -/
theorem scanHandle_eq (b : Behind) (stale : Nat → Mem) (v : Volume) (p : FilePointers) :
    scanHandle b stale v.handle p
      = if (v.entries.any fun e => decide (kernelName.take 3 <+: e.name)) then openFiles b v p
        else pure p := by
  show (lift (.ok ()) >>= fun _ => lift (.ok ()) >>= fun _ =>
    lift (scanDirectory stale 0 false v.entries) >>= fun kernelFound =>
      if kernelFound then openFiles b v p else pure p) = _
  rw [lift_ok_bind, lift_ok_bind, scanDirectory_eq, lift_ok_bind, Bool.false_or]

theorem scanHandle_found (stale : Nat → Mem) (p : FilePointers) (h : v.LooksLikeKernel) :
    scanHandle b stale v.handle p = openFiles b v p := by
  rw [scanHandle_eq, if_pos ((any_eq_true_iff v).mpr h)]

theorem scanHandle_other (stale : Nat → Mem) (p : FilePointers) (h : ¬ v.LooksLikeKernel) :
    scanHandle b stale v.handle p = { log := [], result := .ok p } := by
  rw [scanHandle_eq, if_neg (fun hany => h ((any_eq_true_iff v).mp hany))]
  rfl

/-! ## The files of a volume -/

/-- The names that are opened on a volume. -/
def namesOpened (b : Behind) : List (List UInt16) :=
  [kernelName ++ b.kernel, kernelElfName ++ b.kernelElf, app1Name, app2Name, app3Name]

theorem openFile_logs {file : Option File} {name : List UInt16} (h : name ∈ namesOpened b) :
    (openFile v file name).Logs fun c => c.volume = v ∧ c.name ∈ namesOpened b :=
  (logs_tell ⟨rfl, h⟩).bind fun _ => logs_pure _

/-- Only the five names are opened, on the volume at hand. -/
theorem openFiles_logs (b : Behind) (v : Volume) (p : FilePointers) :
    (openFiles b v p).Logs fun c => c.volume = v ∧ c.name ∈ namesOpened b := by
  unfold openFiles
  refine (openFile_logs (by simp [namesOpened])).bind fun _ => (logs_lift _).bind fun _ => ?_
  refine (openFile_logs (by simp [namesOpened])).bind fun _ => ?_
  refine (openFile_logs (by simp [namesOpened])).bind fun _ => (logs_lift _).bind fun _ => ?_
  refine (openFile_logs (by simp [namesOpened])).bind fun _ => (logs_lift _).bind fun _ => ?_
  refine (openFile_logs (by simp [namesOpened])).bind fun _ => (logs_lift _).bind fun _ => ?_
  exact logs_pure _

theorem openFile_result (v : Volume) (file : Option File) (name : List UInt16) :
    (openFile v file name).result
      = .ok ((v.openFile name).1, if (v.openFile name).1 = 0 then some (v.openFile name).2 else file) :=
  rfl

/-- The kernel is opened first. -/
theorem openFiles_kernel (b : Behind) (v : Volume) (p : FilePointers) :
    { volume := v, name := kernelName ++ b.kernel, status := (v.openFile (kernelName ++ b.kernel)).1 }
      ∈ (openFiles b v p).log := by
  unfold openFiles
  exact mem_log_bind.mpr (Or.inl (List.mem_singleton.mpr rfl))

/-- Where no status stops the boot, `kernel_file` is the file opened last. -/
theorem openFiles_pointer {p' : FilePointers} (h : (openFiles b v p).result = .ok p') :
    p'.kernel = some (v.openFile (kernelName ++ b.kernel)).2 := by
  unfold openFiles at h
  obtain ⟨⟨status, kernel⟩, hkernel, h⟩ := result_bind_eq_ok.mp h
  obtain ⟨⟨⟩, hassert, h⟩ := result_bind_eq_ok.mp h
  obtain ⟨⟨_, kernelElf⟩, -, h⟩ := result_bind_eq_ok.mp h
  obtain ⟨⟨_, app1⟩, -, h⟩ := result_bind_eq_ok.mp h
  obtain ⟨⟨⟩, -, h⟩ := result_bind_eq_ok.mp h
  obtain ⟨⟨_, app2⟩, -, h⟩ := result_bind_eq_ok.mp h
  obtain ⟨⟨⟩, -, h⟩ := result_bind_eq_ok.mp h
  obtain ⟨⟨_, app3⟩, -, h⟩ := result_bind_eq_ok.mp h
  obtain ⟨⟨⟩, -, h⟩ := result_bind_eq_ok.mp h
  cases h
  rw [openFile_result] at hkernel
  cases hkernel
  have hstatus : (v.openFile (kernelName ++ b.kernel)).1 = 0 := by
    by_contra hne
    have herror : assert (v.openFile (kernelName ++ b.kernel)).1 "EFI_FILE_PROTOCOL#Read error"
        = .error (.spin "EFI_FILE_PROTOCOL#Read error" _) := if_pos hne
    cases hassert.symm.trans herror
  exact if_pos hstatus

/-! ## The scan of the volumes -/

variable {vs : List Volume} {stale : Nat → Nat → Mem}

theorem scanHandles_cons (b : Behind) (stale : Nat → Nat → Mem) (i : Nat) (v : Volume) (vs : List Volume)
    (p : FilePointers) :
    scanHandles b stale i ((v :: vs).map Volume.handle) p
      = scanHandle b (stale i) v.handle p >>= scanHandles b stale (i + 1) (vs.map Volume.handle) := rfl

/-- A volume in which nothing is found is passed over. -/
theorem scanHandles_other (i : Nat) (p : FilePointers) (h : ¬ v.LooksLikeKernel) :
    scanHandles b stale i ((v :: vs).map Volume.handle) p
      = scanHandles b stale (i + 1) (vs.map Volume.handle) p := by
  rw [scanHandles_cons, scanHandle_other _ _ h]
  exact lift_ok_bind p _

/-- Files are opened only where something is found. -/
theorem scanHandles_logs (i : Nat) (p : FilePointers) :
    (scanHandles b stale i (vs.map Volume.handle) p).Logs fun c =>
      (c.volume ∈ vs ∧ c.volume.LooksLikeKernel) ∧ c.name ∈ namesOpened b := by
  induction vs generalizing i p with
  | nil => exact logs_pure p
  | cons v vs ih =>
      have hrest : ∀ i p, (scanHandles b stale i (vs.map Volume.handle) p).Logs fun c =>
          (c.volume ∈ v :: vs ∧ c.volume.LooksLikeKernel) ∧ c.name ∈ namesOpened b := by
        intro i p c hc
        obtain ⟨⟨hmem, hlooks⟩, hname⟩ := ih i p c hc
        exact ⟨⟨List.mem_cons_of_mem v hmem, hlooks⟩, hname⟩
      by_cases hlooks : v.LooksLikeKernel
      · rw [scanHandles_cons, scanHandle_found _ _ hlooks]
        refine Logs.bind ?_ fun p' => hrest _ p'
        intro c hc
        obtain ⟨hvolume, hname⟩ := openFiles_logs b v p c hc
        rw [hvolume]
        exact ⟨⟨List.mem_cons_self, hlooks⟩, hname⟩
      · rw [scanHandles_other i p hlooks]
        exact hrest _ p

/-- On the first volume where something is found, the kernel is opened. -/
theorem scanHandles_opens (b : Behind) (stale : Nat → Nat → Mem) (i : Nat) (p : FilePointers)
    (h : ∃ v ∈ vs, v.LooksLikeKernel) :
    ∃ v ∈ vs, v.LooksLikeKernel ∧
      { volume := v, name := kernelName ++ b.kernel, status := (v.openFile (kernelName ++ b.kernel)).1 }
        ∈ (scanHandles b stale i (vs.map Volume.handle) p).log := by
  induction vs generalizing i p with
  | nil =>
      obtain ⟨v, hv, -⟩ := h
      cases hv
  | cons v vs ih =>
      by_cases hlooks : v.LooksLikeKernel
      · refine ⟨v, List.mem_cons_self, hlooks, ?_⟩
        rw [scanHandles_cons, scanHandle_found _ _ hlooks]
        exact mem_log_bind.mpr (Or.inl (openFiles_kernel b v p))
      · obtain ⟨v', hv', hlooks'⟩ := h
        have hrest : ∃ v' ∈ vs, v'.LooksLikeKernel := by
          rcases List.mem_cons.mp hv' with rfl | hv'
          · exact absurd hlooks' hlooks
          · exact ⟨v', hv', hlooks'⟩
        obtain ⟨w, hw, hfound, hlog⟩ := ih (i + 1) p hrest
        rw [scanHandles_other i p hlooks]
        exact ⟨w, List.mem_cons_of_mem v hw, hfound, hlog⟩

/-- A scan that is not stopped leaves in `kernel_file` the kernel of a volume where something is found, or
    nothing new. -/
theorem scanHandles_pointer (i : Nat) {p p' : FilePointers}
    (h : (scanHandles b stale i (vs.map Volume.handle) p).result = .ok p') :
    (∃ v ∈ vs, v.LooksLikeKernel ∧ p'.kernel = some (v.openFile (kernelName ++ b.kernel)).2) ∨
      (∀ v ∈ vs, ¬ v.LooksLikeKernel) ∧ p' = p := by
  induction vs generalizing i p with
  | nil =>
      cases h
      exact Or.inr ⟨fun v hv => absurd hv List.not_mem_nil, rfl⟩
  | cons v vs ih =>
      by_cases hlooks : v.LooksLikeKernel
      · rw [scanHandles_cons, scanHandle_found _ _ hlooks] at h
        obtain ⟨q, hq, h⟩ := result_bind_eq_ok.mp h
        rcases ih (i + 1) h with ⟨w, hw, hfound, hkernel⟩ | ⟨-, rfl⟩
        · exact Or.inl ⟨w, List.mem_cons_of_mem v hw, hfound, hkernel⟩
        · exact Or.inl ⟨v, List.mem_cons_self, hlooks, openFiles_pointer hq⟩
      · rw [scanHandles_other i p hlooks] at h
        rcases ih (i + 1) h with ⟨w, hw, hfound, hkernel⟩ | ⟨hnone, rfl⟩
        · exact Or.inl ⟨w, List.mem_cons_of_mem v hw, hfound, hkernel⟩
        · refine Or.inr ⟨fun w hw => ?_, rfl⟩
          rcases List.mem_cons.mp hw with rfl | hw
          · exact hlooks
          · exact hnone w hw

theorem scanVolumes_eq (b : Behind) (stale : Nat → Nat → Mem) (handles : List Handle) :
    scanVolumes b stale 0 handles = scanHandles b stale 0 handles
      { kernel := none, kernelElf := none, app1 := none, app2 := none, app3 := none } :=
  lift_ok_bind () _

/-! ## Choosing by the exact name -/

/-- Of the names that are opened, only the first can be `kernel`, and only with its terminator. -/
theorem behind_eq_nil (h : kernelName ∈ namesOpened b) : b.kernel = [] := by
  simp only [namesOpened, List.mem_cons, List.not_mem_nil, or_false] at h
  rcases h with h | h | h | h | h
  · exact List.self_eq_append_right.mp h
  · have hlength := congrArg List.length h
    rw [List.length_append] at hlength
    have helf : kernelElfName.length = 10 := rfl
    have hkernel : kernelName.length = 6 := rfl
    omega
  · exact absurd h (by decide)
  · exact absurd h (by decide)
  · exact absurd h (by decide)

theorem ChoosesByName.exact (h : ChoosesByName b stale vs) (hv : v ∈ vs) (hlooks : v.LooksLikeKernel) :
    v.HasKernel := by
  obtain ⟨kernelFound, hscan, hiff⟩ := h.found v hv 0
  rw [scanDirectory_eq, Bool.false_or] at hscan
  cases hscan
  exact hiff.mp ((any_eq_true_iff v).mpr hlooks)

theorem ChoosesByName.terminated (h : ChoosesByName b stale vs) (hkernel : ∃ v ∈ vs, v.HasKernel) :
    b.kernel = [] := by
  obtain ⟨c, hc, -, -, hname, -⟩ := h.opened hkernel
  rw [scanVolumes_eq] at hc
  have hopened := (scanHandles_logs 0 _ c hc).2
  rw [hname] at hopened
  exact behind_eq_nil hopened

/-- **The boot volume is chosen by the exact name exactly when** every volume with a name that starts with
    `ker` has a file named `kernel`, and `KERNEL_NAME` is followed by a terminator where that matters. -/
theorem choosesByName_iff (b : Behind) (stale : Nat → Nat → Mem) (vs : List Volume) :
    ChoosesByName b stale vs ↔
      (∀ v ∈ vs, v.LooksLikeKernel → v.HasKernel) ∧ ((∃ v ∈ vs, v.HasKernel) → b.kernel = []) := by
  constructor
  · exact fun h => ⟨fun v hv => h.exact hv, h.terminated⟩
  · rintro ⟨hexact, hterminated⟩
    have hsome : (∃ v ∈ vs, v.HasKernel) → ∃ v ∈ vs, v.LooksLikeKernel := by
      rintro ⟨v, hv, hkernel⟩
      exact ⟨v, hv, hkernel.looks⟩
    refine ⟨?_, ?_, ?_, ?_, ?_⟩
    · intro v hv i
      refine ⟨_, scanDirectory_eq (stale i) 0 false v.entries, ?_⟩
      rw [Bool.false_or, any_eq_true_iff]
      exact ⟨hexact v hv, fun h => h.looks⟩
    · intro hkernel
      obtain ⟨v, hv, hlooks, hlog⟩ := scanHandles_opens b stale 0 _ (hsome hkernel)
      rw [hterminated hkernel, List.append_nil] at hlog
      obtain ⟨e, he, hname⟩ := hexact v hv hlooks
      rw [scanVolumes_eq]
      refine ⟨_, hlog, hv, hexact v hv hlooks, rfl, ?_⟩
      rw [← hname]
      exact v.opens e he
    · intro hkernel p hp
      rw [scanVolumes_eq] at hp
      rcases scanHandles_pointer 0 hp with ⟨v, hv, hlooks, hpointer⟩ | ⟨hnone, -⟩
      · rw [hterminated hkernel, List.append_nil] at hpointer
        exact ⟨v, hv, hexact v hv hlooks, hpointer⟩
      · obtain ⟨v, hv, hlooks⟩ := hsome hkernel
        exact absurd hlooks (hnone v hv)
    · intro c hc
      rw [scanVolumes_eq] at hc
      obtain ⟨⟨hmem, hlooks⟩, -⟩ := scanHandles_logs 0 _ c hc
      exact hexact _ hmem hlooks
    · intro v hv hnot i p
      exact scanHandle_other (stale i) p fun hlooks => hnot (hexact v hv hlooks)

/-- An entry for `kernel.elf`. -/
def elfEntry : Entry where
  header := List.replicate 80 0
  name := kernelElfName
  header_length := List.length_replicate
  name_nonzero := by simp [kernelElfName]
  fits := by decide

def efiNotFound : UInt64 := 0x800000000000000e

theorem empty_size_lt : ([] : List UInt8).length < 2 ^ 64 := by decide

/-- A volume with nothing but an empty `kernel.elf`. -/
def elfOnly : Volume where
  entries := [elfEntry]
  openFile name :=
    (if name = kernelElfName then 0 else efiNotFound,
      { data := [], position := 0, calls := 0, answer := fun _ _ => (0, 0), size_lt := empty_size_lt })
  opens := by
    intro e he
    rw [List.mem_singleton.mp he]
    rfl

theorem elfOnly_looks : elfOnly.LooksLikeKernel := ⟨elfEntry, List.mem_singleton.mpr rfl, by decide⟩

theorem elfOnly_hasNot : ¬ elfOnly.HasKernel := by
  rintro ⟨e, he, hname⟩
  rw [List.mem_singleton.mp he] at hname
  exact absurd hname (by decide)

/-- On a volume with `kernel.elf` alone the scan finds a kernel, and the boot stops. -/
theorem scan_takes_lookalike :
    (¬ ∀ (b : Behind) (stale : Nat → Nat → Mem) (vs : List Volume), ChoosesByName b stale vs) ∧
      (scanVolumes ⟨[], []⟩ (fun _ _ _ => 0) 0 [elfOnly.handle]).result
        = .error (.spin "EFI_FILE_PROTOCOL#Read error" efiNotFound) := by
  constructor
  · intro h
    have hsearch := h ⟨[], []⟩ (fun _ _ _ => 0) [elfOnly]
    exact elfOnly_hasNot (hsearch.exact (List.mem_singleton.mpr rfl) elfOnly_looks)
  · have hscan := scanHandles_cons ⟨[], []⟩ (fun _ _ _ => 0) 0 elfOnly []
      { kernel := none, kernelElf := none, app1 := none, app2 := none, app3 := none }
    rw [scanHandle_found _ _ elfOnly_looks] at hscan
    rw [scanVolumes_eq]
    exact congrArg Logged.result hscan

end Boot
end SysproKernel

import SysproKernel.Console
import SysproKernel.Lib.Driver

/-!
# `Virtio.Layout` — where virtio.c keeps its queues and buffers

A split virtqueue is three consecutive areas at a fixed address: the descriptor table, the available ring
and, from the next page on, the used ring. Their offsets depend on the queue size the device reports, so
the accessors of the source are macros over the run-time variable `QUEUE_SIZE`; here they take it as an
argument. `Buffers` holds what the linker decides: the addresses of `tx_buffer` and `rx_buffer`.
-/

namespace SysproKernel
namespace Virtio

open Lib.ByteMem Lib.Loop Lib.Driver

/-! ## Constants -/

def bufferLen : Nat := 0x1000
def nRxBuffers : Nat := 0x10

def queueIdRx : Nat := 0
def queueIdTx : Nat := 1
def virtqRx : Nat := 0x70ff0000
def virtqTx : Nat := 0x71ff0000

def offsetDevFeats : Nat := 0
def offsetDriverFeats : Nat := 4
def offsetQueueAddr : Nat := 8
def offsetQueueSize : Nat := 12
def offsetQueueSel : Nat := 14
def offsetQueueNotify : Nat := 16
def offsetStatus : Nat := 18

def statusAcknowledge : Nat := 1
def statusDriver : Nat := 2
def statusFeaturesOk : Nat := 8
def statusDriverOk : Nat := 4

def virtioNetFCsum : Nat := 1 <<< 0
def virtioNetFMac : Nat := 1 <<< 5

def sizeofVirtqDesc : Nat := 16
def sizeofVirtqUsedElem : Nat := 8
def sizeofVirtioNetHdr : Nat := 10
def sizeofEthernetFrame : Nat := 14

/-! ## Virtqueues -/

/-- `ALIGN(x)`: the first multiple of a page above `x`. -/
def align (x : Nat) : Nat := (x + 0x1000) / 0x1000 * 0x1000

/-- `&VIRTQ_DESC(q)[i]`. -/
def virtqDesc (q i : Nat) : Nat := q + sizeofVirtqDesc * i

/-- `&VIRTQ_AVAIL(q)`. -/
def virtqAvail (queueSize q : Nat) : Nat := q + queueSize * sizeofVirtqDesc

/-- `&VIRTQ_AVAIL(q).idx`. -/
def availIdx (queueSize q : Nat) : Nat := virtqAvail queueSize q + 2

/-- `&VIRTQ_AVAIL(q).ring[i]`. -/
def availRing (queueSize q i : Nat) : Nat := virtqAvail queueSize q + 4 + 2 * i

/-- `&VIRTQ_USED(q)`. -/
def virtqUsed (queueSize q : Nat) : Nat := q + align (queueSize * sizeofVirtqDesc + 2 * (3 + queueSize))

/-- `&VIRTQ_USED(q).idx`. -/
def usedIdx (queueSize q : Nat) : Nat := virtqUsed queueSize q + 2

/-- `&VIRTQ_USED(q).ring[i]`. -/
def usedRing (queueSize q i : Nat) : Nat := virtqUsed queueSize q + 4 + sizeofVirtqUsedElem * i

/-- `VIRTQ_SIZE`. -/
def virtqSize (queueSize : Nat) : Nat :=
  align (queueSize * sizeofVirtqDesc + 2 * (3 + queueSize)) +
    align (2 * 3 + sizeofVirtqUsedElem * queueSize)

/-- `virtq_desc`. -/
structure VirtqDesc where
  addr : Nat
  len : Nat
  flags : Nat
  next : Nat
  deriving DecidableEq, Repr

/-- Descriptor `i` of the queue as it stands in memory. -/
def loadDesc (m : Mem) (q i : Nat) : VirtqDesc :=
  { addr := load m (virtqDesc q i) 8
    len := load m (virtqDesc q i + 8) 4
    flags := load m (virtqDesc q i + 12) 2
    next := load m (virtqDesc q i + 14) 2 }

/-- `virtq_used_elem`. -/
structure VirtqUsedElem where
  id : Nat
  len : Nat
  deriving DecidableEq, Repr

/-- Element `i` of the used ring as it stands in memory. -/
def loadUsed (m : Mem) (queueSize q i : Nat) : VirtqUsedElem :=
  { id := load m (usedRing queueSize q i) 4
    len := load m (usedRing queueSize q i + 4) 4 }

theorem loadDesc_congr {m m' : Mem} {q i : Nat}
    (h : Set.EqOn m m' (Set.Ico (virtqDesc q i) (virtqDesc q i + 16))) :
    loadDesc m q i = loadDesc m' q i := by
  have hsub : ∀ o n, o + n ≤ 16 → load m (virtqDesc q i + o) n = load m' (virtqDesc q i + o) n := by
    intro o n hon
    exact load_congr (h.mono (Set.Ico_subset_Ico (by omega) (by omega)))
  have haddr := hsub 0 8 (by omega)
  rw [Nat.add_zero] at haddr
  rw [loadDesc, loadDesc, haddr, hsub 8 4 (by omega), hsub 12 2 (by omega), hsub 14 2 (by omega)]

theorem loadUsed_congr {m m' : Mem} {queueSize q i : Nat}
    (h : Set.EqOn m m' (Set.Ico (usedRing queueSize q i) (usedRing queueSize q i + 8))) :
    loadUsed m queueSize q i = loadUsed m' queueSize q i := by
  rw [loadUsed, loadUsed, load_congr (h.mono (Set.Ico_subset_Ico (by omega) (by omega))),
    load_congr (h.mono (Set.Ico_subset_Ico (by omega) (by omega)))]

/-- An element of the used ring that is stored. -/
theorem loadUsed_stored (m : Mem) {queueSize q i id len : Nat} (hid : id < 256 ^ 4) (hlen : len < 256 ^ 4) :
    loadUsed (store (store m (usedRing queueSize q i) 4 id) (usedRing queueSize q i + 4) 4 len)
      queueSize q i = ⟨id, len⟩ := by
  rw [loadUsed, load_store_self, load_store_disjoint (by omega), load_store_self,
    Nat.mod_eq_of_lt hid, Nat.mod_eq_of_lt hlen]

theorem lt_align (x : Nat) : x < align x := by
  unfold align
  omega

theorem align_le (x : Nat) : align x ≤ x + 0x1000 := by
  unfold align
  omega

theorem virtqDesc_eq (q i : Nat) : virtqDesc q i = q + 16 * i := rfl

theorem availIdx_eq (queueSize q : Nat) : availIdx queueSize q = q + 16 * queueSize + 2 := by
  rw [availIdx, virtqAvail, sizeofVirtqDesc, Nat.mul_comm]

theorem availRing_eq (queueSize q i : Nat) :
    availRing queueSize q i = q + 16 * queueSize + 4 + 2 * i := by
  rw [availRing, virtqAvail, sizeofVirtqDesc, Nat.mul_comm queueSize]

theorem usedIdx_eq (queueSize q : Nat) : usedIdx queueSize q = virtqUsed queueSize q + 2 := rfl

theorem usedRing_eq (queueSize q i : Nat) :
    usedRing queueSize q i = virtqUsed queueSize q + 4 + 8 * i := rfl

/-- The used ring starts behind the available ring, on a later page than the queue, and ends inside the
    queue's region. -/
theorem virtqUsed_bounds (queueSize q : Nat) :
    q + 18 * queueSize + 6 < virtqUsed queueSize q ∧ q + 0x1000 ≤ virtqUsed queueSize q ∧
      virtqUsed queueSize q + 6 + 8 * queueSize < q + virtqSize queueSize := by
  have h₁ := lt_align (queueSize * sizeofVirtqDesc + 2 * (3 + queueSize))
  have h₂ := lt_align (2 * 3 + sizeofVirtqUsedElem * queueSize)
  have h₃ : 0x1000 ≤ align (queueSize * sizeofVirtqDesc + 2 * (3 + queueSize)) := by
    unfold align
    omega
  simp only [virtqUsed, virtqSize, sizeofVirtqDesc, sizeofVirtqUsedElem] at *
  omega

/-- A queue occupies less than 16 MiB, so the receive queue ends below the transmit queue and both end
    below 4 GiB. -/
theorem virtqSize_lt {queueSize : Nat} (h : queueSize < 0x10000) :
    virtqRx + virtqSize queueSize < virtqTx ∧ virtqTx + virtqSize queueSize < 0x100000000 := by
  have h₁ := align_le (queueSize * sizeofVirtqDesc + 2 * (3 + queueSize))
  have h₂ := align_le (2 * 3 + sizeofVirtqUsedElem * queueSize)
  simp only [virtqSize, virtqRx, virtqTx, sizeofVirtqDesc, sizeofVirtqUsedElem] at *
  omega

/-! ## Buffers -/

/-- The addresses of `tx_buffer` and `rx_buffer`, as the linker script places them: page-aligned, inside
    the kernel's 16 MiB and apart from each other. -/
structure Buffers where
  txBuffer : Nat
  rxBuffer : Nat
  tx_aligned : txBuffer % 0x1000 = 0
  rx_aligned : rxBuffer % 0x1000 = 0
  tx_window : 0x100000000 ≤ txBuffer ∧ txBuffer + 0x1000 ≤ 0x101000000
  rx_window : 0x100000000 ≤ rxBuffer ∧ rxBuffer + 0x10000 ≤ 0x101000000
  disjoint : txBuffer + 0x1000 ≤ rxBuffer ∨ rxBuffer + 0x10000 ≤ txBuffer

/-- `rx_buffer + i`. -/
def Buffers.rx (B : Buffers) (i : Nat) : Nat := B.rxBuffer + bufferLen * i

/-- An RX buffer lies above both queues and fits into 64 bits. -/
theorem Buffers.rx_range (B : Buffers) {i : Nat} (hi : i < 16) :
    0x100000000 ≤ B.rx i ∧ B.rx i + 0x1000 ≤ 0x101000000 := by
  have h := B.rx_window
  simp only [Buffers.rx, bufferLen]
  omega

theorem Buffers.rx_disjoint (B : Buffers) {i j : Nat} (h : i ≠ j) :
    B.rx i + 0x1000 ≤ B.rx j ∨ B.rx j + 0x1000 ≤ B.rx i := by
  simp only [Buffers.rx, bufferLen]
  omega

/-! ## Stores of whole descriptors -/

/-- `VIRTQ_DESC(q)[i] = desc;`, field by field. -/
def storeDesc (q i : Nat) (desc : VirtqDesc) : Prog Out Unit := do
  Prog.store (virtqDesc q i) 8 desc.addr
  Prog.store (virtqDesc q i + 8) 4 desc.len
  Prog.store (virtqDesc q i + 12) 2 desc.flags
  Prog.store (virtqDesc q i + 14) 2 desc.next

/-- The memory after `storeDesc`. -/
def withDesc (m : Mem) (q i : Nat) (desc : VirtqDesc) : Mem :=
  store (store (store (store m (virtqDesc q i) 8 desc.addr) (virtqDesc q i + 8) 4 desc.len)
    (virtqDesc q i + 12) 2 desc.flags) (virtqDesc q i + 14) 2 desc.next

/-- A descriptor whose fields fit is read back as it was stored. -/
theorem loadDesc_withDesc {m : Mem} {q i : Nat} {desc : VirtqDesc} (haddr : desc.addr < 2 ^ 64)
    (hlen : desc.len < 2 ^ 32) (hflags : desc.flags < 2 ^ 16) (hnext : desc.next < 2 ^ 16) :
    loadDesc (withDesc m q i desc) q i = desc := by
  obtain ⟨addr, len, flags, next⟩ := desc
  simp only at haddr hlen hflags hnext
  simp (disch := omega) only [loadDesc, withDesc, load_store_self, load_store_disjoint,
    Nat.mod_eq_of_lt, Nat.reducePow]

theorem withDesc_outside {m : Mem} {q i x : Nat} {desc : VirtqDesc}
    (h : x < virtqDesc q i ∨ virtqDesc q i + 16 ≤ x) : withDesc m q i desc x = m x := by
  simp (disch := omega) only [withDesc, store_outside]

theorem withDesc_eqOn {m : Mem} {q i : Nat} {desc : VirtqDesc} {s : Set Nat}
    (h : ∀ x ∈ s, x < virtqDesc q i ∨ virtqDesc q i + 16 ≤ x) :
    Set.EqOn (withDesc m q i desc) m s :=
  fun x hx => withDesc_outside (h x hx)

/-! ## Port access and ASSERT -/

/-- Port numbers are 16 bits wide. -/
def port (bar0 offset : Nat) : Nat := (bar0 + offset) % 0x10000

def ioRead8 (address : Nat) : Prog Out Nat := Prog.ioRead 1 address
def ioRead16 (address : Nat) : Prog Out Nat := Prog.ioRead 2 address
def ioRead32 (address : Nat) : Prog Out Nat := Prog.ioRead 4 address
def ioWrite8 (address value : Nat) : Prog Out Unit := Prog.ioWrite 1 address value
def ioWrite16 (address value : Nat) : Prog Out Unit := Prog.ioWrite 2 address value
def ioWrite32 (address value : Nat) : Prog Out Unit := Prog.ioWrite 4 address value

def puts (str : String) : Prog Out Unit := Prog.print (.puts str)
def puth (value digitsLen : Nat) : Prog Out Unit := Prog.print (.puth value digitsLen)

/-- `ASSERT(cond)`: on failure the text is printed and the machine spins. -/
def ASSERT (cond : Bool) (text : String) : Prog Out Unit :=
  if cond then pure () else do
    puts ("assert: " ++ text)
    Prog.hang

end Virtio
end SysproKernel

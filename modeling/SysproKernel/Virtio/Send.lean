import SysproKernel.Virtio.Init

/-!
# `Virtio.Send` — `send_packet`

The routine, translated from virtio.c, and the memory it writes. A call fills `tx_buffer` with the virtio
header, the ethernet header and the payload, points descriptor 0 of the transmit queue at it, offers
descriptor 0 in the available ring and notifies the device. `Packet.frame` is the byte string the call is
asked to transmit; `prepared` is the memory once buffer and descriptor are written, and
`prepared_frame`/`prepared_desc` say that the descriptor then covers exactly that byte string.

The length is a C `int`. The ASSERT compares it after conversion to 64 bits, so it lets the lengths from
-24 to 4072 pass (`accepted_iff`); for a negative one no payload byte is stored and the descriptor covers
only the first `24 + len` bytes of the headers.
-/

namespace SysproKernel
namespace Virtio

open Lib.ByteMem Lib.Loop Lib.Driver

/-! ## The routine -/

/-- The arguments of a call: `len` is an `int`, the rest are the bytes at the pointers. -/
structure Packet where
  data : Nat → UInt8
  len : Int
  srcMac : Nat → UInt8
  dstMac : Nat → UInt8
  len_int : -2 ^ 31 ≤ len ∧ len < 2 ^ 31

/-- `len + sizeof(ethernet_frame) + sizeof(virtio_net_hdr)`, in 64-bit arithmetic. -/
def Packet.total (p : Packet) : Nat :=
  ((p.len + sizeofEthernetFrame + sizeofVirtioNetHdr) % 2 ^ 64).toNat

/-- The ASSERT lets the call pass. -/
def Packet.accepted (p : Packet) : Bool := p.total ≤ bufferLen

/-- `int` as the 64-bit word it converts to. -/
def Packet.lenWord (p : Packet) : Nat := (p.len % 2 ^ 64).toNat

/-- `for (int i = 0; i < n; i++) dst[i] = src[i];` -/
def copyBytes (dst n : Nat) (src : Nat → UInt8) : Prog Out Unit :=
  forLoop n (fun i _ => Prog.store (dst + i) 1 (src i).toNat) ()

/-- The descriptor of a packet in `tx_buffer`. -/
def txDesc (B : Buffers) (p : Packet) : VirtqDesc :=
  { addr := B.txBuffer, len := p.total, flags := 0, next := 0 }

/-- The part of `send_packet` that fills the buffer and descriptor 0. -/
def prepare (B : Buffers) (p : Packet) : Prog Out Unit := do
  let header := B.txBuffer
  Prog.store header 1 0                    -- flags
  Prog.store (header + 1) 1 0              -- gso_type = VIRTIO_NET_HDR_GSO_NONE
  Prog.store (header + 2) 2 p.total        -- hdr_len
  Prog.store (header + 4) 2 0              -- gso_size
  Prog.store (header + 6) 2 0              -- csum_start
  Prog.store (header + 8) 2 0              -- csum_offset
  let ethFrame := B.txBuffer + sizeofVirtioNetHdr
  copyBytes (ethFrame + 6) 6 p.srcMac
  copyBytes ethFrame 6 p.dstMac
  Prog.store (ethFrame + 12) 2 p.lenWord   -- type
  copyBytes (ethFrame + 14) p.len.toNat p.data
  storeDesc virtqTx 0 (txDesc B p)

/-- The part that offers descriptor 0 and notifies the device. The index is advanced before the ring entry
    is stored, the order `ring[idx++] = 0` compiles to. -/
def offerTx (queueSize bar0 : Nat) : Prog Out Unit := do
  let idx ← Prog.load (availIdx queueSize virtqTx) 2
  Prog.store (availIdx queueSize virtqTx) 2 (idx + 1)
  Prog.store (availRing queueSize virtqTx idx) 2 0
  ioWrite16 (port bar0 offsetQueueNotify) queueIdTx

def sendPacket (B : Buffers) (queueSize bar0 : Nat) (p : Packet) : Prog Out Unit := do
  ASSERT p.accepted "len + sizeof(ethernet_frame) + sizeof(virtio_net_hdr) <= BUFFER_LEN"
  prepare B p
  offerTx queueSize bar0

/-! ## What a call is asked to transmit -/

/-- The first `n` bytes at a pointer. -/
def bytesAt (src : Nat → UInt8) (n : Nat) : List UInt8 := (List.range n).map src

@[simp] theorem bytesAt_length (src : Nat → UInt8) (n : Nat) : (bytesAt src n).length = n := by
  simp [bytesAt]

theorem bytesAt_succ (src : Nat → UInt8) (n : Nat) :
    bytesAt src (n + 1) = bytesAt src n ++ [src n] := by
  simp [bytesAt, List.range_succ]

/-- Virtio header, ethernet header and payload. -/
def Packet.layout (p : Packet) : List UInt8 :=
  [0, 0] ++ leBytes 2 p.total ++ [0, 0, 0, 0, 0, 0] ++ bytesAt p.dstMac 6 ++ bytesAt p.srcMac 6 ++
    leBytes 2 p.lenWord ++ bytesAt p.data p.len.toNat

/-- The byte string a call is asked to transmit. -/
def Packet.frame (p : Packet) : List UInt8 := p.layout.take p.total

variable {B : Buffers} {p : Packet} {m : Mem}

theorem Packet.layout_length (p : Packet) : p.layout.length = 24 + p.len.toNat := by
  simp [Packet.layout]
  omega

/-- **The accepted lengths.** -/
theorem accepted_iff : p.accepted = true ↔ -24 ≤ p.len ∧ p.len ≤ 4072 := by
  have h := p.len_int
  rw [Packet.accepted, decide_eq_true_iff, Packet.total]
  simp only [bufferLen, sizeofEthernetFrame, sizeofVirtioNetHdr]
  omega

theorem total_of_accepted (h : p.accepted = true) : (p.total : Int) = 24 + p.len := by
  have hlen := accepted_iff.mp h
  simp only [Packet.total, sizeofEthernetFrame, sizeofVirtioNetHdr]
  omega

theorem total_le_layout (h : p.accepted = true) : p.total ≤ 24 + p.len.toNat := by
  have htotal := total_of_accepted h
  omega

theorem len_le_of_accepted (h : p.accepted = true) : p.len.toNat ≤ 4072 := by
  have hlen := accepted_iff.mp h
  omega

/-! ## The memory a call writes -/

/-- The memory after the stores of `prepare`. -/
def prepared (B : Buffers) (p : Packet) (m : Mem) : Mem :=
  let m := store m B.txBuffer 1 0
  let m := store m (B.txBuffer + 1) 1 0
  let m := store m (B.txBuffer + 2) 2 p.total
  let m := store m (B.txBuffer + 4) 2 0
  let m := store m (B.txBuffer + 6) 2 0
  let m := store m (B.txBuffer + 8) 2 0
  let m := writeBytes m (B.txBuffer + 10 + 6) (bytesAt p.srcMac 6)
  let m := writeBytes m (B.txBuffer + 10) (bytesAt p.dstMac 6)
  let m := store m (B.txBuffer + 10 + 12) 2 p.lenWord
  let m := writeBytes m (B.txBuffer + 10 + 14) (bytesAt p.data p.len.toNat)
  withDesc m virtqTx 0 (txDesc B p)

theorem prepared_desc (h : p.accepted = true) :
    loadDesc (prepared B p m) virtqTx 0 = txDesc B p := by
  have hwin := B.tx_window
  have htotal := total_of_accepted h
  have hlen := accepted_iff.mp h
  refine loadDesc_withDesc ?_ ?_ ?_ ?_
  · show B.txBuffer < 2 ^ 64
    omega
  · show p.total < 2 ^ 32
    omega
  · show 0 < 2 ^ 16
    decide
  · show 0 < 2 ^ 16
    decide

theorem readBytes_store_self {m : Mem} {a n v : Nat} : readBytes (store m a n v) a n = leBytes n v := by
  have h := readBytes_writeBytes_self m a (leBytes n v)
  rwa [leBytes_length] at h

theorem readBytes_bytesAt {m : Mem} {a n : Nat} {src : Nat → UInt8} :
    readBytes (writeBytes m a (bytesAt src n)) a n = bytesAt src n := by
  have h := readBytes_writeBytes_self m a (bytesAt src n)
  rwa [bytesAt_length] at h

theorem readBytes_bytesAt_disjoint {m : Mem} {a b n k : Nat} {src : Nat → UInt8}
    (h : b + k ≤ a ∨ a + n ≤ b) :
    readBytes (writeBytes m a (bytesAt src n)) b k = readBytes m b k :=
  readBytes_writeBytes_disjoint (by simpa using h)

theorem readBytes_store_disjoint {m : Mem} {a b n k v : Nat} (h : b + k ≤ a ∨ a + n ≤ b) :
    readBytes (store m a n v) b k = readBytes m b k :=
  readBytes_writeBytes_disjoint (by simpa using h)

theorem prepared_layout (h : p.accepted = true) :
    readBytes (prepared B p m) B.txBuffer (24 + p.len.toNat) = p.layout := by
  have hwin := B.tx_window
  have hlen := len_le_of_accepted h
  have hdesc : virtqDesc virtqTx 0 = 0x71ff0000 := rfl
  have hsplit : 24 + p.len.toNat = 1 + (1 + (2 + (2 + (2 + (2 + (6 + (6 + (2 + p.len.toNat)))))))) := by
    omega
  rw [hsplit]
  simp only [readBytes_add, Nat.add_assoc, Nat.reduceAdd]
  simp (disch := omega) only [prepared, withDesc, Nat.add_assoc, Nat.reduceAdd,
    readBytes_store_disjoint, readBytes_bytesAt_disjoint, readBytes_store_self, readBytes_bytesAt]
  simp [Packet.layout, leBytes]

/-- **Once prepared, the descriptor covers exactly the frame.** -/
theorem prepared_frame (h : p.accepted = true) :
    readBytes (prepared B p m) B.txBuffer p.total = p.frame := by
  rw [← readBytes_take (total_le_layout h), prepared_layout h, Packet.frame]

end Virtio
end SysproKernel

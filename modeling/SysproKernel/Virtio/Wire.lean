import SysproKernel.Lib.Reading
import SysproKernel.Virtio.Ring

/-!
# `Virtio.Wire` — what one call of `send_packet` shows the device

The device writes into the used ring only, so outside of it a call of `send_packet` leaves what it would
leave alone: the memory `published` (`sendPacket_published`). There descriptor 0 shows the bytes of the
call's frame, and nothing an earlier call left in `tx_buffer` (`no_packet_leaks`).

Two things are not as they should be. The ASSERT compares the length after conversion to 64 bits and lets
the lengths from -24 to -1 pass, for which the descriptor ends inside the headers (`guard_suffices_iff`).
And `eth_frame->type = len` stores the length with its low byte first, where a frame has the high byte
first, so that only lengths with two equal bytes are read back (`wire_decodes_iff`).

A queue of no entries is left in: its index then lies in descriptor 0, whose address is lost.
-/

namespace SysproKernel
namespace Virtio

open Lib.ByteMem Lib.Loop Lib.Driver Lib.Reading

/-! ## One call -/

/-- The memory after a call, if nothing else writes. -/
def published (B : Buffers) (queueSize : Nat) (p : Packet) (m : Mem) : Mem :=
  let m := prepared B p m
  let idx := load m (availIdx queueSize virtqTx) 2
  store (store m (availIdx queueSize virtqTx) 2 (idx + 1)) (availRing queueSize virtqTx idx) 2 0

/-- The memory the device does not write. -/
def driverOwned (queueSize : Nat) : Set Nat :=
  { x | x < virtqUsed queueSize virtqTx ∨ virtqUsed queueSize virtqTx + 6 + 8 * queueSize ≤ x }

/-- The bytes `[0, desc.len)` of `tx_buffer`, as descriptor 0 has them. -/
def exposed (B : Buffers) (m : Mem) : List UInt8 := readBytes m B.txBuffer (loadDesc m virtqTx 0).len

variable {B : Buffers} {queueSize bar0 : Nat} {p : Packet} {access : Nat → Nat → Prop}
  {m m' : Mem} {w u : World Out TxDevice}

/-- The driver's memory is known. -/
def knowing (queueSize bar0 : Nat) (access : Nat → Nat → Prop) (m : Mem) :
    Assertion (txEnv queueSize bar0) (accessSpec access) :=
  { holds := fun w => Set.EqOn w.mem m (driverOwned queueSize)
    stable := by
      rintro w w' hw ⟨hs, -⟩ x hx
      exact (hs.frame hx).trans (hw hx)
    always := fun _ _ => trivial }

theorem knowing_store {a n v : Nat} (h : access a n) :
    Triple (knowing queueSize bar0 access m) (Prog.store a n v : Prog Out Unit)
      (fun _ => knowing queueSize bar0 access (store m a n v)) :=
  Triple.store h (fun _ hw => store_congr hw)

theorem availIdx_owned (queueSize : Nat) :
    Set.Ico (availIdx queueSize virtqTx) (availIdx queueSize virtqTx + 2) ⊆ driverOwned queueSize := by
  intro x hx
  have hbounds := virtqUsed_bounds queueSize virtqTx
  have hhi := hx.2
  rw [availIdx_eq] at hhi
  exact Or.inl (by omega)

/-- **One call**, whatever is in memory when it begins. -/
theorem sendPacket_published (haccess : NeedsAccess B queueSize access)
    (hentry : ∀ i, access (availRing queueSize virtqTx i) 2) (hp : p.accepted = true) :
    Triple (knowing queueSize bar0 access m) (sendPacket B queueSize bar0 p)
      (fun _ => knowing queueSize bar0 access (published B queueSize p m)) := by
  have hindex : access (availIdx queueSize virtqTx) 2 :=
    haccess _ _ (fun x hlo hhi => Or.inr ⟨hlo, hhi⟩)
  rw [sendPacket_eq hp]
  refine Triple.bind (prepare_triple hp ?_) (fun _ => ?_)
  · intro m a n v hin
    exact knowing_store (haccess a n (fun x hlo hhi => Or.inl (hin x hlo hhi)))
  refine Triple.load_bind (v := load (prepared B p m) (availIdx queueSize virtqTx) 2) hindex ?_ ?_
  · intro w hw
    exact load_congr (Set.EqOn.mono (availIdx_owned queueSize) hw)
  refine (knowing_store hindex).bind (fun _ => ?_)
  refine (knowing_store (hentry _)).bind (fun _ => ?_)
  exact Triple.ioWrite (fun _ hw => hw)

theorem knowing_self (access : Nat → Nat → Prop) (w : World Out TxDevice) :
    (knowing queueSize bar0 access w.mem).holds w :=
  fun _ _ => rfl

/-- The same with no restriction on the accesses. -/
theorem sendPacket_safe (bar0 : Nat) (hp : p.accepted = true) (w : World Out TxDevice) :
    Safe (txEnv queueSize bar0) (accessSpec (fun _ _ => True))
      (fun _ => (knowing queueSize bar0 (fun _ _ => True) (published B queueSize p w.mem)).holds)
      (sendPacket B queueSize bar0 p) w :=
  (sendPacket_published (fun _ _ _ => trivial) (fun _ => trivial) hp).safe w (knowing_self _ w)

/-- What a call leaves. -/
theorem published_of_returned (hp : p.accepted = true)
    (hrun : Interleaves (txEnv queueSize bar0) (sendPacket B queueSize bar0 p, w) (.ret (), u)) :
    Set.EqOn u.mem (published B queueSize p w.mem) (driverOwned queueSize) :=
  ((sendPacket_safe bar0 hp w).interleaves hrun).ret

/-- An accepted call returns. -/
theorem sendPacket_returns (B : Buffers) (queueSize bar0 : Nat) (hp : p.accepted = true)
    (w : World Out TxDevice) :
    ∃ u, Interleaves (txEnv queueSize bar0) (sendPacket B queueSize bar0 p, w) (.ret (), u) := by
  obtain ⟨_, u, hrun, -⟩ := (sendPacket_safe (B := B) bar0 hp w).returns (fun _ _ _ => ⟨0, trivial⟩)
    accessSpec_patient not_false
  exact ⟨u, .of_run hrun⟩

/-! ## The descriptor and the buffer -/

theorem txPrivate_owned (B : Buffers) (hq : queueSize < 0x10000) :
    txPrivate B ⊆ driverOwned queueSize := by
  intro x hx
  have hbounds := virtqUsed_bounds queueSize virtqTx
  rcases txPrivate_outside hq hx with hlo | hhi
  · exact Or.inl (by omega)
  · exact Or.inr hhi

/-- The available ring lies below the packet buffer. -/
theorem published_buffer (hq : queueSize < 0x10000) :
    Set.EqOn (published B queueSize p m) (prepared B p m)
      (Set.Ico B.txBuffer (B.txBuffer + 0x1000)) := by
  intro x hx
  have hwin := B.tx_window
  have hlo := hx.1
  have hword := load_lt (prepared B p m) (availIdx queueSize virtqTx) 2
  have hindex := availIdx_eq queueSize virtqTx
  have hring := availRing_eq queueSize virtqTx (load (prepared B p m) (availIdx queueSize virtqTx) 2)
  unfold published
  simp only [virtqTx] at *
  rw [store_outside (by omega), store_outside (by omega)]

/-- The packet buffer after a call. -/
theorem buffer_of_returned (hq : queueSize < 0x10000) (hp : p.accepted = true)
    (hrun : Interleaves (txEnv queueSize bar0) (sendPacket B queueSize bar0 p, w) (.ret (), u)) :
    Set.EqOn u.mem (prepared B p w.mem) (Set.Ico B.txBuffer (B.txBuffer + 0x1000)) := by
  intro x hx
  exact (published_of_returned hp hrun (txPrivate_owned B hq (Or.inl hx))).trans
    (published_buffer hq hx)

/-- Descriptor 0 after a call. -/
theorem desc_of_returned (hq : queueSize < 0x10000) (hp : p.accepted = true)
    (hrun : Interleaves (txEnv queueSize bar0) (sendPacket B queueSize bar0 p, w) (.ret (), u)) :
    loadDesc u.mem virtqTx 0 = loadDesc (published B queueSize p w.mem) virtqTx 0 :=
  loadDesc_congr ((published_of_returned hp hrun).mono
    (fun _ hx => txPrivate_owned sampleBuffers hq (Or.inr hx)))

/-- In a queue with entries the available ring lies behind descriptor 0. -/
theorem published_desc (hpos : 1 ≤ queueSize) (hp : p.accepted = true) :
    loadDesc (published B queueSize p m) virtqTx 0 = txDesc B p := by
  rw [← prepared_desc hp (m := m)]
  apply loadDesc_congr
  intro x hx
  have hhi := hx.2
  rw [virtqDesc_eq] at hhi
  unfold published
  rw [store_outside (by rw [availRing_eq]; omega), store_outside (by rw [availIdx_eq]; omega)]

/-- The ring entry, a zero, never makes the descriptor longer. -/
theorem published_len_le (hp : p.accepted = true) :
    (loadDesc (published B queueSize p m) virtqTx 0).len ≤ p.total := by
  have hlen : load (prepared B p m) (virtqDesc virtqTx 0 + 8) 4 = p.total :=
    congrArg VirtqDesc.len (prepared_desc (m := m) hp)
  rw [← hlen]
  refine Nat.le_trans (load_mono (store_zero_le _ _ _)) (Nat.le_of_eq (load_store_disjoint ?_))
  rw [availIdx_eq, virtqDesc_eq]
  omega

/-- **What descriptor 0 exposes** is the frame of the call, or its beginning. -/
theorem exposed_of_returned (hq : queueSize < 0x10000) (hp : p.accepted = true)
    (hrun : Interleaves (txEnv queueSize bar0) (sendPacket B queueSize bar0 p, w) (.ret (), u)) :
    exposed B u.mem = p.frame.take (loadDesc (published B queueSize p w.mem) virtqTx 0).len := by
  have htotal : p.total ≤ 0x1000 := of_decide_eq_true hp
  have hle : (loadDesc (published B queueSize p w.mem) virtqTx 0).len ≤ p.total :=
    published_len_le hp
  have hbuffer := (buffer_of_returned hq hp hrun).mono
    (Set.Ico_subset_Ico_right (Nat.add_le_add_left (Nat.le_trans hle htotal) B.txBuffer))
  unfold exposed
  rw [desc_of_returned hq hp hrun, readBytes_congr hbuffer, ← prepared_frame hp (B := B) (m := w.mem),
    readBytes_take hle]

/-! ## A queue of no entries -/

theorem withDesc_known {q i : Nat} {desc : VirtqDesc} (m m' : Mem) :
    Set.EqOn (withDesc m q i desc) (withDesc m' q i desc)
      (Set.Ico (virtqDesc q i) (virtqDesc q i + 16)) := by
  refine Set.EqOn.mono ?_ (store_known (store_known (store_known (store_known (Set.eqOn_empty m m')))))
  rintro x ⟨hlo, hhi⟩
  simp only [Set.mem_union, Set.mem_Ico, Set.mem_empty_iff_false]
  omega

/-- Descriptor 0 of a queue of no entries does not depend on what was in memory before the call. -/
theorem published_desc_absent (m m' : Mem) :
    loadDesc (published B 0 p m) virtqTx 0 = loadDesc (published B 0 p m') virtqTx 0 := by
  have hprepared : Set.EqOn (prepared B p m) (prepared B p m')
      (Set.Ico (virtqDesc virtqTx 0) (virtqDesc virtqTx 0 + 16)) := withDesc_known _ _
  have hindex : load (prepared B p m) (availIdx 0 virtqTx) 2
      = load (prepared B p m') (availIdx 0 virtqTx) 2 :=
    load_congr (hprepared.mono (Set.Ico_subset_Ico (by decide) (by decide)))
  apply loadDesc_congr
  simp only [published, hindex]
  exact store_congr (store_congr hprepared)

/-- Its address is not that of the buffer: the index lies in it, and has been advanced. -/
theorem published_addr_absent (hp : p.accepted = true) :
    ¬ (B.txBuffer ≤ (loadDesc (published B 0 p m) virtqTx 0).addr ∧
      (loadDesc (published B 0 p m) virtqTx 0).addr < B.txBuffer + 0x1000) := by
  have hwin := B.tx_window
  have haligned := B.tx_aligned
  have hfirst : virtqDesc virtqTx 0 = virtqTx := rfl
  have haddr := congrArg VirtqDesc.addr (prepared_desc (B := B) (m := m) hp)
  simp only [loadDesc, txDesc] at haddr
  have hindex : load (published B 0 p m) (virtqTx + 2) 2
      = (load (prepared B p m) (virtqTx + 2) 2 + 1) % 256 ^ 2 := by
    show load (store (store _ _ 2 _) (availRing 0 virtqTx _) 2 0) _ 2 = _
    rw [load_store_disjoint (by rw [availRing_eq]; omega)]
    exact load_store_self _ _ 2 _
  have hafter : (loadDesc (published B 0 p m) virtqTx 0).addr
      = load (published B 0 p m) (virtqDesc virtqTx 0) 8 := rfl
  have hsplit : 8 = 2 + (2 + 4) := rfl
  rw [hfirst, hsplit, load_add, load_add] at haddr
  rw [hafter, hfirst, hsplit, load_add, load_add]
  have h₁ := load_lt (prepared B p m) virtqTx 2
  have h₂ := load_lt (prepared B p m) (virtqTx + 2) 2
  have h₃ := load_lt (published B 0 p m) virtqTx 2
  omega

/-! ## The length guard -/

/-- An access to `tx_buffer`, descriptor 0 or the available ring. -/
def SendAccess (B : Buffers) (queueSize a n : Nat) : Prop :=
  Set.Ico a (a + n) ⊆ txPrivate B ∪
    Set.Ico (availIdx queueSize virtqTx) (availIdx queueSize virtqTx + 2) ∨
  ∃ i, a = availRing queueSize virtqTx i ∧ n = 2

/-- **A call whose length guard was enough**, in every run from `w`. -/
structure GuardSuffices (B : Buffers) (queueSize bar0 : Nat) (p : Packet) (w : World Out TxDevice) :
    Prop where
  /-- every packet byte is written in `tx_buffer` -/
  inside : ∀ prog u a n,
    Interleaves (txEnv queueSize bar0) (sendPacket B queueSize bar0 p, w) (prog, u) →
      prog.nextAccess = some (a, n) → SendAccess B queueSize a n
  /-- the descriptor covers both headers -/
  covers : ∀ u, Interleaves (txEnv queueSize bar0) (sendPacket B queueSize bar0 p, w) (.ret (), u) →
    24 ≤ (loadDesc u.mem virtqTx 0).len
  /-- and has the length that was meant, which is also `header->hdr_len` -/
  length : ∀ u, Interleaves (txEnv queueSize bar0) (sendPacket B queueSize bar0 p, w) (.ret (), u) →
    ((loadDesc u.mem virtqTx 0).len : Int) = 24 + p.len ∧
      (load u.mem (B.txBuffer + 2) 2 : Int) = 24 + p.len
  /-- what it exposes is in `tx_buffer` -/
  exposes : ∀ u, Interleaves (txEnv queueSize bar0) (sendPacket B queueSize bar0 p, w) (.ret (), u) →
    Set.Ico (loadDesc u.mem virtqTx 0).addr
        ((loadDesc u.mem virtqTx 0).addr + (loadDesc u.mem virtqTx 0).len)
      ⊆ Set.Ico B.txBuffer (B.txBuffer + 0x1000)

/-- `header->hdr_len` as it is written. -/
theorem prepared_hdrLen (hp : p.accepted = true) :
    load (prepared B p m) (B.txBuffer + 2) 2 = p.total := by
  have htotal : p.total ≤ 0x1000 := of_decide_eq_true hp
  have hlayout := prepared_layout (B := B) (m := m) hp
  have hsplit : 24 + p.len.toNat = 2 + (2 + (20 + p.len.toNat)) := by omega
  rw [hsplit, readBytes_add, readBytes_add] at hlayout
  have hbytes : readBytes (prepared B p m) (B.txBuffer + 2) 2 = leBytes 2 p.total := by
    have hdrop := congrArg (fun bs => (bs.drop 2).take 2) hlayout
    simpa [Packet.layout] using hdrop
  rw [load, hbytes, leNat_leBytes]
  omega

theorem sendAccess_of_run {prog : Prog Out Unit} {a n : Nat} (hp : p.accepted = true)
    (hrun : Interleaves (txEnv queueSize bar0) (sendPacket B queueSize bar0 p, w) (prog, u))
    (hnext : prog.nextAccess = some (a, n)) : SendAccess B queueSize a n := by
  have hprivate : NeedsAccess B queueSize (SendAccess B queueSize) :=
    fun a n hin => Or.inl (fun x hx => hin x hx.1 hx.2)
  have hentry : ∀ i, SendAccess B queueSize (availRing queueSize virtqTx i) 2 :=
    fun i => Or.inr ⟨i, rfl, rfl⟩
  exact (((sendPacket_published hprivate hentry hp).safe w (knowing_self _ w)).interleaves hrun).access
    hnext

/-! ## The frame as a receiver reads it -/

/-- A number in network byte order. -/
def beNat (bs : List UInt8) : Nat := leNat bs.reverse

/-- `virtio_net_hdr`, then an IEEE 802.3 frame: destination, source, length, payload. -/
def wireFrame : Reader UInt8 (List UInt8 × List UInt8 × List UInt8) := do
  let _ ← take 10
  let dstMac ← take 6
  let srcMac ← take 6
  let length ← take 2
  let payload ← take (beNat length)
  return (dstMac, srcMac, payload)

/-- What a receiver makes of the bytes; what follows the payload is padding. -/
def decodeWire (bytes : List UInt8) : Option (List UInt8 × List UInt8 × List UInt8) :=
  wireFrame.run' bytes

/-- **After the call**, descriptor 0 exposes `24 + len` bytes of the buffer that decode to what was
    sent. -/
def WireFaithful (B : Buffers) (p : Packet) (m : Mem) : Prop :=
  (loadDesc m virtqTx 0).addr = B.txBuffer ∧ ((loadDesc m virtqTx 0).len : Int) = 24 + p.len ∧
    decodeWire (exposed B m) = some (bytesAt p.dstMac 6, bytesAt p.srcMac 6, bytesAt p.data p.len.toNat)

/-- The length field decides how much of the payload is read. -/
theorem decodeWire_append {header dstMac srcMac length payload : List UInt8}
    (hheader : header.length = 10) (hdst : dstMac.length = 6) (hsrc : srcMac.length = 6)
    (hlength : length.length = 2) :
    decodeWire (header ++ (dstMac ++ (srcMac ++ (length ++ payload))))
      = if beNat length ≤ payload.length then some (dstMac, srcMac, payload.take (beNat length))
        else none := by
  have hsplit : ∀ {n : Nat} {bs rest : List UInt8}, bs.length = n →
      (take n : Reader UInt8 (List UInt8)) (bs ++ rest) = some (bs, rest) :=
    fun hn => (Reads.take hn).run _
  by_cases hfits : beNat length ≤ payload.length
  · have hlast : (take (beNat length) : Reader UInt8 (List UInt8)) payload
        = some (payload.take (beNat length), payload.drop (beNat length)) := if_pos hfits
    rw [if_pos hfits]
    simp only [decodeWire, wireFrame, StateT.run', bind, StateT.bind, hsplit hheader, hsplit hdst,
      hsplit hsrc, hsplit hlength, hlast, Option.bind_some]
    rfl
  · have hlast : (take (beNat length) : Reader UInt8 (List UInt8)) payload = none := if_neg hfits
    rw [if_neg hfits]
    simp only [decodeWire, wireFrame, StateT.run', bind, StateT.bind, hsplit hheader, hsplit hdst,
      hsplit hsrc, hsplit hlength, hlast, Option.bind_some]
    rfl

/-- Both byte orders of the length agree when its two bytes do. -/
theorem beNat_lenWord (h : p.accepted = true) (hlo : 0 ≤ p.len) :
    beNat (leBytes 2 p.lenWord) = p.len.toNat ↔ (257 : Int) ∣ p.len := by
  have hlen := accepted_iff.mp h
  obtain ⟨n, hn⟩ := Int.eq_ofNat_of_zero_le hlo
  have hword : p.lenWord = n := by
    unfold Packet.lenWord
    omega
  have hnat : beNat (leBytes 2 n) = 256 * (n % 256) + n / 256 % 256 := by
    simp [beNat, leBytes, leNat]
    omega
  have hswap : 256 * (n % 256) + n / 256 % 256 = n ↔ n % 256 = n / 256 := by omega
  rw [hword, hnat, hn, Int.toNat_natCast, hswap]
  constructor
  · intro heq
    exact ⟨n / 256, by omega⟩
  · rintro ⟨q, hq⟩
    omega

theorem Packet.layout_parts (p : Packet) :
    p.layout = ([0, 0] ++ leBytes 2 p.total ++ [0, 0, 0, 0, 0, 0]) ++ (bytesAt p.dstMac 6 ++
      (bytesAt p.srcMac 6 ++ (leBytes 2 p.lenWord ++ bytesAt p.data p.len.toNat))) := by
  simp [Packet.layout]

/-- **What a receiver makes of a frame.** -/
theorem decodeWire_frame (h : p.accepted = true) (hlo : 0 ≤ p.len) :
    decodeWire p.frame
        = some (bytesAt p.dstMac 6, bytesAt p.srcMac 6, bytesAt p.data p.len.toNat) ↔
      (257 : Int) ∣ p.len := by
  have htotal := total_of_accepted h
  have hwhole : p.frame = p.layout := by
    refine List.take_of_length_le (Nat.le_of_eq ?_)
    rw [p.layout_length]
    omega
  rw [hwhole, p.layout_parts, decodeWire_append (by simp) (by simp) (by simp) (by simp),
    bytesAt_length, ← beNat_lenWord h hlo]
  constructor
  · intro hdecoded
    by_cases hfits : beNat (leBytes 2 p.lenWord) ≤ p.len.toNat
    · rw [if_pos hfits] at hdecoded
      have hpayload := congrArg (fun r => r.map (fun frame => frame.2.2.length)) hdecoded
      simp only [Option.map_some, List.length_take, bytesAt_length, Option.some.injEq] at hpayload
      omega
    · rw [if_neg hfits] at hdecoded
      cases hdecoded
  · intro heq
    rw [heq, if_pos (Nat.le_refl _), List.take_of_length_le (by rw [bytesAt_length])]

/-! ## Main results -/

/-- The states between calls, after any number of them. -/
def AfterCalls (B : Buffers) (queueSize bar0 : Nat) (w : World Out TxDevice) : Prop :=
  ∃ reads w₀ w₁ n, InitialisedBy B bar0 reads w₀ queueSize w₁ ∧
    Client.Reaches (caller B queueSize bar0) (txEnv queueSize bar0) (0, none, w₁) (n, none, w)

/-- **No packet leaks an earlier one.** After any two histories of calls, the same call exposes the same
    bytes. -/
theorem no_packet_leaks (B : Buffers) (bar0 : Nat) {queueSize : Nat} {p : Packet}
    {w w' u u' : World Out TxDevice} (h : AfterCalls B queueSize bar0 w)
    (h' : AfterCalls B queueSize bar0 w') (hp : p.accepted = true)
    (hrun : Interleaves (txEnv queueSize bar0) (sendPacket B queueSize bar0 p, w) (.ret (), u))
    (hrun' : Interleaves (txEnv queueSize bar0) (sendPacket B queueSize bar0 p, w') (.ret (), u')) :
    exposed B u.mem = exposed B u'.mem := by
  obtain ⟨reads, w₀, w₁, n, hinit, -⟩ := h
  have hq := hinit.memory.1.queueSize_lt
  have hdesc : loadDesc (published B queueSize p w.mem) virtqTx 0
      = loadDesc (published B queueSize p w'.mem) virtqTx 0 := by
    rcases Nat.eq_zero_or_pos queueSize with rfl | hpos
    · exact published_desc_absent w.mem w'.mem
    · rw [published_desc hpos hp, published_desc hpos hp]
  rw [exposed_of_returned hq hp hrun, exposed_of_returned hq hp hrun', hdesc]

/-- The first call, and the same call as the second. -/
theorem no_packet_leaks_second : ∃ w w' u u',
    AfterCalls sampleBuffers 256 0xc000 w ∧ load w.mem (availIdx 256 virtqTx) 2 = 0 ∧
    AfterCalls sampleBuffers 256 0xc000 w' ∧ load w'.mem (availIdx 256 virtqTx) 2 = 1 ∧
    Interleaves (txEnv 256 0xc000) (sendPacket sampleBuffers 256 0xc000 (oneByte 0x42), w) (.ret (), u) ∧
    Interleaves (txEnv 256 0xc000) (sendPacket sampleBuffers 256 0xc000 (oneByte 0x42), w')
      (.ret (), u') ∧
    exposed sampleBuffers u.mem = exposed sampleBuffers u'.mem := by
  obtain ⟨w, hinit⟩ := sample_initialised
  obtain ⟨w', hcalls, hidx⟩ := calls_complete (p := oneByte 0x41) (by decide) (by decide) (by decide)
    (atIndex_start hinit) 1
  have hfirst : AfterCalls sampleBuffers 256 0xc000 w := ⟨_, _, w, 0, hinit, .refl⟩
  have hsecond : AfterCalls sampleBuffers 256 0xc000 w' := ⟨_, _, w, 1, hinit, hcalls⟩
  have hp : (oneByte 0x42).accepted = true := by decide
  obtain ⟨u, hrun⟩ := sendPacket_returns sampleBuffers 256 0xc000 hp w
  obtain ⟨u', hrun'⟩ := sendPacket_returns sampleBuffers 256 0xc000 hp w'
  exact ⟨w, w', u, u', hfirst, atIndex_start hinit, hsecond, hidx, hrun, hrun',
    no_packet_leaks sampleBuffers 0xc000 hfirst hsecond hp hrun hrun'⟩

/-- **When the length guard is enough**: for the lengths that are not negative, on a queue that has a
    descriptor 0. -/
theorem guard_suffices_iff (B : Buffers) (bar0 : Nat) {queueSize : Nat} {p : Packet}
    {w : World Out TxDevice} (hq : queueSize < 0x10000) (hp : p.accepted = true) :
    GuardSuffices B queueSize bar0 p w ↔ 0 ≤ p.len ∧ 1 ≤ queueSize := by
  have htotal := total_of_accepted hp
  constructor
  · intro hguard
    obtain ⟨u, hrun⟩ := sendPacket_returns B queueSize bar0 hp w
    have hcovers := hguard.covers u hrun
    have hexposes := hguard.exposes u hrun
    rw [desc_of_returned hq hp hrun] at hcovers hexposes
    rcases Nat.eq_zero_or_pos queueSize with rfl | hpos
    · -- the first byte exposed is not in the buffer
      exact absurd (hexposes ⟨Nat.le_refl _, by omega⟩) (published_addr_absent hp)
    · rw [published_desc hpos hp] at hcovers
      have hlen : 24 ≤ p.total := hcovers
      omega
  · rintro ⟨hlo, hpos⟩
    have hle : p.total ≤ 0x1000 := of_decide_eq_true hp
    have hshown : ∀ u, Interleaves (txEnv queueSize bar0) (sendPacket B queueSize bar0 p, w)
        (.ret (), u) → loadDesc u.mem virtqTx 0 = txDesc B p :=
      fun u hrun => (desc_of_returned hq hp hrun).trans (published_desc hpos hp)
    refine ⟨fun prog u a n hrun hnext => sendAccess_of_run hp hrun hnext, ?_, ?_, ?_⟩
    · intro u hrun
      rw [hshown u hrun]
      show 24 ≤ p.total
      omega
    · intro u hrun
      have hhdr : load u.mem (B.txBuffer + 2) 2 = load (prepared B p w.mem) (B.txBuffer + 2) 2 :=
        load_congr ((buffer_of_returned hq hp hrun).mono
          (Set.Ico_subset_Ico (by omega) (by omega)))
      rw [hshown u hrun, hhdr, prepared_hdrLen hp]
      exact ⟨htotal, htotal⟩
    · intro u hrun
      rw [hshown u hrun]
      exact Set.Ico_subset_Ico (Nat.le_refl _) (Nat.add_le_add_left hle _)

/-- A packet of no payload. -/
theorem guard_suffices_empty : ∃ p : Packet, p.len = 0 ∧
    GuardSuffices sampleBuffers 256 0xc000 p (blankWorld TxDevice.start) :=
  ⟨{ oneByte 0x41 with len := 0, len_int := by decide }, rfl,
    (guard_suffices_iff sampleBuffers 0xc000 (by decide) (by decide)).mpr ⟨by decide, by decide⟩⟩

/-- **The guard lets a negative length pass**, for which the descriptor ends inside the headers. -/
theorem guard_passes_negative : ¬ ∀ (p : Packet) (w : World Out TxDevice), p.accepted = true →
    GuardSuffices sampleBuffers 256 0xc000 p w := by
  intro hall
  have hp : ({ oneByte 0x41 with len := -1, len_int := by decide } : Packet).accepted = true := by
    decide
  obtain ⟨u, hrun⟩ := sendPacket_returns sampleBuffers 256 0xc000 hp (blankWorld TxDevice.start)
  have hcovers := (hall _ (blankWorld TxDevice.start) hp).covers u hrun
  rw [desc_of_returned (by decide) hp hrun, published_desc (by decide) hp] at hcovers
  exact absurd hcovers (by decide)

/-- **Which frames are read back**: those whose length is the same in both byte orders. -/
theorem wire_decodes_iff (B : Buffers) (bar0 : Nat) {queueSize : Nat} {p : Packet}
    {w : World Out TxDevice} (hq : queueSize < 0x10000) (hlo : 0 ≤ p.len) (hhi : p.len ≤ 1500) :
    (∀ u, Interleaves (txEnv queueSize bar0) (sendPacket B queueSize bar0 p, w) (.ret (), u) →
        WireFaithful B p u.mem) ↔ (257 : Int) ∣ p.len ∧ 1 ≤ queueSize := by
  have hp : p.accepted = true := accepted_iff.mpr ⟨by omega, by omega⟩
  have htotal := total_of_accepted hp
  have hwhole : p.frame.take p.total = p.frame := by
    rw [Packet.frame, List.take_take, Nat.min_self]
  constructor
  · intro hall
    obtain ⟨u, hrun⟩ := sendPacket_returns B queueSize bar0 hp w
    obtain ⟨haddr, -, hdecoded⟩ := hall u hrun
    rw [desc_of_returned hq hp hrun] at haddr
    rw [exposed_of_returned hq hp hrun] at hdecoded
    rcases Nat.eq_zero_or_pos queueSize with rfl | hpos
    · exact absurd ⟨Nat.le_of_eq haddr.symm, by omega⟩ (published_addr_absent (m := w.mem) hp)
    · have hlen : (loadDesc (published B queueSize p w.mem) virtqTx 0).len = p.total :=
        congrArg VirtqDesc.len (published_desc (B := B) (m := w.mem) hpos hp)
      rw [hlen, hwhole] at hdecoded
      exact ⟨(decodeWire_frame hp hlo).mp hdecoded, hpos⟩
  · rintro ⟨hdvd, hpos⟩ u hrun
    have hshown : loadDesc u.mem virtqTx 0 = txDesc B p :=
      (desc_of_returned hq hp hrun).trans (published_desc hpos hp)
    refine ⟨congrArg VirtqDesc.addr hshown, ?_, ?_⟩
    · rw [hshown]
      exact htotal
    · have hlen : (loadDesc (published B queueSize p w.mem) virtqTx 0).len = p.total :=
        congrArg VirtqDesc.len (published_desc (B := B) (m := w.mem) hpos hp)
      rw [exposed_of_returned hq hp hrun, hlen, hwhole]
      exact (decodeWire_frame hp hlo).mpr hdvd

/-- A packet of 257 bytes is read back. -/
theorem wire_decodes_257 : ∃ u, Interleaves (txEnv 256 0xc000)
      (sendPacket sampleBuffers 256 0xc000
        { oneByte 0x41 with len := 257, len_int := by decide }, blankWorld TxDevice.start) (.ret (), u) ∧
    WireFaithful sampleBuffers { oneByte 0x41 with len := 257, len_int := by decide } u.mem := by
  obtain ⟨u, hrun⟩ := sendPacket_returns sampleBuffers 256 0xc000
    (p := { oneByte 0x41 with len := 257, len_int := by decide }) (by decide)
    (blankWorld TxDevice.start)
  exact ⟨u, hrun, (wire_decodes_iff sampleBuffers 0xc000 (by decide) (by decide) (by decide)).mpr
    ⟨by decide, by decide⟩ u hrun⟩

/-- **A packet of one byte is read as one of 256**, which are not there. -/
theorem one_byte_not_decoded : ¬ ∀ (p : Packet) (w u : World Out TxDevice), 0 ≤ p.len → p.len ≤ 1500 →
    Interleaves (txEnv 256 0xc000) (sendPacket sampleBuffers 256 0xc000 p, w) (.ret (), u) →
      WireFaithful sampleBuffers p u.mem := by
  intro hall
  have hp : (oneByte 0x41).accepted = true := by decide
  obtain ⟨u, hrun⟩ := sendPacket_returns sampleBuffers 256 0xc000 hp (blankWorld TxDevice.start)
  obtain ⟨-, -, hdecoded⟩ := hall _ _ u (by decide) (by decide) hrun
  have hlen : (loadDesc (published sampleBuffers 256 (oneByte 0x41) (blankWorld TxDevice.start).mem)
      virtqTx 0).len = 25 :=
    congrArg VirtqDesc.len (published_desc (B := sampleBuffers) (by decide) hp)
  rw [exposed_of_returned (by decide) hp hrun, hlen] at hdecoded
  revert hdecoded
  decide

end Virtio
end SysproKernel

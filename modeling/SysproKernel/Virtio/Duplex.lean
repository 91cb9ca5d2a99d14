import SysproKernel.Lib.Beside
import SysproKernel.Virtio.Reception
import SysproKernel.Virtio.Transmission

/-!
# `Virtio.Duplex` — sending and receiving at the same time

The driver's two halves on one machine: `send_packet` and `receive_packet` calls in any order on one
thread, the device moving on both queues between any two accesses. Two bounds come from the halves, and
without them neither holds: the queues have at least sixteen entries (`queue_size_safe_iff`), and fewer
`send_packet` calls than entries have been made since initialisation, which `sender` asks of every call
(`ring_kept_iff`). Each half was verified alone. Here they are shown to be confined to disjoint memories,
the transmit side to its queue and `tx_buffer` (`txRegion`), the receive side to its queue and `rx_buffer`
(`rxRegion`), and `Lib.Beside` does the rest.

The transmit side needs one more fact than before. What the device reads for an entry depends on
descriptor 0, and a stray descriptor would let it read memory of the other side. `Aimed` says that once an
entry has been offered descriptor 0 points into `tx_buffer`, also while a later call rewrites it field by
field.
-/

namespace SysproKernel
namespace Virtio

open Lib.ByteMem Lib.Loop Lib.Driver

/-! ## The two memories -/

def txRegion (B : Buffers) (queueSize : Nat) : Set Nat :=
  Set.Ico virtqTx (virtqTx + virtqSize queueSize) ∪ Set.Ico B.txBuffer (B.txBuffer + 0x1000)

def rxRegion (B : Buffers) (queueSize : Nat) : Set Nat :=
  Set.Ico virtqRx (virtqRx + virtqSize queueSize) ∪ Set.Ico B.rxBuffer (B.rxBuffer + 0x10000)

variable {B : Buffers} {queueSize bar0 : Nat} {sent : List Packet} {m m' : Mem}

theorem regions_disjoint (hq : queueSize < 0x10000) :
    Disjoint (txRegion B queueSize) (rxRegion B queueSize) := by
  have hend := virtqSize_lt hq
  have htx := B.tx_window
  have hrx := B.rx_window
  have hdis := B.disjoint
  have hbelow : virtqRx ≤ virtqTx := by decide
  rw [Set.disjoint_left]
  rintro x (hx | hx) (hy | hy)
  · have h₁ := hx.1
    have h₂ := hy.2
    omega
  · have h₁ := hx.2
    have h₂ := hy.1
    omega
  · have h₁ := hx.1
    have h₂ := hy.2
    omega
  · have h₁ := hx.1
    have h₂ := hx.2
    have h₃ := hy.1
    have h₄ := hy.2
    omega

theorem txRegion_queue {a n : Nat} (hlo : virtqTx ≤ a)
    (hhi : a + n ≤ virtqUsed queueSize virtqTx + 6 + 8 * queueSize) :
    Set.Ico a (a + n) ⊆ txRegion B queueSize := by
  have hend := (virtqUsed_bounds queueSize virtqTx).2.2
  rintro x ⟨hx₁, hx₂⟩
  exact Or.inl ⟨by omega, by omega⟩

theorem txRegion_buffer {n : Nat} (hn : n ≤ 0x1000) :
    Set.Ico B.txBuffer (B.txBuffer + n) ⊆ txRegion B queueSize := by
  rintro x ⟨hx₁, hx₂⟩
  exact Or.inr ⟨hx₁, by omega⟩

theorem rxRegion_queue {a n : Nat} (hlo : virtqRx ≤ a)
    (hhi : a + n ≤ virtqUsed queueSize virtqRx + 6 + 8 * queueSize) :
    Set.Ico a (a + n) ⊆ rxRegion B queueSize := by
  have hend := (virtqUsed_bounds queueSize virtqRx).2.2
  rintro x ⟨hx₁, hx₂⟩
  exact Or.inl ⟨by omega, by omega⟩

theorem rxRegion_buffer {id : Nat} (hid : id < 16) :
    Set.Ico (B.rx id) (B.rx id + 0x1000) ⊆ rxRegion B queueSize := by
  rintro x ⟨hx₁, hx₂⟩
  rw [Buffers.rx, bufferLen] at hx₁ hx₂
  exact Or.inr ⟨by omega, by omega⟩

/-! ## The descriptor of the transmit side -/

/-- The descriptor covers a part of `tx_buffer`. -/
def InBuffer (B : Buffers) (desc : VirtqDesc) : Prop := desc.addr = B.txBuffer ∧ desc.len ≤ 0x1000

/-- Once an entry has been offered, what the device reads lies in `tx_buffer`. -/
def Aimed (B : Buffers) (queueSize : Nat) (m : Mem) : Prop :=
  load m (availIdx queueSize virtqTx) 2 ≠ 0 → InBuffer B (loadDesc m virtqTx 0)

theorem Aimed.of_eq (h : Aimed B queueSize m)
    (hidx : load m' (availIdx queueSize virtqTx) 2 = load m (availIdx queueSize virtqTx) 2)
    (hdesc : loadDesc m' virtqTx 0 = loadDesc m virtqTx 0) : Aimed B queueSize m' := by
  rw [Aimed, hidx, hdesc]
  exact h

theorem TxStep.desc {d d' : TxDevice} (hs : TxStep queueSize m d m' d') :
    loadDesc m' virtqTx 0 = loadDesc m virtqTx 0 := by
  have hlo := (virtqUsed_bounds queueSize virtqTx).2.1
  refine loadDesc_congr (fun x hx => hs.frame (Or.inl ?_))
  have hhi := hx.2
  rw [virtqDesc_eq] at hhi
  omega

/-- What a call is held to besides `txSpec`: the descriptor, and accesses inside the region. -/
def aimSpec (B : Buffers) (queueSize : Nat) : Spec (World Out TxDevice) :=
  { always := fun w => Aimed B queueSize w.mem
    access := fun a n => Set.Ico a (a + n) ⊆ txRegion B queueSize
    blocked := fun _ => False }

/-- `n` entries are offered, and descriptor 0 satisfies `ψ`. -/
def aiming (B : Buffers) (queueSize bar0 n : Nat) (ψ : VirtqDesc → Prop) :
    Assertion (txEnv queueSize bar0) (aimSpec B queueSize) :=
  { holds := fun w => load w.mem (availIdx queueSize virtqTx) 2 = n ∧ Aimed B queueSize w.mem ∧
      ψ (loadDesc w.mem virtqTx 0)
    stable := by
      rintro w w' ⟨hidx, haimed, hψ⟩ ⟨hs, -⟩
      refine ⟨hs.availIdx.trans hidx, haimed.of_eq hs.availIdx hs.desc, ?_⟩
      rw [hs.desc]
      exact hψ
    always := fun _ h => h.2.1 }

section Aim

variable {n : Nat} {ψ : VirtqDesc → Prop}

/-- A store that touches neither the index nor the descriptor. -/
theorem aiming_store {a k v : Nat} (hin : Set.Ico a (a + k) ⊆ txRegion B queueSize)
    (hidx : availIdx queueSize virtqTx + 2 ≤ a ∨ a + k ≤ availIdx queueSize virtqTx)
    (hdesc : virtqTx + 16 ≤ a) :
    Triple (aiming B queueSize bar0 n ψ) (Prog.store a k v)
      (fun _ => aiming B queueSize bar0 n ψ) := by
  refine Triple.store hin ?_
  rintro w ⟨hn, haimed, hψ⟩
  have hidx' : load (w.store a k v).mem (availIdx queueSize virtqTx) 2
      = load w.mem (availIdx queueSize virtqTx) 2 := load_store_disjoint hidx
  have hdesc' : loadDesc (w.store a k v).mem virtqTx 0 = loadDesc w.mem virtqTx 0 := by
    refine loadDesc_congr (store_eqOn (fun x hx => ?_))
    have hhi := hx.2
    rw [virtqDesc_eq] at hhi
    omega
  have hψ' : ψ (loadDesc (w.store a k v).mem virtqTx 0) := hdesc'.symm ▸ hψ
  exact ⟨hidx'.trans hn, haimed.of_eq hidx' hdesc', hψ'⟩

/-- A store into `tx_buffer`. -/
theorem aiming_buffer (hq : queueSize < 0x10000) {o k v : Nat} (hok : o + k ≤ 0x1000) :
    Triple (aiming B queueSize bar0 n ψ) (Prog.store (B.txBuffer + o) k v)
      (fun _ => aiming B queueSize bar0 n ψ) := by
  have hhi := virtqUsed_bounds queueSize virtqTx
  have hend := (virtqSize_lt hq).2
  have hwin := B.tx_window
  apply aiming_store
  · refine Set.Subset.trans ?_ (txRegion_buffer hok)
    rintro x ⟨hx₁, hx₂⟩
    exact ⟨by omega, by omega⟩
  · rw [availIdx_eq]
    omega
  · omega

theorem aiming_copy (hq : queueSize < 0x10000) {o k : Nat} {src : Nat → UInt8} (hok : o + k ≤ 0x1000) :
    Triple (aiming B queueSize bar0 n ψ) (copyBytes (B.txBuffer + o) k src)
      (fun _ => aiming B queueSize bar0 n ψ) := by
  refine Triple.forLoop (fun _ _ => aiming B queueSize bar0 n ψ) ?_
  intro i hi _
  rw [Nat.add_assoc]
  exact aiming_buffer hq (by omega)

/-- A store into a field of the descriptor. -/
theorem aiming_field (ψ' : VirtqDesc → Prop) (hpos : 0 < queueSize) {o k v : Nat} (hok : o + k ≤ 16)
    (hψ : ∀ m, ψ (loadDesc m virtqTx 0) → ψ' (loadDesc (store m (virtqDesc virtqTx 0 + o) k v) virtqTx 0))
    (hkeep : ∀ m, ψ (loadDesc m virtqTx 0) → InBuffer B (loadDesc m virtqTx 0) →
      InBuffer B (loadDesc (store m (virtqDesc virtqTx 0 + o) k v) virtqTx 0)) :
    Triple (aiming B queueSize bar0 n ψ) (Prog.store (virtqDesc virtqTx 0 + o) k v)
      (fun _ => aiming B queueSize bar0 n ψ') := by
  have hhi := virtqUsed_bounds queueSize virtqTx
  refine Triple.store (txRegion_queue ?_ ?_) ?_
  · rw [virtqDesc_eq]
    omega
  · rw [virtqDesc_eq]
    omega
  · rintro w ⟨hn, haimed, hw⟩
    have hidx : load (w.store (virtqDesc virtqTx 0 + o) k v).mem (availIdx queueSize virtqTx) 2
        = load w.mem (availIdx queueSize virtqTx) 2 :=
      load_store_disjoint (by rw [availIdx_eq, virtqDesc_eq]; omega)
    exact ⟨hidx.trans hn, fun hne => hkeep _ hw (haimed (hidx ▸ hne)), hψ _ hw⟩

/-- Rewriting descriptor 0 field by field: with the first store the address is right, with the second the
    length, and what was right before stays so. -/
theorem aiming_desc (hpos : 0 < queueSize) {p : Packet} (hp : p.accepted = true) :
    Triple (aiming B queueSize bar0 n (fun _ => True)) (storeDesc virtqTx 0 (txDesc B p))
      (fun _ => aiming B queueSize bar0 n (InBuffer B)) := by
  have hwin := B.tx_window
  have htotal := total_of_accepted hp
  have hlen := accepted_iff.mp hp
  have hmod : B.txBuffer % 256 ^ 8 = B.txBuffer := Nat.mod_eq_of_lt (by omega)
  have hle : p.total % 256 ^ 4 ≤ 0x1000 := by omega
  have haddr : ∀ m, (loadDesc (store m (virtqDesc virtqTx 0) 8 B.txBuffer) virtqTx 0).addr
      = B.txBuffer := by
    intro m
    exact (load_store_self _ _ _ _).trans hmod
  refine (aiming_field (o := 0) (fun d => d.addr = B.txBuffer) hpos (by omega) ?_ ?_).bind
    (fun _ => ?_)
  · exact fun m _ => haddr m
  · rintro m - ⟨-, hlen⟩
    refine ⟨haddr m, ?_⟩
    have hkeep : (loadDesc (store m (virtqDesc virtqTx 0) 8 B.txBuffer) virtqTx 0).len
        = (loadDesc m virtqTx 0).len := load_store_disjoint (by omega)
    exact hkeep.trans_le hlen
  have hset : ∀ m, (loadDesc m virtqTx 0).addr = B.txBuffer →
      InBuffer B (loadDesc (store m (virtqDesc virtqTx 0 + 8) 4 p.total) virtqTx 0) := by
    intro m haddr
    constructor
    · have hkeep : (loadDesc (store m (virtqDesc virtqTx 0 + 8) 4 p.total) virtqTx 0).addr
          = (loadDesc m virtqTx 0).addr := load_store_disjoint (by omega)
      exact hkeep.trans haddr
    · have hself : (loadDesc (store m (virtqDesc virtqTx 0 + 8) 4 p.total) virtqTx 0).len
          = p.total % 256 ^ 4 := load_store_self _ _ _ _
      exact hself.trans_le hle
  refine (aiming_field (InBuffer B) hpos (by omega) hset (fun m h _ => hset m h)).bind
    (fun _ => ?_)
  -- flags and next are no part of it
  have hkeep : ∀ m o v, 12 ≤ o → InBuffer B (loadDesc m virtqTx 0) →
      InBuffer B (loadDesc (store m (virtqDesc virtqTx 0 + o) 2 v) virtqTx 0) := by
    rintro m o v ho ⟨haddr, hlen⟩
    have hload : ∀ o' k, o' + k ≤ 12 → load (store m (virtqDesc virtqTx 0 + o) 2 v)
        (virtqDesc virtqTx 0 + o') k = load m (virtqDesc virtqTx 0 + o') k :=
      fun o' k hk => load_store_disjoint (by omega)
    exact ⟨(hload 0 8 (by omega)).trans haddr, (hload 8 4 (by omega)).trans_le hlen⟩
  refine (aiming_field (InBuffer B) hpos (by omega) (fun m => hkeep m 12 _ (by omega))
    (fun m h _ => hkeep m 12 _ (by omega) h)).bind (fun _ => ?_)
  exact aiming_field (InBuffer B) hpos (by omega) (fun m => hkeep m 14 _ (by omega))
    (fun m h _ => hkeep m 14 _ (by omega) h)

theorem prepare_aims (hq : queueSize < 0x10000) (hpos : 0 < queueSize) {p : Packet}
    (hp : p.accepted = true) :
    Triple (aiming B queueSize bar0 n (fun _ => True)) (prepare B p)
      (fun _ => aiming B queueSize bar0 n (InBuffer B)) := by
  have hlen := len_le_of_accepted hp
  refine (aiming_buffer (o := 0) hq (by omega)).bind (fun _ => ?_)
  refine (aiming_buffer hq (by omega)).bind (fun _ => ?_)
  refine (aiming_buffer hq (by omega)).bind (fun _ => ?_)
  refine (aiming_buffer hq (by omega)).bind (fun _ => ?_)
  refine (aiming_buffer hq (by omega)).bind (fun _ => ?_)
  refine (aiming_buffer hq (by omega)).bind (fun _ => ?_)
  refine (aiming_copy (o := 10 + 6) hq (by omega)).bind (fun _ => ?_)
  refine (aiming_copy hq (by decide)).bind (fun _ => ?_)
  refine (aiming_buffer (o := 10 + 12) hq (by omega)).bind (fun _ => ?_)
  refine (aiming_copy (o := 10 + 14) hq (by omega)).bind (fun _ => ?_)
  exact aiming_desc hpos hp

theorem offerTx_aims (hq : queueSize < 0x10000) (hn : n + 1 < queueSize) :
    Triple (aiming B queueSize bar0 n (InBuffer B)) (offerTx queueSize bar0)
      (fun _ => aiming B queueSize bar0 (n + 1) (fun _ => True)) := by
  have hhi := virtqUsed_bounds queueSize virtqTx
  have hidx := availIdx_eq queueSize virtqTx
  have hring := availRing_eq queueSize virtqTx n
  have hin : Set.Ico (availIdx queueSize virtqTx) (availIdx queueSize virtqTx + 2)
      ⊆ txRegion B queueSize := txRegion_queue (by omega) (by omega)
  refine Triple.load_bind (v := n) hin (fun w hw => hw.1) ?_
  refine Triple.bind (B := fun _ => aiming B queueSize bar0 (n + 1) (InBuffer B)) ?_ (fun _ => ?_)
  · refine Triple.store hin ?_
    rintro w ⟨-, -, hdesc⟩
    have hdesc' : loadDesc (w.store (availIdx queueSize virtqTx) 2 (n + 1)).mem virtqTx 0
        = loadDesc w.mem virtqTx 0 := by
      refine loadDesc_congr (store_eqOn (fun x hx => ?_))
      have hhi := hx.2
      rw [virtqDesc_eq] at hhi
      omega
    rw [← hdesc'] at hdesc
    exact ⟨(load_store_self _ _ _ _).trans (Nat.mod_eq_of_lt (by omega)), fun _ => hdesc, hdesc⟩
  refine Triple.bind (B := fun _ => aiming B queueSize bar0 (n + 1) (fun _ => True)) ?_ (fun _ => ?_)
  · refine (aiming_store (txRegion_queue ?_ ?_) ?_ ?_).weaken (fun _ hw => hw) ?_
    · omega
    · omega
    · omega
    · omega
    · exact fun _ _ hw => ⟨hw.1, hw.2.1, trivial⟩
  · exact Triple.ioWrite (fun _ hw => hw)

/-- **One call of `send_packet`** keeps the descriptor aimed. -/
theorem sendPacket_aims (B : Buffers) (bar0 : Nat) (hq : queueSize < 0x10000) (hn : n + 1 < queueSize)
    {p : Packet} (hp : p.accepted = true) :
    Triple (aiming B queueSize bar0 n (fun _ => True)) (sendPacket B queueSize bar0 p)
      (fun _ => aiming B queueSize bar0 (n + 1) (fun _ => True)) := by
  have hassert : Triple (aiming B queueSize bar0 n (fun _ => True))
      (ASSERT p.accepted "len + sizeof(ethernet_frame) + sizeof(virtio_net_hdr) <= BUFFER_LEN")
      (fun _ => aiming B queueSize bar0 n (fun _ => True)) := by
    rw [ASSERT, if_pos hp]
    exact Triple.ret (fun _ hw => hw)
  exact hassert.bind (fun _ => (prepare_aims hq (by omega) hp).bind (fun _ => offerTx_aims hq hn))

end Aim

/-- Between calls every entry of the calls so far is offered. -/
def AimIdle (B : Buffers) (queueSize : Nat) (sent : List Packet) (w : World Out TxDevice) : Prop :=
  load w.mem (availIdx queueSize virtqTx) 2 = sent.length ∧ Aimed B queueSize w.mem

theorem sender_aims (B : Buffers) (bar0 : Nat) (hq : queueSize < 0x10000) :
    Client.Verified (sender B queueSize bar0) (txEnv queueSize bar0) (fun _ => aimSpec B queueSize)
      (AimIdle B queueSize) := by
  constructor
  · rintro sent w w' ⟨hidx, haimed⟩ ⟨hs, -⟩
    exact ⟨hs.availIdx.trans hidx, haimed.of_eq hs.availIdx hs.desc⟩
  · rintro sent w sent' w' prog ⟨hidx, haimed⟩ ⟨p, hp, rfl, hfew, rfl, rfl⟩
    rw [List.length_append, List.length_singleton] at hfew
    refine ((sendPacket_aims B bar0 hq hfew hp).safe
      (w.setDev { w.dev with begun := (sent ++ [p]).length }) ⟨hidx, haimed, trivial⟩).mono ?_
    rintro _ u ⟨hidx', haimed', -⟩
    refine ⟨?_, haimed'⟩
    show load u.mem (availIdx queueSize virtqTx) 2 = (sent ++ [p]).length
    rw [hidx', List.length_append, List.length_singleton]

/-! ## The transmit side is confined -/

/-- What the transmit side is held to. -/
def txHeld (B : Buffers) (queueSize : Nat) (sent : List Packet) : Spec (World Out TxDevice) :=
  (txSpec B queueSize sent).and (aimSpec B queueSize)

theorem txHeld_patient {sent : List Packet} :
    (txHeld B queueSize sent).Patient (txEnv queueSize bar0) Out where
  act := fun _ _ hb => hb
  print := fun _ _ hb => hb
  fault := fun hf => hf.1

def TxBetween (B : Buffers) (queueSize bar0 : Nat) (sent : List Packet) (w : World Out TxDevice) :
    Prop :=
  (txIdle B queueSize bar0 sent).holds w ∧ AimIdle B queueSize sent w

section Transmit

variable {d : TxDevice}

theorem tx_load (h : Set.EqOn m m' (txRegion B queueSize)) {a n : Nat} (hlo : virtqTx ≤ a)
    (hhi : a + n ≤ virtqUsed queueSize virtqTx) : load m' a n = load m a n :=
  (load_congr (h.mono (txRegion_queue hlo (by omega)))).symm

theorem tx_idx (h : Set.EqOn m m' (txRegion B queueSize)) :
    load m' (availIdx queueSize virtqTx) 2 = load m (availIdx queueSize virtqTx) 2 := by
  have hlo := (virtqUsed_bounds queueSize virtqTx).1
  have hidx := availIdx_eq queueSize virtqTx
  exact tx_load h (by omega) (by omega)

theorem tx_ring (h : Set.EqOn m m' (txRegion B queueSize)) {k : Nat} (hk : k < queueSize) :
    load m' (availRing queueSize virtqTx k) 2 = load m (availRing queueSize virtqTx k) 2 := by
  have hlo := (virtqUsed_bounds queueSize virtqTx).1
  have hring := availRing_eq queueSize virtqTx k
  exact tx_load h (by omega) (by omega)

theorem desc_below_used (queueSize q : Nat) : virtqDesc q 0 + 16 ≤ virtqUsed queueSize q := by
  have hlo := (virtqUsed_bounds queueSize q).2.1
  rw [virtqDesc_eq]
  omega

theorem tx_desc (h : Set.EqOn m m' (txRegion B queueSize)) :
    loadDesc m' virtqTx 0 = loadDesc m virtqTx 0 := by
  have hlo := desc_below_used queueSize virtqTx
  have hstart : virtqTx ≤ virtqDesc virtqTx 0 := Nat.le_add_right _ _
  refine (loadDesc_congr (h.mono (txRegion_queue hstart ?_))).symm
  exact hlo.trans (Nat.le_add_right_of_le (Nat.le_add_right _ _))

theorem Aimed.agree (haimed : Aimed B queueSize m) (h : Set.EqOn m m' (txRegion B queueSize)) :
    Aimed B queueSize m' :=
  haimed.of_eq (tx_idx h) (tx_desc h)

/-- The invariant of the transmit side looks at its region only. -/
theorem TxInv.agree (hinv : TxInv B queueSize sent m d) (haimed : Aimed B queueSize m)
    (h : Set.EqOn m m' (txRegion B queueSize)) : TxInv B queueSize sent m' d := by
  have hidx := tx_idx h
  refine ⟨hinv.queueSize_lt, hinv.begun, hinv.few, ?_, ?_, ?_, ?_, hinv.history⟩
  · rw [hidx]
    exact hinv.idx
  · intro k hk
    rw [tx_ring h hk]
    exact hinv.ring k hk
  · rw [hidx, tx_desc h]
    intro hlast p hp
    obtain ⟨hdesc, hframe⟩ := hinv.current hlast p hp
    have hne : load m (Virtio.availIdx queueSize virtqTx) 2 ≠ 0 := by
      rw [hlast]
      rintro hnil
      rw [List.length_eq_zero_iff.mp hnil] at hp
      cases hp
    have hlen : p.total ≤ 0x1000 := by
      have haim := (haimed hne).2
      rwa [hdesc] at haim
    refine ⟨hdesc, ?_⟩
    rw [← readBytes_congr (h.mono (txRegion_buffer hlen))]
    exact hframe
  · rw [hidx]
    exact hinv.counted

/-- What the device reads for an offered entry lies in the region. -/
theorem txContent_agree (hinv : TxInv B queueSize sent m d) (haimed : Aimed B queueSize m)
    (h : Set.EqOn m m' (txRegion B queueSize)) {k : Nat}
    (hk : k < load m (Virtio.availIdx queueSize virtqTx) 2) :
    txContent m' queueSize k = txContent m queueSize k := by
  have hidx := hinv.idx
  have hfew := hinv.few (by omega)
  have hmod : k % queueSize < queueSize := Nat.mod_lt _ (by omega)
  obtain ⟨haddr, hlen⟩ := haimed (by omega)
  rw [txContent, txContent, tx_ring h hmod, hinv.ring _ hmod, tx_desc h, haddr]
  exact (readBytes_congr (h.mono (txRegion_buffer hlen))).symm

/-- A move of the device in one memory, followed in another that agrees on the region. -/
theorem TxStep.follow (hinv : TxInv B queueSize sent m d) (haimed : Aimed B queueSize m)
    {n n' : Mem} {d' : TxDevice} (h : Set.EqOn m n (txRegion B queueSize))
    (hs : TxStep queueSize n d n' d') :
    ∃ m', TxStep queueSize m d m' d' ∧ Set.EqOn m' n' (txRegion B queueSize) := by
  cases hs with
  | consume hnotified hposted =>
      rw [tx_idx h] at hposted
      rw [txContent_agree hinv haimed h hposted]
      exact ⟨m, .consume hnotified hposted, h⟩
  | use hused =>
      obtain ⟨m', hin, hout⟩ := exists_patch (txRegion B queueSize) m n'
      refine ⟨m', .use (fun x hx => ?_), hin⟩
      by_cases hmem : x ∈ txRegion B queueSize
      · exact (hin hmem).trans ((hused x hx).trans (h hmem).symm)
      · exact hout x hmem

theorem tx_local (bar0 : Nat) :
    Local (txEnv queueSize bar0) (txHeld B queueSize sent) (txRegion B queueSize) where
  always := by
    rintro w u hag ⟨hinv, haimed⟩
    have hinv' : TxInv B queueSize sent u.mem u.dev := by
      rw [← hag.dev]
      exact TxInv.agree hinv haimed hag.mem
    exact ⟨hinv', Aimed.agree haimed hag.mem⟩
  access := fun _ _ h => h.2
  blocked := fun _ _ _ hb => hb
  follow := by
    rintro w u u' hag ⟨hinv, haimed⟩ ⟨hs, hout⟩
    rw [← hag.dev] at hs
    obtain ⟨m', hstep, hin⟩ := hs.follow hinv haimed hag.mem
    exact ⟨⟨m', u'.dev, w.out⟩, ⟨hstep, rfl⟩, hin, rfl, hag.out.trans hout.symm⟩

/-- An accepted packet is sent silently. -/
theorem sendPacket_silent {p : Packet} (hp : p.accepted = true) :
    (sendPacket B queueSize bar0 p).Prints (fun _ => False) := by
  have hcopy : ∀ a n src, (copyBytes a n src).Prints (fun _ => False) :=
    fun a n src => Prog.Prints.forLoop (fun _ _ => trivial)
  have hprepare : (prepare B p).Prints (fun _ => False) :=
    (hcopy _ _ _).bind (fun _ => (hcopy _ _ _).bind (fun _ => (hcopy _ _ _).bind (fun _ => trivial)))
  have hassert : (ASSERT p.accepted
      "len + sizeof(ethernet_frame) + sizeof(virtio_net_hdr) <= BUFFER_LEN").Prints (fun _ => False) := by
    rw [ASSERT, if_pos hp]
    trivial
  exact hassert.bind (fun _ => hprepare.bind (fun _ => fun _ => trivial))

theorem sender_confined (B : Buffers) (bar0 : Nat) (hq : queueSize < 0x10000) :
    (sender B queueSize bar0).Confined (txEnv queueSize bar0) (txHeld B queueSize)
      (TxBetween B queueSize bar0) (txRegion B queueSize) (fun _ => False) where
  toVerified := (sender_verified B queueSize bar0).and (sender_aims B bar0 hq)
  during := fun _ => tx_local bar0
  between := by
    rintro sent w u hag ⟨⟨⟨hinv, hidx⟩, hnotified⟩, hidx', haimed⟩
    have hkept : load u.mem (availIdx queueSize virtqTx) 2 = sent.length := (tx_idx hag.mem).trans hidx
    rw [hag.dev] at hinv hnotified
    exact ⟨⟨⟨hinv.agree haimed hag.mem, hkept⟩, hnotified⟩, hkept, haimed.agree hag.mem⟩
  done := fun _ _ _ _ _ => rfl
  device := by
    rintro sent w w' - ⟨hs, -⟩ x hx
    have hhi := (virtqUsed_bounds queueSize virtqTx)
    apply hs.frame
    by_contra hin
    exact hx (Or.inl ⟨by omega, by omega⟩)
  begins := by
    rintro sent w sent' w' p ⟨q, -, -, -, rfl, -⟩
    exact ⟨rfl, rfl⟩
  prints := by
    rintro sent w sent' w' p ⟨q, hq, -, -, -, rfl⟩
    exact sendPacket_silent hq

/-- Between its calls the transmit side does not mind what is printed or which ports are written. -/
theorem sender_bears (P : Out → Prop) :
    Bears (txEnv queueSize bar0) (TxBetween B queueSize bar0) P where
  print := fun _ _ _ _ h => h
  write := by
    rintro sent w n address v ⟨⟨⟨hinv, hidx⟩, hnotified⟩, haim⟩
    have hwrite : ∀ d : TxDevice, (txEnv queueSize bar0).write d n address v = d ∨
        (txEnv queueSize bar0).write d n address v = { d with notified := true } := by
      intro d
      simp only [txEnv]
      split
      · exact Or.inr rfl
      · exact Or.inl rfl
    rcases hwrite w.dev with hdev | hdev
    · rw [hdev]
      exact ⟨⟨⟨hinv, hidx⟩, hnotified⟩, haim⟩
    · rw [hdev]
      exact ⟨⟨⟨⟨hinv.queueSize_lt, hinv.begun, hinv.few, hinv.idx, hinv.ring, hinv.current,
        hinv.counted, hinv.history⟩, hidx⟩, fun _ => rfl⟩, haim⟩

end Transmit

/-! ## The receive side is confined -/

section Receive

variable {d d' : RxDevice} {out₀ : List Out} {g : Receiver}

theorem Stored.agree {k : Nat} {e : Received} (hs : Stored B queueSize m k e) (hk : k < queueSize)
    (h : Set.EqOn m m' (rxRegion B queueSize)) : Stored B queueSize m' k e := by
  have hlo := virtqUsed_bounds queueSize virtqRx
  have hring := usedRing_eq queueSize virtqRx k
  refine hs.congr (h.symm.mono (rxRegion_queue ?_ ?_)) (h.symm.mono (rxRegion_buffer hs.id_lt))
  · omega
  · omega

/-- The invariant of the receive side looks at its region only. -/
theorem RxInv.agree (hinv : RxInv B queueSize m d) (h : Set.EqOn m m' (rxRegion B queueSize)) :
    RxInv B queueSize m' d := by
  have hlo := virtqUsed_bounds queueSize virtqRx
  have hge := hinv.queueSize_ge
  obtain ⟨hidx, hring, hdesc⟩ := hinv.congr_setup m' (fun x hx₁ hx₂ =>
    (h (rxRegion_queue (a := virtqRx) (n := virtqUsed queueSize virtqRx - virtqRx) (Nat.le_refl _)
      (by omega) ⟨hx₁, by omega⟩)).symm)
  refine { hinv with availIdx := hidx, availRing := hring, desc := hdesc, usedIdx := ?_, stored := ?_ }
  · rw [← load_congr (h.mono (rxRegion_queue (by rw [usedIdx_eq]; omega) (by rw [usedIdx_eq]; omega)))]
    exact hinv.usedIdx
  · intro k e he
    have hk : k < d.published.length := (List.getElem?_eq_some_iff.mp he).1
    have hle := hinv.published_le
    exact (hinv.stored k e he).agree (by omega) h

/-- The device writes inside the region. -/
theorem RxStep.outside (hinv : RxInv B queueSize m d) (hs : RxStep queueSize m d m' d') {x : Nat}
    (hx : x ∉ rxRegion B queueSize) : m' x = m x := by
  have hlo := virtqUsed_bounds queueSize virtqRx
  have hge := hinv.queueSize_ge
  have hqueue : x < virtqRx ∨ virtqUsed queueSize virtqRx + 6 + 8 * queueSize ≤ x := by
    by_contra hin
    exact hx (Or.inl ⟨by omega, by omega⟩)
  cases hs with
  | consume => rfl
  | @fill m' _ id hid hframe =>
      rw [hinv.desc _ (hinv.held_lt hid)] at hframe
      apply hframe
      by_contra hin
      have hbuffer : x ∈ Set.Ico (B.rx id) (B.rx id + 0x1000) := ⟨by
        have hrx : ¬ x < B.rx id := fun hlt => hin (Or.inl hlt)
        omega, by
        have hrx : ¬ B.rx id + 0x1000 ≤ x := fun hle => hin (Or.inr hle)
        omega⟩
      exact hx (rxRegion_buffer (hinv.held_lt hid) hbuffer)
  | enter hid hframe =>
      have hslot : load m (usedIdx queueSize virtqRx) 2 % queueSize < queueSize :=
        Nat.mod_lt _ (by omega)
      apply hframe
      rw [usedRing_eq]
      omega
  | publish =>
      apply store_outside
      rw [usedIdx_eq]
      omega

/-- A move of the device in one memory, followed in another that agrees on the region. -/
theorem RxStep.follow {n n' : Mem} (hinv : RxInv B queueSize m d)
    (h : Set.EqOn m n (rxRegion B queueSize)) (hs : RxStep queueSize n d n' d') :
    ∃ m', RxStep queueSize m d m' d' ∧ Set.EqOn m' n' (rxRegion B queueSize) := by
  have hlo := virtqUsed_bounds queueSize virtqRx
  have hge := hinv.queueSize_ge
  have hinv' := hinv.agree h
  have hidx : load n (usedIdx queueSize virtqRx) 2 = load m (usedIdx queueSize virtqRx) 2 :=
    hinv'.usedIdx.trans hinv.usedIdx.symm
  have hslot : load m (usedIdx queueSize virtqRx) 2 % queueSize < queueSize := Nat.mod_lt _ (by omega)
  have hused : ∀ k < queueSize, loadUsed n queueSize virtqRx k = loadUsed m queueSize virtqRx k := by
    intro k hk
    have hring := usedRing_eq queueSize virtqRx k
    exact (loadUsed_congr (h.mono (rxRegion_queue (by omega) (by omega)))).symm
  have hdesc : ∀ id ∈ d.held, loadDesc n virtqRx id = loadDesc m virtqRx id := by
    intro id hid
    rw [hinv.desc id (hinv.held_lt hid), hinv'.desc id (hinv.held_lt hid)]
  -- a write that leaves everything outside a range alone
  have hwrite : ∀ lo hi, (∀ x, x < lo ∨ hi ≤ x → n' x = n x) →
      ∃ m', (∀ x, x < lo ∨ hi ≤ x → m' x = m x) ∧ Set.EqOn m' n' (rxRegion B queueSize) := by
    intro lo hi hframe
    obtain ⟨m', hin, hout⟩ := exists_patch (rxRegion B queueSize) m n'
    refine ⟨m', fun x hx => ?_, hin⟩
    by_cases hmem : x ∈ rxRegion B queueSize
    · exact (hin hmem).trans ((hframe x hx).trans (h hmem).symm)
    · exact hout x hmem
  cases hs with
  | consume hposted =>
      have hmod : d.consumed % queueSize = d.consumed := by
        rw [hinv'.availIdx] at hposted
        exact Nat.mod_eq_of_lt (by omega)
      have hentry : load n (availRing queueSize virtqRx (d.consumed % queueSize)) 2
          = load m (availRing queueSize virtqRx (d.consumed % queueSize)) 2 := by
        rw [hinv'.availIdx] at hposted
        rw [hmod, hinv.availRing _ hposted, hinv'.availRing _ hposted]
      rw [hentry]
      rw [hinv'.availIdx, ← hinv.availIdx] at hposted
      exact ⟨m, .consume hposted, h⟩
  | fill hid hframe =>
      rw [hdesc _ hid] at hframe
      obtain ⟨m', hframe', hin⟩ := hwrite _ _ hframe
      exact ⟨m', .fill hid hframe', hin⟩
  | enter hid hframe =>
      rw [hidx] at hframe
      obtain ⟨m', hframe', hin⟩ := hwrite _ _ hframe
      exact ⟨m', .enter hid hframe', hin⟩
  | @publish _ used hid hentry hmin hmax =>
      rw [hidx, hused _ hslot] at hentry
      have hcontent : readBytes n (loadDesc n virtqRx used.id).addr used.len
          = readBytes m (loadDesc m virtqRx used.id).addr used.len := by
        rw [hdesc _ hid, hinv.desc _ (hinv.held_lt hid)]
        refine (readBytes_congr (h.mono (Set.Subset.trans ?_ (rxRegion_buffer (hinv.held_lt hid))))).symm
        exact Set.Ico_subset_Ico (Nat.le_refl _) (Nat.add_le_add_left hmax _)
      rw [hidx, hcontent]
      exact ⟨_, .publish hid hentry hmin hmax, store_congr h⟩

theorem RxBase.agree {w u : World Out RxDevice} (h : RxBase B queueSize g w)
    (hag : Agree (rxRegion B queueSize) w u) : RxBase B queueSize g u := by
  obtain ⟨hinv, hhead, hconsecutive, hcomplete⟩ := h
  rw [hag.dev] at hinv hhead hcomplete
  exact ⟨hinv.agree hag.mem, hhead, hconsecutive, hcomplete⟩

theorem RxAccess.within {a n : Nat} (hq : 16 ≤ queueSize) (h : RxAccess B queueSize a n) :
    Set.Ico a (a + n) ⊆ rxRegion B queueSize := by
  have hlo := virtqUsed_bounds queueSize virtqRx
  cases h with
  | usedIdx => exact rxRegion_queue (by rw [usedIdx_eq]; omega) (by rw [usedIdx_eq]; omega)
  | used hi ho => exact rxRegion_queue (by rw [usedRing_eq]; omega) (by rw [usedRing_eq]; omega)
  | desc hj ho =>
      rw [nRxBuffers] at hj
      exact rxRegion_queue (by rw [virtqDesc_eq]; omega) (by rw [virtqDesc_eq]; omega)
  | @buffer j o hj ho =>
      rw [bufferLen] at ho
      exact Set.Subset.trans (Set.Ico_subset_Ico (Nat.le_add_right _ _) (by omega)) (rxRegion_buffer hj)

theorem rx_local (B : Buffers) (out₀ : List Out) (g : Receiver) (hq : 16 ≤ queueSize) :
    Local (rxEnv queueSize) (rxSpec B queueSize out₀ g) (rxRegion B queueSize) where
  always := by
    rintro w u hag ⟨hduring, hle, hout⟩
    have hseen := hduring.seen_le
    have hbefore := hduring.before
    rw [hag.dev] at hseen hbefore hout
    rw [hag.out] at hle hout
    exact ⟨⟨hduring.toRxBase.agree hag, hseen, hbefore⟩, hle, hout⟩
  access := fun _ _ h => h.within hq
  blocked := by
    intro w u hag hb
    have hwait : w.dev.published.length = g.head := hb
    rwa [hag.dev] at hwait
  follow := by
    rintro w u u' hag ⟨hduring, -, -⟩ ⟨hs, hout⟩
    rw [← hag.dev] at hs
    obtain ⟨m', hstep, hin⟩ := hs.follow hduring.inv hag.mem
    exact ⟨⟨m', u'.dev, w.out⟩, ⟨hstep, rfl⟩, hin, rfl, hag.out.trans hout.symm⟩

theorem receiver_confined (B : Buffers) (bar0 : Nat) (out₀ : List Out) (hq : 16 ≤ queueSize) :
    (receiver queueSize bar0).Confined (rxEnv queueSize) (rxSpec B queueSize out₀)
      (RxIdle B queueSize out₀) (rxRegion B queueSize) (fun _ => True) where
  toVerified := receiver_verified B queueSize bar0 out₀
  during := fun g => rx_local B out₀ g hq
  between := by
    intro g w u hag h
    refine ⟨h.toRxBase.agree hag, ?_⟩
    rw [← hag.out, ← hag.dev]
    exact h.out
  done := by
    intro g receiveHead w u hag
    simp only [receiver, hag.out]
  device := by
    rintro g w w' h ⟨hs, -⟩ x hx
    have hinv : RxInv B queueSize w.mem w.dev := by
      rcases h with h | h
      · exact h.1.inv
      · exact h.inv
    exact hs.outside hinv hx
  begins := by
    rintro g w g' w' p ⟨-, rfl, -⟩
    exact ⟨rfl, rfl⟩
  prints := fun _ _ _ _ p _ => p.prints_any

theorem receiver_bears : Bears (rxEnv queueSize) (RxIdle B queueSize out₀) (fun _ => False) where
  print := fun _ _ _ h _ => h.elim
  write := fun _ _ _ _ _ h => h

end Receive

/-! ## Main result -/

/-- What is promised of every reachable state of the two halves together. `sending` and `receiving` are
    the call in progress, if there is one. -/
structure DuplexKept (B : Buffers) (queueSize bar0 : Nat) (w₀ : World Out (TxDevice × RxDevice))
    (sent : List Packet) (g : Receiver) (prog : Option (Prog Out (Unit ⊕ Nat)))
    (w : World Out (TxDevice × RxDevice)) (sending : Option (Prog Out Unit))
    (receiving : Option (Prog Out Nat)) : Prop where
  running : Running prog sending receiving
  /-- a packet the device reads before the next `send_packet` call begins is the one that was sent -/
  begun : w.dev.1.begun = sent.length
  transmitted_le : w.dev.1.transmitted.length ≤ sent.length
  in_time : ∀ k t, w.dev.1.transmitted[k]? = some t → t.begun = k + 1 →
    ∃ p, sent[k]? = some p ∧ t.content = p.frame
  /-- what the device reads next lies in `tx_buffer`, whatever it has received -/
  aimed : Aimed B queueSize w.mem
  /-- every published element is reported once and in order, as without the sending -/
  received : ReceivedOnce B queueSize (w₀.view Prod.snd) g receiving (w.view Prod.snd)
  /-- a `send_packet` call needs nothing from the device; a `receive_packet` call only something new -/
  send_returns : ∀ p, sending = some p →
    ∃ w', Returns ((txEnv queueSize bar0).beside (rxEnv queueSize)) p w () w'
  receive_returns : ∀ p, receiving = some p → g.head < w.dev.2.published.length →
    ∃ receiveHead w', Returns ((txEnv queueSize bar0).beside (rxEnv queueSize)) p w receiveHead w'
  /-- the calls stay in their own memory -/
  send_access : ∀ p a n, sending = some p → p.nextAccess = some (a, n) →
    Set.Ico a (a + n) ⊆ txRegion B queueSize
  receive_access : ∀ p a n, receiving = some p → p.nextAccess = some (a, n) →
    Set.Ico a (a + n) ⊆ rxRegion B queueSize
  send_no_fault : sending ≠ some .fault

/-- What the receive side's invariant says of its part of the world. -/
theorem receivedOnce_of_inv {w₀ u : World Out RxDevice} {g : Receiver} {prog : Option (Prog Out Nat)}
    (h : (receiver queueSize bar0).Inv (rxEnv queueSize) (rxSpec B queueSize w₀.out)
      (RxIdle B queueSize w₀.out) (g, prog, u)) : ReceivedOnce B queueSize w₀ g prog u := by
  cases prog with
  | none =>
      have hidle : RxIdle B queueSize w₀.out g u := h
      have hreports := hidle.out
      refine hidle.toRxBase.receivedOnce ?_ ?_ (fun _ => hreports) (by rintro p ⟨⟩)
      · rw [hreports]
        exact List.prefix_append_right_inj _ |>.mpr (reports_mono (List.take_prefix _ _))
      · exact ⟨[], (List.append_nil _).trans hreports.symm⟩
  | some p =>
      have hsafe : Safe (rxEnv queueSize) (rxSpec B queueSize w₀.out g) _ p u := h
      obtain ⟨hduring, hle, hout⟩ := hsafe.always
      rw [hduring.before] at hle
      refine hduring.toRxBase.receivedOnce hout hle (by rintro ⟨⟩) ?_
      rintro q ⟨⟩
      refine ⟨fun hnew => ?_, hsafe.ne_fault not_false, fun a n ha => hsafe.access ha⟩
      obtain ⟨receiveHead, v, hrun, -⟩ := hsafe.returns (fun _ _ _ => ⟨0, trivial⟩) rxSpec_patient
        (fun hb => absurd hb (Nat.ne_of_gt hnew))
      exact ⟨receiveHead, v, hrun⟩

theorem txInv_of_inv {u : World Out TxDevice} {prog : Option (Prog Out Unit)}
    (h : (sender B queueSize bar0).Inv (txEnv queueSize bar0) (txHeld B queueSize)
      (TxBetween B queueSize bar0) (sent, prog, u)) :
    TxInv B queueSize sent u.mem u.dev ∧ Aimed B queueSize u.mem := by
  cases prog with
  | none =>
      obtain ⟨hidle, haim⟩ : TxBetween B queueSize bar0 sent u := h
      exact ⟨(txIdle B queueSize bar0 sent).always u hidle, haim.2⟩
  | some p =>
      have hsafe : Safe (txEnv queueSize bar0) (txHeld B queueSize sent) _ p u := h
      exact hsafe.always

/-- Part of the device sees the initialisation as well. -/
theorem InitialisedBy.view {δ δ' : Type} {reads : Nat → Nat → Nat → Prop} {w₀ w : World Out δ}
    (h : InitialisedBy B bar0 reads w₀ queueSize w) (f : δ → δ') :
    InitialisedBy B bar0 reads (w₀.view f) queueSize (w.view f) :=
  Returns.view (Env.alone δ' reads) f (fun _ _ _ _ hr => hr) (fun _ _ _ _ => rfl) h

/-- Both halves at the start, on an initialised device. -/
theorem duplex_start {reads : Nat → Nat → Nat → Prop} {w₀ w : World Out (TxDevice × RxDevice)}
    (hinit : InitialisedBy B bar0 reads w₀ queueSize w) (hq : nRxBuffers ≤ queueSize)
    (hstart : w₀.dev = (TxDevice.start, RxDevice.start)) :
    TxBetween B queueSize bar0 [] (w.view Prod.fst) ∧
      RxIdle B queueSize w.out Receiver.start (w.view Prod.snd) := by
  have htx := txIdle_start (hinit.view Prod.fst) (congrArg Prod.fst hstart)
  have hidx : load w.mem (availIdx queueSize virtqTx) 2 = 0 := htx.1.2
  exact ⟨⟨htx, hidx, fun hne => absurd hidx hne⟩,
    rxIdle_start (hinit.view Prod.snd) hq (congrArg Prod.snd hstart)⟩

/-- The invariants of both halves in every reachable state. -/
theorem duplex_reachable {w : World Out (TxDevice × RxDevice)} (hqs : queueSize < 0x10000)
    (hq : nRxBuffers ≤ queueSize) (htx : TxBetween B queueSize bar0 [] (w.view Prod.fst))
    (hrx : RxIdle B queueSize w.out Receiver.start (w.view Prod.snd))
    {s : Client.State Out (TxDevice × RxDevice) (List Packet × Receiver) (Unit ⊕ Nat)}
    (hrun : Client.Reaches ((sender B queueSize bar0).beside (receiver queueSize bar0))
      ((txEnv queueSize bar0).beside (rxEnv queueSize)) (([], Receiver.start), none, w) s) :
    ∃ sending receiving, BothInv (sender B queueSize bar0) (receiver queueSize bar0)
      (txEnv queueSize bar0) (rxEnv queueSize) (txHeld B queueSize) (rxSpec B queueSize w.out)
      (TxBetween B queueSize bar0) (RxIdle B queueSize w.out) (fun _ => False) (fun _ => True) s
      sending receiving :=
  beside_reachable (sender_confined B bar0 hqs) (receiver_confined B bar0 w.out hq)
    (regions_disjoint hqs) (sender_bears _) receiver_bears htx hrx hrun

/-- **Full duplex.** In every interleaving of `send_packet` and `receive_packet` calls with a device that
    moves on both queues, each half keeps what it guarantees alone: with queues of at least `nRxBuffers`
    entries, and `sender` making fewer than `queueSize` calls in all. -/
theorem full_duplex (B : Buffers) (bar0 : Nat) {reads : Nat → Nat → Nat → Prop} {queueSize : Nat}
    {w₀ w u : World Out (TxDevice × RxDevice)} {sent : List Packet} {g : Receiver}
    {prog : Option (Prog Out (Unit ⊕ Nat))} (hinit : InitialisedBy B bar0 reads w₀ queueSize w)
    (hq : nRxBuffers ≤ queueSize) (hstart : w₀.dev = (TxDevice.start, RxDevice.start))
    (hrun : Client.Reaches ((sender B queueSize bar0).beside (receiver queueSize bar0))
      ((txEnv queueSize bar0).beside (rxEnv queueSize)) (([], Receiver.start), none, w)
      ((sent, g), prog, u)) :
    ∃ sending receiving, DuplexKept B queueSize bar0 w sent g prog u sending receiving := by
  obtain ⟨htx, hrx⟩ := duplex_start hinit hq hstart
  obtain ⟨sending, receiving, hboth⟩ := duplex_reachable hinit.memory.1.queueSize_lt hq htx hrx hrun
  obtain ⟨hinv, haimed⟩ := txInv_of_inv hboth.first
  refine ⟨sending, receiving,
    { running := hboth.running
      begun := hinv.begun
      transmitted_le := hinv.counted.trans hinv.idx
      in_time := hinv.history
      aimed := haimed
      received := receivedOnce_of_inv hboth.second
      send_returns := ?_
      receive_returns := ?_
      send_access := ?_
      receive_access := ?_
      send_no_fault := ?_ }⟩
  · rintro p rfl
    have hsafe : Safe (txEnv queueSize bar0) (txHeld B queueSize sent) _ p (u.view Prod.fst) :=
      hboth.first
    obtain ⟨⟨⟩, v, halone, -⟩ := hsafe.returns (fun _ _ _ => ⟨0, trivial⟩)
      txHeld_patient (fun hb => hb.1)
    obtain ⟨w', hboth', -⟩ := halone.of_view (E := (txEnv queueSize bar0).beside (rxEnv queueSize))
      (fun _ _ _ _ _ => ⟨trivial, trivial⟩) (fun _ _ _ _ => rfl)
    exact ⟨w', hboth'⟩
  · rintro p rfl hnew
    have hsafe : Safe (rxEnv queueSize) (rxSpec B queueSize w.out g) _ p (u.view Prod.snd) :=
      hboth.second
    obtain ⟨receiveHead, v, halone, -⟩ := hsafe.returns (fun _ _ _ => ⟨0, trivial⟩) rxSpec_patient
      (fun hb => absurd hb (Nat.ne_of_gt hnew))
    obtain ⟨w', hboth', -⟩ := halone.of_view (E := (txEnv queueSize bar0).beside (rxEnv queueSize))
      (fun _ _ _ _ _ => ⟨trivial, trivial⟩) (fun _ _ _ _ => rfl)
    exact ⟨receiveHead, w', hboth'⟩
  · rintro p a n rfl ha
    have hsafe : Safe (txEnv queueSize bar0) (txHeld B queueSize sent) _ p (u.view Prod.fst) :=
      hboth.first
    exact (hsafe.access ha).2
  · rintro p a n rfl ha
    have hsafe : Safe (rxEnv queueSize) (rxSpec B queueSize w.out g) _ p (u.view Prod.snd) :=
      hboth.second
    exact (hsafe.access ha).within hq
  · rintro rfl
    have hsafe : Safe (txEnv queueSize bar0) (txHeld B queueSize sent) _ .fault (u.view Prod.fst) :=
      hboth.first
    exact hsafe.ne_fault (fun hf => hf.1) rfl

/-- The theorem covers a run that receives one element and then sends a packet. -/
theorem full_duplex_sample : ∃ (w u : World Out (TxDevice × RxDevice)) (g : Receiver),
    InitialisedBy sampleBuffers 0xc000 (onesPorts 0xc000 16)
      (blankWorld (TxDevice.start, RxDevice.start)) 16 w ∧ g.head = 1 ∧
      ∃ sending receiving, DuplexKept sampleBuffers 16 0xc000 w [oneByte 0x41] g none u sending
        receiving := by
  obtain ⟨w, hinit⟩ := (cooperative_onesPorts 0xc000 (by decide : 16 < 0x10000)).initialises
    sampleBuffers (blankWorld (TxDevice.start, RxDevice.start))
  obtain ⟨htx, hrx⟩ := duplex_start hinit (by decide) rfl
  have hdev : (w.view Prod.snd).dev = RxDevice.start := congrArg Prod.snd hinit.memory.2
  obtain ⟨g, _, hreceive, -, hhead, -⟩ := receive_next 0xc000 (headed [0x41]) hrx hdev rfl
    (by decide) (by decide) (by decide)
  obtain ⟨v, -, hfirst, -⟩ := Client.Reaches.second (sender sampleBuffers 16 0xc000)
    (txEnv 16 0xc000) [] (fun _ _ _ _ => trivial) hreceive
  obtain ⟨sending, receiving, hboth⟩ := duplex_reachable (by decide) (by decide) htx hrx hfirst
  have hidle : (txIdle sampleBuffers 16 0xc000 []).holds (v.view Prod.fst) := by
    cases hboth.running
    exact hboth.first.1
  have hcall : (sender sampleBuffers 16 0xc000).call [] (v.view Prod.fst) [oneByte 0x41] _ _ :=
    ⟨oneByte 0x41, by decide, rfl, by decide, rfl, rfl⟩
  obtain ⟨_, u, hsend, -, -⟩ := (sender_verified sampleBuffers 16 0xc000).completes
    (P := fun _ => True) (fun _ _ _ => ⟨0, trivial⟩) txSpec_patient (fun _ _ _ _ h => h) hidle
    hcall id trivial
  obtain ⟨u', -, hsecond, -⟩ := Client.Reaches.first (receiver 16 0xc000) (rxEnv 16) g
    (fun _ _ _ _ => trivial) hsend
  exact ⟨w, u', g, hinit, hhead,
    full_duplex sampleBuffers 0xc000 hinit (by decide) rfl (hfirst.trans hsecond)⟩

end Virtio
end SysproKernel

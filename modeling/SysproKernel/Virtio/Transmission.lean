import SysproKernel.Virtio.Send

/-!
# `Virtio.Transmission` — `send_packet` beside a device that consumes the transmit queue

The system is a sequence of `send_packet` calls interleaved, at every memory access, with a device that
may take the next available entry at any time after a notify and write into the used ring as it likes.
Each transmission is recorded with the number of calls begun when the device read the buffer.

All calls share `tx_buffer` and descriptor 0, and none looks at the used ring, so what the device reads
for entry `k` is the frame of call `k` only while that call is the latest. The invariant `TxInv` says
exactly this: `current` describes the buffer between calls, `history` what was transmitted in time.
-/

namespace SysproKernel
namespace Virtio

open Lib.ByteMem Lib.Loop Lib.Driver

/-! ## The device -/

/-- One transmitted packet, and how many calls had begun when the device read it. -/
structure Transmission where
  begun : Nat
  content : List UInt8

/-- The device's side of the transmit queue. It has consumed as many entries as it has transmitted. -/
structure TxDevice where
  begun : Nat
  notified : Bool
  transmitted : List Transmission

def TxDevice.start : TxDevice := { begun := 0, notified := false, transmitted := [] }

/-- What the device reads for entry `k` of the available ring. -/
def txContent (m : Mem) (queueSize k : Nat) : List UInt8 :=
  let desc := loadDesc m virtqTx (load m (availRing queueSize virtqTx (k % queueSize)) 2)
  readBytes m desc.addr desc.len

/-- The device's moves: consume the next entry, or write into the used ring. -/
inductive TxStep (queueSize : Nat) : Mem → TxDevice → Mem → TxDevice → Prop
  | consume {m : Mem} {d : TxDevice} (hnotified : d.notified = true)
      (hposted : d.transmitted.length < load m (availIdx queueSize virtqTx) 2) :
      TxStep queueSize m d m
        { d with transmitted := d.transmitted ++ [⟨d.begun, txContent m queueSize d.transmitted.length⟩] }
  | use {m m' : Mem} {d : TxDevice}
      (hused : ∀ x, x < virtqUsed queueSize virtqTx ∨
        virtqUsed queueSize virtqTx + 6 + 8 * queueSize ≤ x → m' x = m x) :
      TxStep queueSize m d m' d

def txEnv (queueSize bar0 : Nat) : Env TxDevice :=
  { step := TxStep queueSize
    reads := fun _ _ _ _ => True
    write := fun d n address v =>
      if n = 2 ∧ address = port bar0 offsetQueueNotify ∧ v = queueIdTx then { d with notified := true }
      else d }

/-- The calls: any accepted packet, fewer calls than the queue has entries. The bookkeeping is the list
    of packets whose call has begun. -/
def sender (B : Buffers) (queueSize bar0 : Nat) : Client Out TxDevice (List Packet) Unit :=
  { call := fun sent w sent' w' prog => ∃ p : Packet, p.accepted = true ∧ sent' = sent ++ [p] ∧
      sent'.length < queueSize ∧ w' = w.setDev { w.dev with begun := sent'.length } ∧
      prog = sendPacket B queueSize bar0 p
    done := fun sent _ _ => sent }

/-! ## The invariant -/

structure TxInv (B : Buffers) (queueSize : Nat) (sent : List Packet) (m : Mem) (d : TxDevice) :
    Prop where
  queueSize_lt : queueSize < 0x10000
  begun : d.begun = sent.length
  few : 0 < sent.length → sent.length < queueSize
  idx : load m (availIdx queueSize virtqTx) 2 ≤ sent.length
  ring : ∀ k < queueSize, load m (availRing queueSize virtqTx k) 2 = 0
  /-- once the latest call has offered its entry, the buffer holds its frame -/
  current : load m (availIdx queueSize virtqTx) 2 = sent.length → ∀ p, sent.getLast? = some p →
    loadDesc m virtqTx 0 = txDesc B p ∧ readBytes m B.txBuffer p.total = p.frame
  counted : d.transmitted.length ≤ load m (availIdx queueSize virtqTx) 2
  /-- a packet transmitted before the next call began is the one that was sent -/
  history : ∀ k t, d.transmitted[k]? = some t → t.begun = k + 1 →
    ∃ p, sent[k]? = some p ∧ t.content = p.frame

variable {B : Buffers} {queueSize bar0 : Nat} {sent : List Packet} {m m' : Mem} {d d' : TxDevice}

/-- What the invariant depends on. -/
theorem TxInv.of_eq (h : TxInv B queueSize sent m d)
    (hidx : load m' (Virtio.availIdx queueSize virtqTx) 2
      = load m (Virtio.availIdx queueSize virtqTx) 2)
    (hring : ∀ k < queueSize, load m' (availRing queueSize virtqTx k) 2 = 0)
    (hdesc : loadDesc m' virtqTx 0 = loadDesc m virtqTx 0)
    (hbuffer : ∀ n, readBytes m' B.txBuffer n = readBytes m B.txBuffer n) :
    TxInv B queueSize sent m' d := by
  refine ⟨h.queueSize_lt, h.begun, h.few, ?_, hring, ?_, ?_, h.history⟩
  · rw [hidx]
    exact h.idx
  · rw [hidx, hdesc]
    intro hlast p hp
    rw [hbuffer]
    exact h.current hlast p hp
  · rw [hidx]
    exact h.counted

/-- The invariant does not depend on the used ring. -/
theorem TxInv.congr (h : TxInv B queueSize sent m d)
    (heq : ∀ x, x < virtqUsed queueSize virtqTx ∨
      virtqUsed queueSize virtqTx + 6 + 8 * queueSize ≤ x → m' x = m x) :
    TxInv B queueSize sent m' d := by
  obtain ⟨hlo, hpage, hhi⟩ := virtqUsed_bounds queueSize virtqTx
  have hend := (virtqSize_lt h.queueSize_lt).2
  have hwin := B.tx_window
  have hload : ∀ a n, a + n ≤ virtqUsed queueSize virtqTx → load m' a n = load m a n := by
    intro a n han
    exact load_congr (fun x hx => heq x (by have := hx.2; omega))
  apply h.of_eq
  · exact hload _ _ (by rw [availIdx_eq]; omega)
  · intro k hk
    rw [hload _ _ (by rw [availRing_eq]; omega)]
    exact h.ring k hk
  · exact loadDesc_congr (fun x hx => heq x (by have := hx.2; rw [virtqDesc_eq] at this; omega))
  · intro n
    exact readBytes_congr (fun x hx => heq x (by have := hx.1; omega))

/-- While the buffer is the latest call's, the device reads that call's frame. -/
theorem TxInv.content {k : Nat} (h : TxInv B queueSize sent m d)
    (hk : k < load m (availIdx queueSize virtqTx) 2)
    (hlast : load m (availIdx queueSize virtqTx) 2 = sent.length) {p : Packet}
    (hp : sent.getLast? = some p) : txContent m queueSize k = p.frame := by
  have hkq : k < queueSize := by
    have hfew := h.few
    omega
  obtain ⟨hdesc, hframe⟩ := h.current hlast p hp
  rw [txContent, Nat.mod_eq_of_lt hkq, h.ring k hkq, hdesc]
  exact hframe

/-- **The device keeps the invariant.** -/
theorem TxInv.step (h : TxInv B queueSize sent m d) (hs : TxStep queueSize m d m' d') :
    TxInv B queueSize sent m' d' := by
  cases hs with
  | use hused => exact h.congr hused
  | consume hnotified hposted =>
      refine ⟨h.queueSize_lt, h.begun, h.few, h.idx, h.ring, h.current, ?_, ?_⟩
      · rw [List.length_append, List.length_singleton]
        exact hposted
      · intro k t ht hbegun
        rcases Nat.lt_trichotomy k d.transmitted.length with hk | hk | hk
        · rw [List.getElem?_append_left hk] at ht
          exact h.history k t ht hbegun
        · -- the entry just consumed: in time only if it is the latest call's
          subst hk
          rw [List.getElem?_concat_length] at ht
          cases ht
          have hlen : sent.length = d.transmitted.length + 1 := h.begun.symm.trans hbegun
          have hidx := h.idx
          obtain ⟨p, hp⟩ : ∃ p, sent[d.transmitted.length]? = some p :=
            ⟨_, List.getElem?_eq_getElem (by omega)⟩
          refine ⟨p, hp, h.content hposted (by omega) ?_⟩
          rw [List.getLast?_eq_getElem?, hlen, Nat.add_sub_cancel]
          exact hp
        · rw [List.getElem?_eq_none (by simp; omega)] at ht
          cases ht

theorem TxStep.frame (hs : TxStep queueSize m d m' d') {x : Nat}
    (hx : x < virtqUsed queueSize virtqTx ∨ virtqUsed queueSize virtqTx + 6 + 8 * queueSize ≤ x) :
    m' x = m x := by
  cases hs with
  | consume => rfl
  | use hused => exact hused x hx

theorem TxStep.availIdx (hs : TxStep queueSize m d m' d') :
    load m' (availIdx queueSize virtqTx) 2 = load m (availIdx queueSize virtqTx) 2 := by
  have hlo := (virtqUsed_bounds queueSize virtqTx).1
  apply load_congr
  intro x hx
  have hhi := hx.2
  rw [availIdx_eq] at hhi
  exact hs.frame (by omega)

theorem TxStep.notified (hs : TxStep queueSize m d m' d') : d'.notified = d.notified := by
  cases hs with
  | consume => rfl
  | use => rfl

/-- While the latest entry is not offered, the invariant depends on the available ring only. -/
theorem TxInv.congr_hidden (h : TxInv B queueSize sent m d)
    (hidden : load m (Virtio.availIdx queueSize virtqTx) 2 + 1 = sent.length)
    (heq : ∀ x, virtqTx + 16 ≤ x → x < virtqUsed queueSize virtqTx → m' x = m x) :
    TxInv B queueSize sent m' d ∧
      load m' (Virtio.availIdx queueSize virtqTx) 2 + 1 = sent.length := by
  have hlo := (virtqUsed_bounds queueSize virtqTx).1
  have hfew := h.few
  have hload : ∀ a n, virtqTx + 16 ≤ a → a + n ≤ virtqUsed queueSize virtqTx →
      load m' a n = load m a n := by
    intro a n ha han
    exact load_congr (fun x hx => heq x (by have := hx.1; omega) (by have := hx.2; omega))
  have hidx : load m' (Virtio.availIdx queueSize virtqTx) 2
      = load m (Virtio.availIdx queueSize virtqTx) 2 :=
    hload _ _ (by rw [availIdx_eq]; omega) (by rw [availIdx_eq]; omega)
  refine ⟨⟨h.queueSize_lt, h.begun, h.few, ?_, ?_, ?_, ?_, h.history⟩, ?_⟩
  · rw [hidx]
    exact h.idx
  · intro k hk
    rw [hload _ _ (by rw [availRing_eq]; omega) (by rw [availRing_eq]; omega)]
    exact h.ring k hk
  · rw [hidx]
    intro hlast
    omega
  · rw [hidx]
    exact h.counted
  · rw [hidx]
    exact hidden

/-- **Offering the entry.** Once buffer and descriptor are prepared, advancing the index keeps the
    invariant. -/
theorem TxInv.offer {p : Packet} (h : TxInv B queueSize sent m d) {n : Nat}
    (hn : load m (Virtio.availIdx queueSize virtqTx) 2 = n) (hsent : n + 1 = sent.length)
    (hp : sent.getLast? = some p) (hdesc : loadDesc m virtqTx 0 = txDesc B p)
    (hframe : readBytes m B.txBuffer p.total = p.frame) :
    TxInv B queueSize sent (store m (Virtio.availIdx queueSize virtqTx) 2 (n + 1)) d ∧
      load (store m (Virtio.availIdx queueSize virtqTx) 2 (n + 1)) (Virtio.availIdx queueSize virtqTx) 2
        = sent.length := by
  have hlo := virtqUsed_bounds queueSize virtqTx
  have hend := (virtqSize_lt h.queueSize_lt).2
  have hwin := B.tx_window
  have hfew := h.few
  have hq := h.queueSize_lt
  have hcounted := h.counted
  have hidx : load (store m (Virtio.availIdx queueSize virtqTx) 2 (n + 1))
      (Virtio.availIdx queueSize virtqTx) 2 = sent.length := by
    rw [load_store_self]
    omega
  refine ⟨⟨hq, h.begun, hfew, by omega, ?_, ?_, by omega, h.history⟩, hidx⟩
  · intro k hk
    rw [load_store_disjoint (by rw [availIdx_eq, availRing_eq]; omega)]
    exact h.ring k hk
  · intro _ p' hp'
    cases hp.symm.trans hp'
    constructor
    · rw [← hdesc]
      refine loadDesc_congr (store_eqOn (fun x hx => ?_))
      have hhi := hx.2
      rw [virtqDesc_eq] at hhi
      rw [availIdx_eq]
      omega
    · rw [← hframe]
      refine readBytes_congr (store_eqOn (fun x hx => ?_))
      have hlo := hx.1
      rw [availIdx_eq]
      omega

/-- Storing descriptor index 0 into the available ring changes nothing. -/
theorem TxInv.store_ring (h : TxInv B queueSize sent m d) {n : Nat} (hn : n < queueSize) :
    TxInv B queueSize sent (store m (availRing queueSize virtqTx n) 2 0) d ∧
      load (store m (availRing queueSize virtqTx n) 2 0) (Virtio.availIdx queueSize virtqTx) 2
        = load m (Virtio.availIdx queueSize virtqTx) 2 := by
  have hhi := virtqUsed_bounds queueSize virtqTx
  have hend := (virtqSize_lt h.queueSize_lt).2
  have hwin := B.tx_window
  have hring := availRing_eq queueSize virtqTx
  have hidx : load (store m (availRing queueSize virtqTx n) 2 0)
      (Virtio.availIdx queueSize virtqTx) 2 = load m (Virtio.availIdx queueSize virtqTx) 2 :=
    load_store_disjoint (by rw [availIdx_eq, hring]; omega)
  refine ⟨h.of_eq hidx ?_ ?_ ?_, hidx⟩
  · intro k hk
    by_cases hkn : k = n
    · rw [hkn, load_store_self, Nat.zero_mod]
    · rw [load_store_disjoint (by rw [hring, hring]; omega)]
      exact h.ring k hk
  · refine loadDesc_congr (store_eqOn (fun x hx => ?_))
    have hx' := hx.2
    rw [virtqDesc_eq] at hx'
    rw [hring]
    omega
  · intro k
    refine readBytes_congr (store_eqOn (fun x hx => ?_))
    have hx' := hx.1
    rw [hring]
    omega

/-! ## One call -/

/-- What every state of a call is held to. -/
def txSpec (B : Buffers) (queueSize : Nat) (sent : List Packet) : Spec (World Out TxDevice) :=
  { always := fun w => TxInv B queueSize sent w.mem w.dev
    access := fun _ _ => True
    blocked := fun _ => False }

theorem txSpec_patient {sent : List Packet} :
    (txSpec B queueSize sent).Patient (txEnv queueSize bar0) Out :=
  Spec.patient_of_unblocked (fun _ => not_false) not_false

/-- The memory only the driver writes: `tx_buffer` and descriptor 0. -/
def txPrivate (B : Buffers) : Set Nat :=
  Set.Ico B.txBuffer (B.txBuffer + 0x1000) ∪ Set.Ico virtqTx (virtqTx + 16)

theorem txPrivate_outside (hq : queueSize < 0x10000) {x : Nat} (hx : x ∈ txPrivate B) :
    x < virtqTx + 16 ∨ virtqUsed queueSize virtqTx + 6 + 8 * queueSize ≤ x := by
  have hhi := virtqUsed_bounds queueSize virtqTx
  have hend := (virtqSize_lt hq).2
  have hwin := B.tx_window
  rcases hx with hx | hx
  · have hlo := hx.1
    omega
  · exact Or.inl hx.2

/-- Before the entry of the latest call is offered: the device cannot see what it writes, and the private
    memory is known. -/
def preparing (B : Buffers) (queueSize bar0 : Nat) (sent : List Packet) (m : Mem) :
    Assertion (txEnv queueSize bar0) (txSpec B queueSize sent) :=
  { holds := fun w => (TxInv B queueSize sent w.mem w.dev ∧
      load w.mem (availIdx queueSize virtqTx) 2 + 1 = sent.length) ∧ Set.EqOn w.mem m (txPrivate B)
    stable := by
      rintro w w' ⟨⟨hinv, hidx⟩, hpriv⟩ ⟨hs, -⟩
      have hhi := virtqUsed_bounds queueSize virtqTx
      refine ⟨⟨hinv.step hs, ?_⟩, fun x hx => ?_⟩
      · rw [hs.availIdx]
        exact hidx
      · rw [hs.frame (by have := txPrivate_outside hinv.queueSize_lt hx; omega)]
        exact hpriv hx
    always := fun _ h => h.1.1 }

/-- The entry of the latest call is offered. -/
def offered (B : Buffers) (queueSize bar0 : Nat) (sent : List Packet) :
    Assertion (txEnv queueSize bar0) (txSpec B queueSize sent) :=
  { holds := fun w => TxInv B queueSize sent w.mem w.dev ∧
      load w.mem (availIdx queueSize virtqTx) 2 = sent.length
    stable := by
      rintro w w' ⟨hinv, hidx⟩ ⟨hs, -⟩
      refine ⟨hinv.step hs, ?_⟩
      rw [hs.availIdx]
      exact hidx
    always := fun _ h => h.1 }

/-- Between calls. -/
def txIdle (B : Buffers) (queueSize bar0 : Nat) (sent : List Packet) :
    Assertion (txEnv queueSize bar0) (txSpec B queueSize sent) :=
  { holds := fun w => (TxInv B queueSize sent w.mem w.dev ∧
      load w.mem (availIdx queueSize virtqTx) 2 = sent.length) ∧
        (0 < sent.length → w.dev.notified = true)
    stable := by
      rintro w w' ⟨hoff, hnotified⟩ hs
      refine ⟨(offered B queueSize bar0 sent).stable w w' hoff hs, ?_⟩
      rw [hs.1.notified]
      exact hnotified
    always := fun _ h => h.1.1 }

/-- A store into the private memory. -/
theorem preparing_store {a n v : Nat}
    (ha : ∀ x, a ≤ x → x < a + n → x ∈ txPrivate B) :
    Triple (preparing B queueSize bar0 sent m) (Prog.store a n v : Prog Out Unit)
      (fun _ => preparing B queueSize bar0 sent (store m a n v)) := by
  refine Triple.store trivial ?_
  rintro w ⟨⟨hinv, hidx⟩, hpriv⟩
  refine ⟨hinv.congr_hidden hidx ?_, store_congr hpriv⟩
  intro x hlo hhi
  have hbounds := virtqUsed_bounds queueSize virtqTx
  apply store_outside
  by_contra hx
  have hout := txPrivate_outside hinv.queueSize_lt (ha x (by omega) (by omega))
  omega

/-- **`prepare` computes `prepared`**, under any assertions on memory that stores into the private memory
    keep. -/
theorem prepare_triple {S : Spec (World Out TxDevice)} {A : Mem → Assertion (txEnv queueSize bar0) S}
    {p : Packet} (hp : p.accepted = true)
    (hstore : ∀ m a n v, (∀ x, a ≤ x → x < a + n → x ∈ txPrivate B) →
      Triple (A m) (Prog.store a n v : Prog Out Unit) (fun _ => A (store m a n v))) :
    Triple (A m) (prepare B p) (fun _ => A (prepared B p m)) := by
  have hlen := len_le_of_accepted hp
  have hbuf : ∀ o n, o + n ≤ 0x1000 → ∀ x, B.txBuffer + o ≤ x → x < B.txBuffer + o + n →
      x ∈ txPrivate B := by
    intro o n hon x hlo hhi
    exact Or.inl ⟨by omega, by omega⟩
  have hdesc : ∀ o n, o + n ≤ 16 → ∀ x, virtqDesc virtqTx 0 + o ≤ x →
      x < virtqDesc virtqTx 0 + o + n → x ∈ txPrivate B := by
    intro o n hon x hlo hhi
    rw [virtqDesc_eq] at hlo hhi
    exact Or.inr ⟨by omega, by omega⟩
  have hcopy : ∀ m a n src, (∀ x, a ≤ x → x < a + n → x ∈ txPrivate B) →
      Triple (A m) (copyBytes a n src) (fun _ => A (writeBytes m a (bytesAt src n))) := by
    intro m a n src ha
    refine Triple.forLoop (fun i _ => A (writeBytes m a (bytesAt src i))) ?_
    intro i hi _
    have hstep := hstore (writeBytes m a (bytesAt src i)) (a + i) 1 (src i).toNat
      (fun x hlo hhi => ha x (by omega) (by omega))
    rw [store_byte] at hstep
    rw [bytesAt_succ, writeBytes_append, bytesAt_length]
    exact hstep
  -- the header
  refine (hstore _ _ _ _ (hbuf 0 1 (by omega))).bind (fun _ => ?_)
  refine (hstore _ _ _ _ (hbuf 1 1 (by omega))).bind (fun _ => ?_)
  refine (hstore _ _ _ _ (hbuf 2 2 (by omega))).bind (fun _ => ?_)
  refine (hstore _ _ _ _ (hbuf 4 2 (by omega))).bind (fun _ => ?_)
  refine (hstore _ _ _ _ (hbuf 6 2 (by omega))).bind (fun _ => ?_)
  refine (hstore _ _ _ _ (hbuf 8 2 (by omega))).bind (fun _ => ?_)
  -- the frame
  refine (hcopy _ _ _ _ (hbuf 16 6 (by omega))).bind (fun _ => ?_)
  refine (hcopy _ _ _ _ (hbuf 10 6 (by omega))).bind (fun _ => ?_)
  refine (hstore _ _ _ _ (hbuf 22 2 (by omega))).bind (fun _ => ?_)
  refine (hcopy _ _ _ _ (hbuf 24 p.len.toNat (by omega))).bind (fun _ => ?_)
  -- the descriptor
  refine (hstore _ _ _ _ (hdesc 0 8 (by omega))).bind (fun _ => ?_)
  refine (hstore _ _ _ _ (hdesc 8 4 (by omega))).bind (fun _ => ?_)
  refine (hstore _ _ _ _ (hdesc 12 2 (by omega))).bind (fun _ => ?_)
  exact hstore _ _ _ _ (hdesc 14 2 (by omega))

theorem prepare_spec {p : Packet} (hp : p.accepted = true) :
    Triple (preparing B queueSize bar0 sent m) (prepare B p)
      (fun _ => preparing B queueSize bar0 sent (prepared B p m)) :=
  prepare_triple hp (fun _ _ _ _ => preparing_store)

/-- Private memory that is prepared for a packet shows its descriptor and its frame. -/
theorem prepared_visible {p : Packet} {m₀ : Mem} (hp : p.accepted = true)
    (h : Set.EqOn m (prepared B p m₀) (txPrivate B)) :
    loadDesc m virtqTx 0 = txDesc B p ∧ readBytes m B.txBuffer p.total = p.frame := by
  have htotal := total_le_layout hp
  have hlen := len_le_of_accepted hp
  constructor
  · rw [← prepared_desc hp (m := m₀)]
    refine loadDesc_congr (h.mono (fun x hx => Or.inr ?_))
    exact hx
  · rw [← prepared_frame hp (m := m₀)]
    refine readBytes_congr (h.mono (fun x hx => Or.inl ?_))
    exact ⟨hx.1, by have := hx.2; omega⟩

theorem offerTx_spec {p : Packet} {m₀ : Mem} (hp : p.accepted = true)
    (hlast : sent.getLast? = some p) :
    Triple (preparing B queueSize bar0 sent (prepared B p m₀)) (offerTx queueSize bar0)
      (fun _ => txIdle B queueSize bar0 sent) := by
  obtain ⟨n, hn⟩ : ∃ n, n + 1 = sent.length := by
    refine ⟨sent.length - 1, ?_⟩
    cases sent with
    | nil => cases hlast
    | cons q sent => rfl
  refine Triple.load_bind (v := n) trivial ?_ ?_
  · rintro w ⟨⟨-, hidx⟩, -⟩
    omega
  refine Triple.bind (B := fun _ => offered B queueSize bar0 sent) ?_ (fun _ => ?_)
  · refine Triple.store trivial ?_
    rintro w ⟨⟨hinv, hidx⟩, hpriv⟩
    obtain ⟨hdesc, hframe⟩ := prepared_visible hp hpriv
    exact hinv.offer (by omega) hn hlast hdesc hframe
  refine Triple.bind (B := fun _ => offered B queueSize bar0 sent) ?_ (fun _ => ?_)
  · refine Triple.store trivial ?_
    rintro w ⟨hinv, hidx⟩
    have hfew := hinv.few
    obtain ⟨hinv', hidx'⟩ := hinv.store_ring (n := n) (by omega)
    exact ⟨hinv', hidx'.trans hidx⟩
  · refine Triple.ioWrite ?_
    rintro w ⟨hinv, hidx⟩
    -- the notify is the port write the device reacts to
    have hdev : (txEnv queueSize bar0).write w.dev 2 (port bar0 offsetQueueNotify) queueIdTx
        = { w.dev with notified := true } := if_pos ⟨rfl, rfl, rfl⟩
    show (txIdle B queueSize bar0 sent).holds (w.setDev _)
    rw [hdev]
    exact ⟨⟨⟨hinv.queueSize_lt, hinv.begun, hinv.few, hinv.idx, hinv.ring, hinv.current,
      hinv.counted, hinv.history⟩, hidx⟩, fun _ => rfl⟩

/-- **One call of `send_packet`.** -/
theorem sendPacket_spec {p : Packet} (m₀ : Mem) (hp : p.accepted = true)
    (hlast : sent.getLast? = some p) :
    Triple (preparing B queueSize bar0 sent m₀) (sendPacket B queueSize bar0 p)
      (fun _ => txIdle B queueSize bar0 sent) := by
  have hassert : Triple (preparing B queueSize bar0 sent m₀)
      (ASSERT p.accepted "len + sizeof(ethernet_frame) + sizeof(virtio_net_hdr) <= BUFFER_LEN")
      (fun _ => preparing B queueSize bar0 sent m₀) := by
    rw [ASSERT, if_pos hp]
    exact Triple.ret (fun _ hw => hw)
  exact hassert.bind (fun _ => (prepare_spec hp).bind (fun _ => offerTx_spec hp hlast))

/-! ## Every run -/

theorem sender_verified (B : Buffers) (queueSize bar0 : Nat) :
    Client.Verified (sender B queueSize bar0) (txEnv queueSize bar0) (txSpec B queueSize)
      (fun sent => (txIdle B queueSize bar0 sent).holds) := by
  constructor
  · intro sent w w' h hm
    exact (txIdle B queueSize bar0 sent).stable w w' h hm
  · rintro sent w sent' w' prog ⟨⟨hinv, hidx⟩, hnotified⟩ ⟨p, hp, rfl, hfew, rfl, rfl⟩
    have hlast : (sent ++ [p]).getLast? = some p := List.getLast?_concat
    refine (sendPacket_spec w.mem hp hlast).safe _ ⟨⟨?_, ?_⟩, fun x _ => rfl⟩
    · refine ⟨hinv.queueSize_lt, rfl, fun _ => hfew, ?_, hinv.ring, ?_, hinv.counted, ?_⟩
      · show load w.mem (availIdx queueSize virtqTx) 2 ≤ _
        rw [hidx, List.length_append]
        omega
      · intro hcur
        have hcur' : load w.mem (availIdx queueSize virtqTx) 2 = (sent ++ [p]).length := hcur
        rw [hidx, List.length_append, List.length_singleton] at hcur'
        omega
      · intro k t ht hbegun
        obtain ⟨q, hq, hcontent⟩ := hinv.history k t ht hbegun
        have hk : k < sent.length := (List.getElem?_eq_some_iff.mp hq).1
        exact ⟨q, by rw [List.getElem?_append_left hk]; exact hq, hcontent⟩
    · show load w.mem (availIdx queueSize virtqTx) 2 + 1 = _
      rw [hidx, List.length_append, List.length_singleton]

theorem txIdle_start {reads : Nat → Nat → Nat → Prop} {w₀ w : World Out TxDevice}
    (hinit : InitialisedBy B bar0 reads w₀ queueSize w) (hstart : w₀.dev = TxDevice.start) :
    (txIdle B queueSize bar0 []).holds w := by
  obtain ⟨hmem, hdev⟩ := hinit.memory
  rw [hstart] at hdev
  have hbounds := virtqUsed_bounds queueSize virtqTx
  have hidx : load w.mem (availIdx queueSize virtqTx) 2 = 0 := by
    rw [availIdx_eq, Nat.add_assoc]
    exact hmem.tx.load (by omega)
  refine ⟨⟨⟨hmem.queueSize_lt, ?_, ?_, ?_, ?_, ?_, ?_, ?_⟩, hidx⟩, ?_⟩
  · rw [hdev]
    rfl
  · intro hpos
    cases hpos
  · rw [hidx]
    exact Nat.le_refl 0
  · intro k hk
    rw [availRing_eq, Nat.add_assoc, Nat.add_assoc]
    exact hmem.tx.load (by omega)
  · intro _ p hp
    cases hp
  · rw [hdev]
    exact Nat.zero_le _
  · intro k t ht
    rw [hdev] at ht
    cases ht
  · intro hpos
    cases hpos

/-- What is transmitted in time is a prefix of what was sent. -/
theorem transmitted_prefix {transmitted : List Transmission}
    (hmatch : ∀ (k : Nat) (t : Transmission), transmitted[k]? = some t →
      ∃ p : Packet, sent[k]? = some p ∧ t.content = p.frame) :
    transmitted.map Transmission.content <+: sent.map Packet.frame := by
  rw [List.prefix_iff_getElem?]
  intro k hk
  rw [List.length_map] at hk
  obtain ⟨p, hp, hcontent⟩ := hmatch k transmitted[k] (List.getElem?_eq_getElem hk)
  rw [List.getElem?_map, hp, List.getElem_map, Option.map_some, hcontent]

/-! ## Packets read in time and too late -/

/-- A one-byte broadcast. -/
def oneByte (b : UInt8) : Packet :=
  { data := fun _ => b, len := 1, srcMac := fun _ => 2, dstMac := fun _ => 0xff, len_int := by decide }

/-- A call of `send_packet` on its own. -/
theorem sends {w : World Out TxDevice} {p : Packet} {ts : List Transmission} (hp : p.accepted = true)
    (hfew : sent.length + 1 < queueSize) (hidle : (txIdle B queueSize bar0 sent).holds w)
    (hts : w.dev.transmitted = ts) :
    ∃ u, Client.Reaches (sender B queueSize bar0) (txEnv queueSize bar0) (sent, none, w)
      (sent ++ [p], none, u) ∧ (txIdle B queueSize bar0 (sent ++ [p])).holds u
      ∧ u.dev.transmitted = ts := by
  have hkeeps : ∀ (d : TxDevice) n address v, d.transmitted = ts →
      ((txEnv queueSize bar0).write d n address v).transmitted = ts := by
    intro d n address v hd
    simp only [txEnv]
    split
    · exact hd
    · exact hd
  have hcall : (sender B queueSize bar0).call sent w (sent ++ [p])
      (w.setDev { w.dev with begun := (sent ++ [p]).length }) (sendPacket B queueSize bar0 p) :=
    ⟨p, hp, rfl, by simpa using hfew, rfl, rfl⟩
  obtain ⟨_, u, hrun, hdone, hkept⟩ := (sender_verified B queueSize bar0).completes
    (fun _ _ _ => ⟨0, trivial⟩) txSpec_patient hkeeps hidle hcall id hts
  exact ⟨u, hrun, hdone, hkept⟩

/-- The device reads the next entry: it finds the packet of the last call. -/
theorem transmits (sent : List Packet) {w : World Out TxDevice} {p : Packet}
    (hidle : (txIdle B queueSize bar0 (sent ++ [p])).holds w)
    (hbehind : w.dev.transmitted.length ≤ sent.length) :
    ∃ u, Client.Reaches (sender B queueSize bar0) (txEnv queueSize bar0) (sent ++ [p], none, w)
      (sent ++ [p], none, u) ∧ (txIdle B queueSize bar0 (sent ++ [p])).holds u
      ∧ u.dev.transmitted = w.dev.transmitted ++ [⟨sent.length + 1, p.frame⟩] := by
  have hidle' := hidle
  obtain ⟨⟨hinv, hidx⟩, hnotified⟩ := hidle
  have hlength : (sent ++ [p]).length = sent.length + 1 := by simp
  have hbegun : w.dev.begun = sent.length + 1 := hinv.begun.trans hlength
  have hposted : w.dev.transmitted.length < load w.mem (availIdx queueSize virtqTx) 2 := by
    rw [hidx]
    omega
  have hstep := TxStep.consume (hnotified (by omega)) hposted
  rw [hinv.content hposted hidx List.getLast?_concat] at hstep
  let d : TxDevice := { w.dev with transmitted := w.dev.transmitted ++ [⟨w.dev.begun, p.frame⟩] }
  have hmove : (txEnv queueSize bar0).Move w (w.setDev d) := ⟨hstep, rfl⟩
  refine ⟨w.setDev d, .single (.env hmove), (sender_verified B queueSize bar0).stable _ _ _ hidle' hmove, ?_⟩
  rw [← hbegun]
  rfl

/-- Two calls complete before the device reads the first entry: it then transmits the second packet. -/
theorem overwritten {w : World Out TxDevice} {p q : Packet} (hp : p.accepted = true)
    (hq : q.accepted = true) (hsize : 2 < queueSize) (hidle : (txIdle B queueSize bar0 []).holds w)
    (hnone : w.dev.transmitted = []) :
    ∃ u, Client.Reaches (sender B queueSize bar0) (txEnv queueSize bar0) ([], none, w)
      ([p, q], none, u) ∧ u.dev.transmitted.map Transmission.content = [q.frame] := by
  obtain ⟨u₁, hrun₁, hidle₁, hnone₁⟩ := sends hp (by simp; omega) hidle hnone
  obtain ⟨u₂, hrun₂, hidle₂, hnone₂⟩ := sends hq hsize hidle₁ hnone₁
  obtain ⟨u₃, hrun₃, -, hread⟩ := transmits [p] hidle₂ (by rw [hnone₂]; exact Nat.zero_le _)
  rw [hnone₂, List.nil_append] at hread
  exact ⟨u₃, (hrun₁.trans hrun₂).trans hrun₃, by rw [hread]; rfl⟩

/-- Each of two packets is read before the next call. -/
theorem read_in_time {w : World Out TxDevice} {p q : Packet} (hp : p.accepted = true)
    (hq : q.accepted = true) (hsize : 2 < queueSize) (hidle : (txIdle B queueSize bar0 []).holds w)
    (hnone : w.dev.transmitted = []) :
    ∃ u, Client.Reaches (sender B queueSize bar0) (txEnv queueSize bar0) ([], none, w)
      ([p, q], none, u) ∧ u.dev.transmitted = [⟨1, p.frame⟩, ⟨2, q.frame⟩] := by
  obtain ⟨u₁, hrun₁, hidle₁, hnone₁⟩ := sends hp (by simp; omega) hidle hnone
  obtain ⟨u₂, hrun₂, hidle₂, hread₂⟩ := transmits [] hidle₁ (by rw [hnone₁]; exact Nat.zero_le _)
  rw [hnone₁, List.nil_append] at hread₂
  obtain ⟨u₃, hrun₃, hidle₃, hread₃⟩ := sends hq hsize hidle₂ hread₂
  obtain ⟨u₄, hrun₄, -, hread₄⟩ := transmits [p] hidle₃ (by rw [hread₃]; exact Nat.le_refl _)
  rw [hread₃] at hread₄
  exact ⟨u₄, ((hrun₁.trans hrun₂).trans hrun₃).trans hrun₄, hread₄⟩

/-- Two one-byte packets sent to an initialised device with 256-entry queues, the first read too late. -/
theorem overwritten_run : ∃ w u, InitialisedBy sampleBuffers 0xc000 (onesPorts 0xc000 256)
      (blankWorld TxDevice.start) 256 w ∧
    Client.Reaches (sender sampleBuffers 256 0xc000) (txEnv 256 0xc000) ([], none, w)
      ([oneByte 0x41, oneByte 0x42], none, u) ∧
    u.dev.transmitted.map Transmission.content = [(oneByte 0x42).frame] := by
  obtain ⟨w, hinit⟩ := (cooperative_onesPorts 0xc000 (by decide : 256 < 0x10000)).initialises
    sampleBuffers (blankWorld TxDevice.start)
  have hnone : w.dev.transmitted = [] := by
    rw [hinit.memory.2]
    rfl
  obtain ⟨u, hrun, hcontent⟩ := overwritten (p := oneByte 0x41) (q := oneByte 0x42) (by decide)
    (by decide) (by decide) (txIdle_start hinit rfl) hnone
  exact ⟨w, u, hinit, hrun, hcontent⟩

/-! ## Main results -/

/-- **What the device transmits.** In every interleaving of accepted `send_packet` calls, fewer than the
    queue size, with the device, at most as many packets are transmitted as calls have begun, and a packet
    the device reads before the next call begins has the content given to its own call. So as long as
    every packet is read in time, the packets transmitted are a prefix of the packets sent. -/
theorem transmissions_in_time (B : Buffers) (bar0 : Nat) {reads : Nat → Nat → Nat → Prop}
    {queueSize : Nat} {w₀ w u : World Out TxDevice} {sent : List Packet}
    {prog : Option (Prog Out Unit)} (hinit : InitialisedBy B bar0 reads w₀ queueSize w)
    (hstart : w₀.dev = TxDevice.start)
    (hrun : Client.Reaches (sender B queueSize bar0) (txEnv queueSize bar0) ([], none, w)
      (sent, prog, u)) :
    u.dev.begun = sent.length ∧ u.dev.transmitted.length ≤ sent.length ∧
      (∀ k t, u.dev.transmitted[k]? = some t → t.begun = k + 1 →
        ∃ p, sent[k]? = some p ∧ t.content = p.frame) ∧
      ((∀ k t, u.dev.transmitted[k]? = some t → t.begun = k + 1) →
        u.dev.transmitted.map Transmission.content <+: sent.map Packet.frame) := by
  have hinv : TxInv B queueSize sent u.mem u.dev := by
    have hreached := (sender_verified B queueSize bar0).reachable (txIdle_start hinit hstart) hrun
    cases prog with
    | none => exact (txIdle B queueSize bar0 sent).always u hreached
    | some p => exact Safe.always hreached
  refine ⟨hinv.begun, hinv.counted.trans hinv.idx, hinv.history, fun htime => ?_⟩
  exact transmitted_prefix (fun k t ht => hinv.history k t ht (htime k t ht))

/-- Of two packets, each read in time, both are transmitted in order. -/
theorem transmissions_in_time_sample : ∃ (w u : World Out TxDevice),
    Client.Reaches (sender sampleBuffers 256 0xc000) (txEnv 256 0xc000) ([], none, w)
      ([oneByte 0x41, oneByte 0x42], none, u) ∧ u.dev.begun = 2 ∧ u.dev.transmitted.length = 2 ∧
    u.dev.transmitted.map Transmission.content <+: [(oneByte 0x41).frame, (oneByte 0x42).frame] := by
  obtain ⟨w, hinit⟩ := (cooperative_onesPorts 0xc000 (by decide : 256 < 0x10000)).initialises
    sampleBuffers (blankWorld TxDevice.start)
  have hnone : w.dev.transmitted = [] := by
    rw [hinit.memory.2]
    rfl
  obtain ⟨u, hrun, hread⟩ := read_in_time (p := oneByte 0x41) (q := oneByte 0x42) (by decide)
    (by decide) (by decide) (txIdle_start hinit rfl) hnone
  obtain ⟨hbegun, -, -, hprefix⟩ := transmissions_in_time sampleBuffers 0xc000 hinit rfl hrun
  refine ⟨w, u, hrun, hbegun, by rw [hread]; rfl, hprefix (fun k t ht => ?_)⟩
  rw [hread] at ht
  have hk : k < 2 := (List.getElem?_eq_some_iff.mp ht).1
  have hcases : k = 0 ∨ k = 1 := by omega
  rcases hcases with rfl | rfl <;> rw [← Option.some.inj ht]

/-- **A packet is lost and another duplicated.** What has been transmitted need not be a prefix of what
    was sent: the second call overwrites the buffer before the device reads the first entry. -/
theorem late_packet_overwritten : ∃ w, InitialisedBy sampleBuffers 0xc000 (onesPorts 0xc000 256)
      (blankWorld TxDevice.start) 256 w ∧
    ¬ ∀ sent prog u, Client.Reaches (sender sampleBuffers 256 0xc000) (txEnv 256 0xc000)
      ([], none, w) (sent, prog, u) →
        u.dev.transmitted.map Transmission.content <+: sent.map Packet.frame := by
  obtain ⟨w, u, hinit, hrun, hcontent⟩ := overwritten_run
  refine ⟨w, hinit, fun hall => ?_⟩
  have hprefix := hall _ _ u hrun
  rw [hcontent] at hprefix
  revert hprefix
  decide +kernel

end Virtio
end SysproKernel

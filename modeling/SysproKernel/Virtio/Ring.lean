import SysproKernel.Virtio.Transmission

/-!
# `Virtio.Ring` — the available ring of the transmit queue under any number of calls

`send_packet` stores its ring entry at `idx`, which counts calls modulo `2^16`, where the ring has
`QUEUE_SIZE` entries. So the entry of call `n` lies in the ring only while `n % 2^16 < QUEUE_SIZE`; from
then on it is stored behind the ring, over padding, the used ring or whatever follows. `ring_kept_iff`
states this for every call of every run, beside a device that takes entries and writes used elements as
it likes.
-/

namespace SysproKernel
namespace Virtio

open Lib.ByteMem Lib.Loop Lib.Driver

/-! ## The calls -/

/-- Any number of calls, with any accepted packets. The bookkeeping is the number of calls begun. -/
def caller (B : Buffers) (queueSize bar0 : Nat) : Client Out TxDevice Nat Unit :=
  { call := fun n w n' w' prog => ∃ p : Packet, p.accepted = true ∧ n' = n + 1 ∧ w' = w ∧
      prog = sendPacket B queueSize bar0 p
    done := fun n _ _ => n }

/-- What a call may touch: its own packet buffer, descriptor 0, the index and the ring. -/
def txArea (B : Buffers) (queueSize : Nat) : Set Nat :=
  txPrivate B ∪ Set.Ico (availIdx queueSize virtqTx) (availIdx queueSize virtqTx + 2) ∪
    Set.Ico (availRing queueSize virtqTx 0) (availRing queueSize virtqTx queueSize)

/-- The call reaches the store of descriptor index 0 into ring entry `k`, and returns after it. -/
def StoresEntry (queueSize bar0 k : Nat) (c : Prog Out Unit × World Out TxDevice)
    (u : World Out TxDevice) : Prop :=
  ∃ rest v, Interleaves (txEnv queueSize bar0) c
      (.storeThen (availRing queueSize virtqTx k) 2 0 rest, v) ∧
    Interleaves (txEnv queueSize bar0) (.storeThen (availRing queueSize virtqTx k) 2 0 rest, v)
      (.ret (), u)

/-- **A call that does not leave the ring**, whatever the device does in between. -/
structure RingKept (B : Buffers) (queueSize bar0 : Nat) (p : Packet) (w : World Out TxDevice) :
    Prop where
  /-- every access of the call stays inside -/
  inside : ∀ prog u a n,
    Interleaves (txEnv queueSize bar0) (sendPacket B queueSize bar0 p, w) (prog, u) →
      prog.nextAccess = some (a, n) → Set.Ico a (a + n) ⊆ txArea B queueSize
  /-- the entry is stored where the device looks for it -/
  stored : ∀ u, Interleaves (txEnv queueSize bar0) (sendPacket B queueSize bar0 p, w) (.ret (), u) →
    StoresEntry queueSize bar0 (load w.mem (availIdx queueSize virtqTx) 2 % queueSize)
      (sendPacket B queueSize bar0 p, w) u
  /-- and found there afterwards, counted by the index -/
  found : ∀ u, Interleaves (txEnv queueSize bar0) (sendPacket B queueSize bar0 p, w) (.ret (), u) →
    load u.mem (availRing queueSize virtqTx
        (load w.mem (availIdx queueSize virtqTx) 2 % queueSize)) 2 = 0 ∧
      load u.mem (availIdx queueSize virtqTx) 2 = load w.mem (availIdx queueSize virtqTx) 2 + 1

/-! ## One call -/

variable {B : Buffers} {queueSize bar0 : Nat} {access : Nat → Nat → Prop} {idx : Nat}

/-- A restriction on the accesses, and nothing else. -/
def accessSpec (access : Nat → Nat → Prop) : Spec (World Out TxDevice) :=
  { always := fun _ => True, access, blocked := fun _ => False }

theorem accessSpec_patient : (accessSpec access).Patient (txEnv queueSize bar0) Out :=
  Spec.patient_of_unblocked (fun _ => not_false) not_false

/-- The index has a given value. -/
def atIndex (queueSize bar0 : Nat) (access : Nat → Nat → Prop) (idx : Nat) :
    Assertion (txEnv queueSize bar0) (accessSpec access) :=
  { holds := fun w => load w.mem (availIdx queueSize virtqTx) 2 = idx
    stable := by
      rintro w w' hw ⟨hs, -⟩
      exact hs.availIdx.trans hw
    always := fun _ _ => trivial }

/-- The index has a given value, and the entry before it names descriptor 0, if it lies in the ring. -/
def entryStored (queueSize bar0 : Nat) (access : Nat → Nat → Prop) (idx : Nat) :
    Assertion (txEnv queueSize bar0) (accessSpec access) :=
  { holds := fun w => load w.mem (availIdx queueSize virtqTx) 2 = (idx + 1) % 2 ^ 16 ∧
      (idx < queueSize → load w.mem (availRing queueSize virtqTx idx) 2 = 0)
    stable := by
      rintro w w' ⟨hw, hentry⟩ ⟨hs, -⟩
      refine ⟨hs.availIdx.trans hw, ?_⟩
      intro hlt
      rw [← hentry hlt]
      apply load_congr
      intro x hx
      have hbounds := virtqUsed_bounds queueSize virtqTx
      have hhi := hx.2
      rw [availRing_eq] at hhi
      exact hs.frame (by omega)
    always := fun _ _ => trivial }

/-- What the accesses of a call are, besides the ring entry. -/
def NeedsAccess (B : Buffers) (queueSize : Nat) (access : Nat → Nat → Prop) : Prop :=
  ∀ a n, (∀ x, a ≤ x → x < a + n → x ∈ txPrivate B ∪
    Set.Ico (availIdx queueSize virtqTx) (availIdx queueSize virtqTx + 2)) → access a n

/-- Buffer and descriptor are prepared without touching the index. -/
theorem prepare_index {p : Packet} (hq : queueSize < 0x10000) (hpos : 1 ≤ queueSize)
    (haccess : NeedsAccess B queueSize access) (hp : p.accepted = true) :
    Triple (atIndex queueSize bar0 access idx) (prepare B p)
      (fun _ => atIndex queueSize bar0 access idx) := by
  refine prepare_triple (A := fun _ => atIndex queueSize bar0 access idx) (m := fun _ => 0) hp ?_
  intro _ a n v ha
  refine Triple.store (haccess a n (fun x hlo hhi => Or.inl (ha x hlo hhi))) ?_
  intro w hw
  refine Eq.trans (load_congr (fun x hx => store_outside ?_)) hw
  by_contra hin
  have hbounds := virtqUsed_bounds queueSize virtqTx
  have hout := txPrivate_outside hq (ha x (by omega) (by omega))
  have hlo := hx.1
  have hhi := hx.2
  rw [availIdx_eq] at hlo hhi
  omega

theorem sendPacket_eq {p : Packet} (hp : p.accepted = true) :
    sendPacket B queueSize bar0 p = prepare B p >>= fun _ => offerTx queueSize bar0 := by
  unfold sendPacket ASSERT
  rw [if_pos hp]
  rfl

/-- The index is advanced. -/
theorem advance_index (haccess : NeedsAccess B queueSize access) :
    Triple (atIndex queueSize bar0 access idx)
      (Prog.store (availIdx queueSize virtqTx) 2 (idx + 1) : Prog Out Unit)
      (fun _ => atIndex queueSize bar0 access ((idx + 1) % 2 ^ 16)) := by
  refine Triple.store (haccess _ _ (fun x hlo hhi => Or.inr ⟨hlo, hhi⟩)) ?_
  intro w _
  exact load_store_self w.mem _ 2 (idx + 1)

theorem load_index (haccess : NeedsAccess B queueSize access) :
    Triple (atIndex queueSize bar0 access idx)
      (Prog.load (availIdx queueSize virtqTx) 2 : Prog Out Nat)
      (fun v => (atIndex queueSize bar0 access idx).given (v = idx)) :=
  Triple.load (haccess _ _ (fun _ hlo hhi => Or.inr ⟨hlo, hhi⟩)) (fun _ hw => ⟨hw, hw⟩)

/-- **One call**, with the index wherever it is. -/
theorem sendPacket_index (bar0 : Nat) {p : Packet} (hq : queueSize < 0x10000) (hpos : 1 ≤ queueSize)
    (haccess : NeedsAccess B queueSize access)
    (hentry : access (availRing queueSize virtqTx idx) 2) (hp : p.accepted = true) :
    Triple (atIndex queueSize bar0 access idx) (sendPacket B queueSize bar0 p)
      (fun _ => entryStored queueSize bar0 access idx) := by
  rw [sendPacket_eq hp]
  refine (prepare_index hq hpos haccess hp).bind (fun _ => ?_)
  refine (load_index haccess).bind_eq ?_
  refine (advance_index haccess).bind (fun _ => ?_)
  refine Triple.bind (B := fun _ => entryStored queueSize bar0 access idx) ?_ (fun _ => ?_)
  · refine Triple.store hentry ?_
    intro w hw
    refine ⟨Eq.trans (load_store_disjoint ?_) hw, ?_⟩
    · rw [availIdx_eq, availRing_eq]
      omega
    · intro _
      exact load_store_self w.mem _ 2 0
  · exact Triple.ioWrite (fun _ hw => hw)

/-- A call that returns has stored its entry at the index it found. -/
theorem storesEntry {p : Packet} {w u : World Out TxDevice} (hq : queueSize < 0x10000)
    (hpos : 1 ≤ queueSize) (hp : p.accepted = true)
    (hidx : load w.mem (availIdx queueSize virtqTx) 2 = idx)
    (hrun : Interleaves (txEnv queueSize bar0) (sendPacket B queueSize bar0 p, w) (.ret (), u)) :
    StoresEntry queueSize bar0 idx (sendPacket B queueSize bar0 p, w) u := by
  have hany : NeedsAccess B queueSize (fun _ _ => True) := fun _ _ _ => trivial
  rw [sendPacket_eq hp] at hrun ⊢
  obtain ⟨_, v₁, hprepare, hoffer⟩ := hrun.of_bind
  have hidx₁ : load v₁.mem (availIdx queueSize virtqTx) 2 = idx :=
    (((prepare_index hq hpos hany hp).safe w hidx).interleaves hprepare).ret
  obtain ⟨i, v₂, hload, hstore⟩ := hoffer.of_bind
  obtain ⟨rfl, -⟩ := (((load_index hany).safe v₁ hidx₁).interleaves hload).ret
  obtain ⟨_, v₃, hadvance, hentry⟩ := hstore.of_bind
  exact ⟨_, v₃, (hprepare.bind _).trans ((hload.bind _).trans (hadvance.bind _)), hentry⟩

/-- **The exact condition for one call.** -/
theorem ringKept_iff {p : Packet} {w : World Out TxDevice} (hq : queueSize < 0x10000)
    (hpos : 1 ≤ queueSize) (hp : p.accepted = true) :
    RingKept B queueSize bar0 p w ↔ load w.mem (availIdx queueSize virtqTx) 2 < queueSize := by
  obtain ⟨idx, hidx⟩ : ∃ idx, load w.mem (availIdx queueSize virtqTx) 2 = idx := ⟨_, rfl⟩
  have hword : idx < 2 ^ 16 := hidx ▸ load_lt w.mem _ 2
  rw [hidx]
  constructor
  · intro hkept
    by_contra hout
    -- let the call run by itself up to the store
    have hany : NeedsAccess B queueSize (fun _ _ => True) := fun _ _ _ => trivial
    obtain ⟨_, u, hreturns, -⟩ := ((sendPacket_index bar0 hq hpos hany trivial hp).safe w
      hidx).returns (fun _ _ _ => ⟨0, trivial⟩) accessSpec_patient not_false
    obtain ⟨rest, v, hreached, -⟩ := storesEntry hq hpos hp hidx (Interleaves.of_run hreturns)
    have hin := hkept.inside _ _ _ _ hreached rfl ⟨Nat.le_refl _, Nat.lt_add_of_pos_right (by simp)⟩
    have hwin := B.tx_window
    rcases hin with ((hbuffer | hdesc) | hindex) | hring
    · have hlo := hbuffer.1
      rw [availRing_eq, virtqTx] at hlo
      omega
    · have hhi := hdesc.2
      rw [availRing_eq] at hhi
      omega
    · have hhi := hindex.2
      rw [availRing_eq, availIdx_eq] at hhi
      omega
    · have hhi := hring.2
      rw [availRing_eq, availRing_eq] at hhi
      omega
  · intro hlt
    have haccess : NeedsAccess B queueSize (fun a n => Set.Ico a (a + n) ⊆ txArea B queueSize) :=
      fun a n ha x hx => Or.inl (ha x hx.1 hx.2)
    have hentry : Set.Ico (availRing queueSize virtqTx idx) (availRing queueSize virtqTx idx + 2)
        ⊆ txArea B queueSize := by
      intro x hx
      have hlo := hx.1
      have hhi := hx.2
      rw [availRing_eq] at hlo hhi
      exact Or.inr ⟨by rw [availRing_eq]; omega, by rw [availRing_eq]; omega⟩
    have hsafe := (sendPacket_index bar0 hq hpos haccess hentry hp).safe w hidx
    refine ⟨?_, ?_, ?_⟩
    · intro prog u a n hrun hnext
      exact (hsafe.interleaves hrun).access hnext
    · intro u hrun
      rw [hidx, Nat.mod_eq_of_lt hlt]
      exact storesEntry hq hpos hp hidx hrun
    · intro u hrun
      obtain ⟨hindex, hzero⟩ := (hsafe.interleaves hrun).ret
      rw [hidx, Nat.mod_eq_of_lt hlt]
      exact ⟨hzero hlt, hindex.trans (Nat.mod_eq_of_lt (by omega))⟩

/-! ## Every run -/

theorem caller_verified (hq : queueSize < 0x10000) (hpos : 1 ≤ queueSize) :
    Client.Verified (caller B queueSize bar0) (txEnv queueSize bar0)
      (fun _ => accessSpec (fun _ _ => True))
      (fun n => (atIndex queueSize bar0 (fun _ _ => True) (n % 2 ^ 16)).holds) := by
  constructor
  · intro n w w' h hm
    exact (atIndex queueSize bar0 (fun _ _ => True) (n % 2 ^ 16)).stable w w' h hm
  · rintro n _ _ w _ hidle ⟨p, hp, rfl, rfl, rfl⟩
    refine ((sendPacket_index bar0 hq hpos (fun _ _ _ => trivial) trivial hp).safe w hidle).mono ?_
    rintro _ u ⟨hindex, -⟩
    rw [Nat.mod_add_mod] at hindex
    exact hindex

theorem atIndex_start {reads : Nat → Nat → Nat → Prop} {w₀ w : World Out TxDevice}
    (hinit : InitialisedBy B bar0 reads w₀ queueSize w) :
    (atIndex queueSize bar0 (fun _ _ => True) (0 % 2 ^ 16)).holds w := by
  have hbounds := virtqUsed_bounds queueSize virtqTx
  show load w.mem (availIdx queueSize virtqTx) 2 = 0
  rw [availIdx_eq, Nat.add_assoc]
  exact hinit.memory.1.tx.load (by omega)

/-- Any number of calls can be made. -/
theorem calls_complete {p : Packet} {w : World Out TxDevice} (hq : queueSize < 0x10000)
    (hpos : 1 ≤ queueSize) (hp : p.accepted = true)
    (hstart : (atIndex queueSize bar0 (fun _ _ => True) (0 % 2 ^ 16)).holds w) (n : Nat) :
    ∃ u, Client.Reaches (caller B queueSize bar0) (txEnv queueSize bar0) (0, none, w) (n, none, u) ∧
      (atIndex queueSize bar0 (fun _ _ => True) (n % 2 ^ 16)).holds u := by
  induction n with
  | zero => exact ⟨w, .refl, hstart⟩
  | succ n ih =>
      obtain ⟨u, hrun, hidle⟩ := ih
      have hcall : (caller B queueSize bar0).call n u (n + 1) u (sendPacket B queueSize bar0 p) :=
        ⟨p, hp, rfl, rfl, rfl⟩
      obtain ⟨_, v, hnext, hdone, -⟩ := (caller_verified hq hpos).completes
        (fun _ _ _ => ⟨0, trivial⟩) accessSpec_patient (P := fun _ => True)
        (fun _ _ _ _ _ => trivial) hidle hcall not_false trivial
      exact ⟨v, hrun.trans hnext, hdone⟩

/-! ## Main results -/

/-- **The available ring is left after `QUEUE_SIZE` calls.** After `n` calls of any run the index is
    `n % 2^16`, and the next call keeps to the ring exactly if that is below the queue size. -/
theorem ring_kept_iff (B : Buffers) (bar0 : Nat) {reads : Nat → Nat → Nat → Prop} {queueSize n : Nat}
    {w₀ w u : World Out TxDevice} {p : Packet} (hpos : 1 ≤ queueSize)
    (hinit : InitialisedBy B bar0 reads w₀ queueSize w)
    (hrun : Client.Reaches (caller B queueSize bar0) (txEnv queueSize bar0) (0, none, w)
      (n, none, u)) (hp : p.accepted = true) :
    load u.mem (availIdx queueSize virtqTx) 2 = n % 2 ^ 16 ∧
      (RingKept B queueSize bar0 p u ↔ n % 2 ^ 16 < queueSize) := by
  have hq := hinit.memory.1.queueSize_lt
  have hidx : load u.mem (availIdx queueSize virtqTx) 2 = n % 2 ^ 16 :=
    (caller_verified hq hpos).reachable (atIndex_start hinit) hrun
  refine ⟨hidx, ?_⟩
  rw [← hidx]
  exact ringKept_iff hq hpos hp

section Sample

/-- A device with queues of 256 entries. -/
theorem sample_initialised : ∃ w, InitialisedBy sampleBuffers 0xc000 (onesPorts 0xc000 256)
    (blankWorld TxDevice.start) 256 w :=
  (cooperative_onesPorts 0xc000 (by decide : 256 < 0x10000)).initialises sampleBuffers
    (blankWorld TxDevice.start)

/-- The 256th call, after 255 earlier ones, fills the last entry and stays in the ring. -/
theorem ring_kept_last : ∃ w u, InitialisedBy sampleBuffers 0xc000 (onesPorts 0xc000 256)
      (blankWorld TxDevice.start) 256 w ∧
    Client.Reaches (caller sampleBuffers 256 0xc000) (txEnv 256 0xc000) (0, none, w)
      (255, none, u) ∧
    load u.mem (availIdx 256 virtqTx) 2 = 255 ∧
    RingKept sampleBuffers 256 0xc000 (oneByte 0x41) u := by
  obtain ⟨w, hinit⟩ := sample_initialised
  obtain ⟨u, hrun, -⟩ := calls_complete (p := oneByte 0x41) (by decide) (by decide) (by decide)
    (atIndex_start hinit) 255
  obtain ⟨hidx, hkept⟩ := ring_kept_iff sampleBuffers 0xc000 (p := oneByte 0x41) (by decide) hinit
    hrun (by decide)
  exact ⟨w, u, hinit, hrun, hidx, hkept.mpr (by decide)⟩

/-- **Call 257 leaves a ring of 256 entries.** -/
theorem ring_left : ∃ w, InitialisedBy sampleBuffers 0xc000 (onesPorts 0xc000 256)
      (blankWorld TxDevice.start) 256 w ∧
    ¬ ∀ n u, Client.Reaches (caller sampleBuffers 256 0xc000) (txEnv 256 0xc000) (0, none, w)
      (n, none, u) → RingKept sampleBuffers 256 0xc000 (oneByte 0x41) u := by
  obtain ⟨w, hinit⟩ := sample_initialised
  refine ⟨w, hinit, ?_⟩
  intro hall
  obtain ⟨u, hrun, hidx⟩ := calls_complete (p := oneByte 0x41) (by decide) (by decide) (by decide)
    (atIndex_start hinit) 256
  have hlt := (ringKept_iff (by decide) (by decide) (by decide)).mp (hall 256 u hrun)
  rw [show load u.mem (availIdx 256 virtqTx) 2 = 256 from hidx] at hlt
  exact absurd hlt (Nat.lt_irrefl 256)

end Sample

end Virtio
end SysproKernel

import SysproKernel.Lib.Trace
import SysproKernel.Virtio.Init

/-!
# `Virtio.Exposure` — `init_virtio_net` beside a device that fetches receive descriptors

From the moment the receive queue's notify register is written, the device may fetch any entry of the
available ring below its index, and the descriptor the entry names. Each fetch is recorded with what the
driver had done by then.

The driver notifies the device and stores the descriptors afterwards. A descriptor fetched after the
driver has stored it is right, and one fetched before its flags are stored is not: between the zeroing and
the descriptor loop it is zero. The invariant `Exposed` follows the descriptor loop field by field.
-/

namespace SysproKernel
namespace Virtio

open Lib.ByteMem Lib.Loop Lib.Driver Lib.Trace

/-! ## The device -/

/-- A descriptor the device has fetched, and the accesses the driver had made by then. -/
structure Fetch where
  index : Nat
  desc : VirtqDesc
  past : List Event

/-- The notify register has been written for the receive queue. -/
def Notified (bar0 : Nat) (h : List Event) : Prop :=
  Event.ioWrite 2 (port bar0 offsetQueueNotify) queueIdRx ∈ h

/-- The fetch of entry `j` of the available ring, and of the descriptor it names. -/
def fetch (queueSize : Nat) (m : Mem) (h : List Event) (j : Nat) : Fetch :=
  let i := load m (availRing queueSize virtqRx (j % queueSize)) 2
  { index := i, desc := loadDesc m virtqRx i, past := h }

/-- A device with a receive queue of `queueSize` entries, which it reports while that queue is selected;
    otherwise its ports answer as `reads` says. -/
def rxProbe (bar0 queueSize : Nat) (reads : Nat → Nat → Nat → Prop) : Host (List Fetch) :=
  { step := fun h m d m' d' => m' = m ∧ Notified bar0 h ∧
      ∃ j < load m (availIdx queueSize virtqRx) 2, d' = d ++ [fetch queueSize m h j]
    answers := fun h _ n address v => reads n address v ∧ (address = port bar0 offsetQueueSize →
      lastWritten (port bar0 offsetQueueSel) h = some queueIdRx → v % 2 ^ 16 = queueSize) }

/-- The driver has stored descriptor `i`: all four fields, the last one being `next`. -/
def Written (h : List Event) (i : Nat) : Prop := Event.store (virtqDesc virtqRx i + 14) 2 0 ∈ h

/-- The driver has stored the flags of descriptor `i`. -/
def FlagsWritten (h : List Event) (i : Nat) : Prop := Event.store (virtqDesc virtqRx i + 12) 2 2 ∈ h

/-- What a fetch is worth: right once the descriptor is stored, and wrong before its flags are, if the
    queue has room for the sixteen entries. -/
def Fetch.Judged (B : Buffers) (queueSize : Nat) (f : Fetch) : Prop :=
  (Written f.past f.index → f.desc = rxDesc B f.index) ∧
    (nRxBuffers ≤ queueSize → f.desc = rxDesc B f.index → FlagsWritten f.past f.index)

/-! ## The invariant of the descriptor loop -/

/-- `k` descriptors are stored, and the flags of `l`. -/
structure Exposed (B : Buffers) (bar0 queueSize k l : Nat) (m : Mem) (h : List Event) : Prop where
  notified : Notified bar0 h
  desc : ∀ i < k, loadDesc m virtqRx i = rxDesc B i
  written : ∀ i, Written h i → i < k
  stored : ∀ i < k, Written h i
  flags : ∀ i < l, FlagsWritten h i
  hidden : nRxBuffers ≤ queueSize → ∀ i, l ≤ i → i < nRxBuffers →
    load m (virtqDesc virtqRx i + 12) 2 = 0
  availIdx : nRxBuffers ≤ queueSize → load m (availIdx queueSize virtqRx) 2 = nRxBuffers
  availRing : nRxBuffers ≤ queueSize → ∀ j < nRxBuffers, load m (availRing queueSize virtqRx j) 2 = j

variable {B : Buffers} {bar0 queueSize k l : Nat} {m : Mem} {h : List Event} {e : Event}
  {reads : Nat → Nat → Nat → Prop}

/-- Under the invariant every fetch is judged as it should be. -/
theorem Exposed.fetch (hinv : Exposed B bar0 queueSize k l m h) {j : Nat}
    (hj : j < load m (Virtio.availIdx queueSize virtqRx) 2) :
    (fetch queueSize m h j).Judged B queueSize := by
  constructor
  · intro hwritten
    exact hinv.desc _ (hinv.written _ hwritten)
  · intro hq hright
    have hj16 : j < nRxBuffers := by rwa [hinv.availIdx hq] at hj
    have hslot : j % queueSize = j := Nat.mod_eq_of_lt (by omega)
    have hindex : (Virtio.fetch queueSize m h j).index = j := by
      show load m (Virtio.availRing queueSize virtqRx (j % queueSize)) 2 = j
      rw [hslot]
      exact hinv.availRing hq j hj16
    rw [hindex]
    apply hinv.flags
    by_contra hl
    -- the flags of a descriptor not reached yet are zero, those of a stored one are 2
    have hzero := hinv.hidden hq j (by omega) hj16
    have hdesc : loadDesc m virtqRx j = rxDesc B j := by
      rw [hindex] at hright
      rw [← hright]
      show _ = loadDesc m virtqRx (Virtio.fetch queueSize m h j).index
      rw [hindex]
    have htwo : load m (virtqDesc virtqRx j + 12) 2 = 2 := congrArg VirtqDesc.flags hdesc
    omega

/-- **A store of a field of descriptor `k`.** It does not touch flags that are still to be stored; it
    counts for the flags, or for the whole descriptor, if it is the store of these. -/
theorem Exposed.store {k' l' a o n v : Nat} (hinv : Exposed B bar0 queueSize k l m h) (hk : k < nRxBuffers)
    (ha : a = virtqDesc virtqRx k + o) (ho : o + n ≤ 16) (hkk : k ≤ k') (hl : l ≤ l')
    (hkept : l' = k + 1 ∨ o + n ≤ 12)
    (hflags : ∀ i, l ≤ i → i < l' → Event.store a n v = .store (virtqDesc virtqRx i + 12) 2 2)
    (hlast : ∀ i, Event.store a n v = .store (virtqDesc virtqRx i + 14) 2 0 → i < k')
    (hdone : ∀ i, k ≤ i → i < k' → Event.store a n v = .store (virtqDesc virtqRx i + 14) 2 0)
    (hdesc : ∀ i, k ≤ i → i < k' → loadDesc (store m a n v) virtqRx i = rxDesc B i) :
    Exposed B bar0 queueSize k' l' (store m a n v) (h ++ [.store a n v]) := by
  have hd := virtqDesc_eq virtqRx
  subst ha
  refine ⟨List.mem_append_left _ hinv.notified, ?_, ?_, ?_, ?_, ?_, ?_, ?_⟩
  · intro i hi
    by_cases hik : i < k
    · rw [loadDesc_congr (store_eqOn ?_)]
      · exact hinv.desc i hik
      · intro x hx
        have hhi := hx.2
        rw [hd] at hhi ⊢
        omega
    · exact hdesc i (by omega) hi
  · intro i hi
    rcases List.mem_append.mp hi with hmem | hmem
    · exact Nat.lt_of_lt_of_le (hinv.written i hmem) hkk
    · exact hlast i (List.mem_singleton.mp hmem).symm
  · intro i hi
    by_cases hik : i < k
    · exact List.mem_append_left _ (hinv.stored i hik)
    · show Event.store _ _ _ ∈ _
      rw [← hdone i (by omega) hi]
      exact List.mem_append_right _ (List.mem_singleton.mpr rfl)
  · intro i hi
    by_cases hil : i < l
    · exact List.mem_append_left _ (hinv.flags i hil)
    · show Event.store _ _ _ ∈ _
      rw [← hflags i (by omega) hi]
      exact List.mem_append_right _ (List.mem_singleton.mpr rfl)
  · intro hq i hli hi
    rw [load_store_disjoint (by rw [hd, hd]; omega)]
    exact hinv.hidden hq i (by omega) hi
  · intro hq
    rw [load_store_disjoint (by rw [hd, availIdx_eq]; omega)]
    exact hinv.availIdx hq
  · intro hq j hj
    rw [load_store_disjoint (by rw [hd, availRing_eq]; omega)]
    exact hinv.availRing hq j hj

/-- Port accesses leave the invariant alone. -/
theorem Exposed.port (hinv : Exposed B bar0 queueSize k l m h) (he : e.isPort = true) :
    Exposed B bar0 queueSize k l m (h ++ [e]) := by
  refine ⟨List.mem_append_left _ hinv.notified, hinv.desc, ?_,
    fun i hi => List.mem_append_left _ (hinv.stored i hi),
    fun i hi => List.mem_append_left _ (hinv.flags i hi), hinv.hidden, hinv.availIdx, hinv.availRing⟩
  intro i hi
  rcases List.mem_append.mp hi with hmem | hmem
  · exact hinv.written i hmem
  · rw [← List.mem_singleton.mp hmem] at he
    cases he

/-! ## Assertions beside the device -/

/-- A routine whose every fetch is judged as it should be; it stops in an ASSERT only if the device does
    not complete the handshake. -/
def probeSpec (B : Buffers) (bar0 queueSize : Nat) (reads : Nat → Nat → Nat → Prop) :
    Spec (State (List Fetch)) :=
  { always := fun s => ∀ f ∈ s.dev, f.Judged B queueSize
    blocked := fun _ => ¬ ∃ queueSize, Cooperative reads bar0 queueSize }

/-- Before the notify, or under the invariant of the descriptor loop. -/
def Fetchable (B : Buffers) (bar0 queueSize : Nat) (m : Mem) (h : List Event) : Prop :=
  ¬ Notified bar0 h ∨ ∃ k l, Exposed B bar0 queueSize k l m h

/-- A property of memory and history beside the device, which changes neither. -/
def watched (B : Buffers) (bar0 queueSize : Nat) (reads : Nat → Nat → Nat → Prop)
    (φ : Mem → List Event → Prop) :
    Assertion (rxProbe bar0 queueSize reads) (probeSpec B bar0 queueSize reads) :=
  { holds := fun s => (∀ f ∈ s.dev, f.Judged B queueSize) ∧
      Fetchable B bar0 queueSize s.mem s.past ∧ φ s.mem s.past
    stable := by
      rintro s s' ⟨hdev, hfetch, hφ⟩ ⟨hmem, hnotified, j, hj, rfl⟩
      rw [← hmem] at hfetch hφ
      refine ⟨?_, hfetch, hφ⟩
      intro f hf
      rcases List.mem_append.mp hf with hf | hf
      · exact hdev f hf
      · rw [List.mem_singleton.mp hf]
        rcases hfetch with hquiet | ⟨k, l, hinv⟩
        · exact absurd hnotified hquiet
        · rw [hmem] at hinv
          exact hinv.fetch hj
    always := fun _ hs => hs.1 }

section Rules

variable {φ ψ : Mem → List Event → Prop} {n a v : Nat}

theorem watched_store
    (hstep : ∀ m h, Fetchable B bar0 queueSize m h → φ m h →
      Fetchable B bar0 queueSize (store m a n v) (h ++ [.store a n v]) ∧
        ψ (store m a n v) (h ++ [.store a n v])) :
    Triple (watched B bar0 queueSize reads φ) (Prog.store a n v : Prog Out Unit)
      (fun _ => watched B bar0 queueSize reads ψ) :=
  Triple.store trivial (fun s hs => ⟨hs.1, hstep s.mem s.past hs.2.1 hs.2.2⟩)

theorem watched_ioWrite
    (hstep : ∀ m h, Fetchable B bar0 queueSize m h → φ m h →
      Fetchable B bar0 queueSize m (h ++ [.ioWrite n a v]) ∧ ψ m (h ++ [.ioWrite n a v])) :
    Triple (watched B bar0 queueSize reads φ) (Prog.ioWrite n a v : Prog Out Unit)
      (fun _ => watched B bar0 queueSize reads ψ) :=
  Triple.ioWrite (fun s hs => ⟨hs.1, hstep s.mem s.past hs.2.1 hs.2.2⟩)

end Rules

/-! ## Before the notify -/

/-- Neither the notify nor a store of a descriptor has been made. -/
def Quiet (bar0 : Nat) (h : List Event) : Prop := ¬ Notified bar0 h ∧ ∀ i, ¬ Written h i

theorem Quiet.snoc (hq : Quiet bar0 h)
    (hnotify : e ≠ .ioWrite 2 (port bar0 offsetQueueNotify) queueIdRx)
    (hwritten : ∀ i, e ≠ .store (virtqDesc virtqRx i + 14) 2 0) : Quiet bar0 (h ++ [e]) := by
  constructor
  · intro hmem
    rcases List.mem_append.mp hmem with hmem | hmem
    · exact hq.1 hmem
    · exact hnotify (List.mem_singleton.mp hmem).symm
  · intro i hmem
    rcases List.mem_append.mp hmem with hmem | hmem
    · exact hq.2 i hmem
    · exact hwritten i (List.mem_singleton.mp hmem).symm

/-- A quiet history with a fact about memory and history: the device cannot fetch. -/
def quietly (B : Buffers) (bar0 queueSize : Nat) (reads : Nat → Nat → Nat → Prop)
    (φ : Mem → List Event → Prop) :
    Assertion (rxProbe bar0 queueSize reads) (probeSpec B bar0 queueSize reads) :=
  watched B bar0 queueSize reads (fun m h => Quiet bar0 h ∧ φ m h)

section QuietRules

variable {φ ψ : Mem → List Event → Prop} {n a v : Nat} {β : Type}

/-- A load whose value memory determines. -/
theorem quietly_load {χ : Mem → Prop} {f : Nat → Prog Out β}
    {C : β → Assertion (rxProbe bar0 queueSize reads) (probeSpec B bar0 queueSize reads)}
    (hval : ∀ m, χ m → load m a n = v)
    (hf : Triple (quietly B bar0 queueSize reads (fun m _ => χ m)) (f v) C) :
    Triple (quietly B bar0 queueSize reads (fun m _ => χ m)) (Prog.load a n >>= f) C := by
  refine Triple.load_known trivial (fun s hs => hval s.mem hs.2.2.2) ?_ hf
  rintro s ⟨hdev, -, hquiet, hχ⟩
  have hquiet' : Quiet bar0 (s.past ++ [.load a n v]) :=
    hquiet.snoc (fun hc => by cases hc) (fun _ hc => by cases hc)
  exact ⟨hdev, Or.inl hquiet'.1, hquiet', hχ⟩

theorem quietly_store (hwritten : ∀ i, Event.store a n v ≠ .store (virtqDesc virtqRx i + 14) 2 0)
    (hstep : ∀ m h, φ m h → ψ (store m a n v) (h ++ [.store a n v])) :
    Triple (quietly B bar0 queueSize reads φ) (Prog.store a n v : Prog Out Unit)
      (fun _ => quietly B bar0 queueSize reads ψ) := by
  apply watched_store
  rintro m h - ⟨hquiet, hφ⟩
  have hquiet' : Quiet bar0 (h ++ [.store a n v]) := hquiet.snoc (fun hc => by cases hc) hwritten
  exact ⟨Or.inl hquiet'.1, hquiet', hstep m h hφ⟩

theorem quietly_ioWrite
    (hnotify : Event.ioWrite n a v ≠ .ioWrite 2 (port bar0 offsetQueueNotify) queueIdRx)
    (hstep : ∀ m h, φ m h → ψ m (h ++ [.ioWrite n a v])) :
    Triple (quietly B bar0 queueSize reads φ) (Prog.ioWrite n a v : Prog Out Unit)
      (fun _ => quietly B bar0 queueSize reads ψ) := by
  apply watched_ioWrite
  rintro m h - ⟨hquiet, hφ⟩
  have hquiet' : Quiet bar0 (h ++ [.ioWrite n a v]) := hquiet.snoc hnotify (fun _ hc => by cases hc)
  exact ⟨Or.inl hquiet'.1, hquiet', hstep m h hφ⟩

/-- A port read: the rest is checked for every answer. -/
theorem quietly_ioRead {f : Nat → Prog Out β}
    {C : β → Assertion (rxProbe bar0 queueSize reads) (probeSpec B bar0 queueSize reads)}
    (hf : ∀ v, reads n a v → Triple (quietly B bar0 queueSize reads (fun m h => ∃ h₀,
      h = h₀ ++ [.ioRead n a (v % 256 ^ n)] ∧ φ m h₀ ∧ (a = port bar0 offsetQueueSize →
        lastWritten (port bar0 offsetQueueSel) h₀ = some queueIdRx → v % 2 ^ 16 = queueSize)))
        (f (v % 256 ^ n)) C) :
    Triple (quietly B bar0 queueSize reads φ) (Prog.ioRead n a >>= f) C := by
  refine Triple.ioRead_each _ ?_ (fun _ v _ hv => hf v hv.1)
  rintro u v ⟨hdev, -, hquiet, hφ⟩ hv
  have hquiet' : Quiet bar0 (u.past ++ [.ioRead n a (v % 256 ^ n)]) :=
    hquiet.snoc (fun hc => by cases hc) (fun _ hc => by cases hc)
  exact ⟨hdev, Or.inl hquiet'.1, hquiet', u.past, rfl, hφ, hv.2⟩

theorem quietly_pre {p : Prog Out β}
    {C : β → Assertion (rxProbe bar0 queueSize reads) (probeSpec B bar0 queueSize reads)}
    (himp : ∀ m h, φ m h → ψ m h) (hp : Triple (quietly B bar0 queueSize reads ψ) p C) :
    Triple (quietly B bar0 queueSize reads φ) p C :=
  hp.weaken (fun s hs => ⟨hs.1, hs.2.1, hs.2.2.1, himp s.mem s.past hs.2.2.2⟩) (fun _ _ hs => hs)

end QuietRules

theorem port_ne {bar0 o o' : Nat} (ho : o < 0x10000) (ho' : o' < 0x10000) (h : o ≠ o') :
    port bar0 o ≠ port bar0 o' := by
  simp only [port]
  omega

/-- The flags of the sixteen descriptors are zero, if the queue has room for them. -/
def FlagsZero (queueSize : Nat) (m : Mem) : Prop :=
  nRxBuffers ≤ queueSize → ∀ i < nRxBuffers, load m (virtqDesc virtqRx i + 12) 2 = 0

theorem zeroVirtq_quietly {φ : Mem → Prop} {q : Nat} (hφ : ∀ m x, φ m → φ (store m x 1 0)) :
    Triple (quietly B bar0 queueSize reads (fun m _ => φ m)) (zeroVirtq queueSize q)
      (fun _ => quietly B bar0 queueSize reads
        (fun m _ => φ m ∧ ZeroRange m q (virtqSize queueSize))) := by
  refine quietly_pre (ψ := fun m _ => φ m ∧ ZeroRange m q 0) ?_ ?_
  · intro m _ hm
    exact ⟨hm, fun i hi => absurd hi (Nat.not_lt_zero i)⟩
  · refine Triple.forLoop
      (fun i _ => quietly B bar0 queueSize reads (fun m _ => φ m ∧ ZeroRange m q i)) ?_
    intro i _ _
    apply quietly_store
    · intro j hc
      injection hc with _ hn
      omega
    · rintro m _ ⟨hm, hzero⟩
      exact ⟨hφ m (q + i) hm, hzero.snoc⟩

theorem offerRx_quietly {i : Nat} (hi : i < nRxBuffers) :
    Triple (quietly B bar0 queueSize reads (fun m _ => Offered queueSize i m ∧ FlagsZero queueSize m))
      (offerRx queueSize i)
      (fun _ => quietly B bar0 queueSize reads
        (fun m _ => Offered queueSize (i + 1) m ∧ FlagsZero queueSize m)) := by
  have hring := availRing_eq queueSize virtqRx i
  have hidx := availIdx_eq queueSize virtqRx
  have hd := virtqDesc_eq virtqRx
  have hstored : Triple (quietly B bar0 queueSize reads
      (fun m _ => Offered queueSize i m ∧ FlagsZero queueSize m))
      (Prog.store (availRing queueSize virtqRx i) 2 i : Prog Out Unit) (fun _ => quietly B bar0 queueSize reads
        (fun m _ => ∃ m₀, (Offered queueSize i m₀ ∧ FlagsZero queueSize m₀) ∧
          m = store m₀ (availRing queueSize virtqRx i) 2 i)) := by
    apply quietly_store
    · intro j hc
      injection hc with haddr _ hv
      rw [hd] at haddr
      omega
    · intro m _ hm
      exact ⟨m, hm, rfl⟩
  refine quietly_load (v := i) (fun m hm => hm.1.availIdx)
    (hstored.bind (fun _ => quietly_load (v := i) ?_ ?_))
  · rintro m ⟨m₀, hm, rfl⟩
    rw [load_store_disjoint (by omega)]
    exact hm.1.availIdx
  · apply quietly_store
    · intro j hc
      injection hc with _ _ hv
      omega
    · rintro m _ ⟨m₀, ⟨hoff, hflags⟩, rfl⟩
      refine ⟨hoff.step hi, ?_⟩
      intro hq j hj
      rw [load_store_disjoint (by rw [hd]; omega), load_store_disjoint (by rw [hd]; omega)]
      exact hflags hq j hj

/-- The handshake: the device cannot fetch, and the size it has reported for the receive queue is the
    one the routine goes on with. -/
theorem negotiate_quietly (B : Buffers) (bar0 queueSize : Nat) (reads : Nat → Nat → Nat → Prop) :
    Triple (quietly B bar0 queueSize reads (fun _ _ => True)) (negotiate bar0)
      (fun size => (quietly B bar0 queueSize reads (fun _ _ => True)).given
        (size = queueSize ∧ queueSize < 0x10000)) := by
  have hsel : port bar0 offsetQueueSel ≠ port bar0 offsetQueueNotify :=
    port_ne (by decide) (by decide) (by decide)
  have hskip : ∀ {n a v : Nat}, Event.ioWrite n a v ≠ .ioWrite 2 (port bar0 offsetQueueNotify) queueIdRx →
      Triple (quietly B bar0 queueSize reads (fun _ _ => True)) (Prog.ioWrite n a v : Prog Out Unit)
        (fun _ => quietly B bar0 queueSize reads (fun _ _ => True)) :=
    fun hne => quietly_ioWrite hne (fun _ _ _ => trivial)
  refine quietly_ioRead (fun _ _ => quietly_pre (fun _ _ _ => trivial) ?_)
  refine (hskip (by rintro ⟨⟩)).bind (fun _ => ?_)
  refine quietly_ioRead (fun _ _ => quietly_pre (fun _ _ _ => trivial) ?_)
  refine (hskip (by rintro ⟨⟩)).bind (fun _ => ?_)
  refine quietly_ioRead (fun features hfeatures => quietly_pre (fun _ _ _ => trivial) ?_)
  refine labelled_spec (fun _ _ hs => hs) ?_
  refine ASSERT_spec (fun _ _ hs => hs) ?_ (fun _ => ?_)
  · rintro hmac _ ⟨size, hco⟩
    exact hco.mac features hfeatures (by simpa using hmac)
  refine (hskip (by rintro ⟨⟩)).bind (fun _ => ?_)
  refine quietly_ioRead (fun _ _ => quietly_pre (fun _ _ _ => trivial) ?_)
  refine (hskip (by rintro ⟨⟩)).bind (fun _ => ?_)
  refine quietly_ioRead (fun status hstatus => quietly_pre (fun _ _ _ => trivial) ?_)
  refine labelled_spec (fun _ _ hs => hs) ?_
  refine ASSERT_spec (fun _ _ hs => hs) ?_ (fun _ => ?_)
  · rintro hok _ ⟨size, hco⟩
    exact hco.featuresOk status hstatus (by simpa using hok)
  -- the transmit queue
  refine (hskip (fun hc => hsel (by injection hc))).bind (fun _ => ?_)
  refine quietly_ioRead (fun txSize htx => quietly_pre (fun _ _ _ => trivial) ?_)
  refine labelled_spec (fun _ _ hs => hs) ?_
  refine (hskip (by rintro ⟨⟩)).bind (fun _ => ?_)
  -- the receive queue, whose size the device reports truly
  refine Triple.bind (B := fun _ => quietly B bar0 queueSize reads
    (fun _ h => lastWritten (port bar0 offsetQueueSel) h = some queueIdRx)) ?_ (fun _ => ?_)
  · exact quietly_ioWrite (fun hc => hsel (by injection hc)) (fun m h _ => lastWritten_write)
  refine quietly_ioRead (fun rxSize hrx => ?_)
  refine Triple.assume (rxSize % 2 ^ 16 = queueSize) ?_ (fun hsize => ?_)
  · rintro s ⟨-, -, -, h₀, -, hlast, hval⟩
    exact hval rfl hlast
  refine quietly_pre (ψ := fun _ _ => True) (fun _ _ _ => trivial) ?_
  refine ASSERT_spec (fun _ _ hs => hs) ?_ (fun heq => ?_)
  · rintro hne _ ⟨size, hco⟩
    have hsame : rxSize % 256 ^ 2 = txSize % 256 ^ 2 :=
      (hco.queueSize rxSize hrx).trans (hco.queueSize txSize htx).symm
    rw [hsame, beq_self_eq_true] at hne
    cases hne
  have htxSize : txSize % 256 ^ 2 = queueSize := by
    rw [← eq_of_beq heq]
    exact hsize
  refine (hskip (by rintro ⟨⟩)).bind (fun _ => ?_)
  exact Triple.ret (fun s hs => ⟨⟨htxSize, by omega⟩, hs⟩)

/-- Both queues are cleared and the buffers offered. -/
theorem offerAll_quietly (hlt : queueSize < 0x10000) :
    Triple (quietly B bar0 queueSize reads (fun _ _ => True)) (offerAll queueSize)
      (fun _ => quietly B bar0 queueSize reads
        (fun m _ => Offered queueSize nRxBuffers m ∧ FlagsZero queueSize m)) := by
  refine (zeroVirtq_quietly (φ := fun _ => True) (fun _ _ h => h)).bind (fun _ => ?_)
  refine (zeroVirtq_quietly (φ := fun m => True ∧ ZeroRange m virtqRx (virtqSize queueSize))
    (fun _ _ hm => ⟨trivial, hm.2.store_zero⟩)).bind (fun _ => ?_)
  refine quietly_pre (ψ := fun m _ => Offered queueSize 0 m ∧ FlagsZero queueSize m) ?_
    (Triple.forLoop (fun i _ => quietly B bar0 queueSize reads
      (fun m _ => Offered queueSize i m ∧ FlagsZero queueSize m))
      (fun i hi _ => offerRx_quietly hi))
  rintro m _ ⟨⟨-, hrx⟩, htx⟩
  refine ⟨offered_zero hlt hrx htx, ?_⟩
  intro hq i hi
  have hbounds := virtqUsed_bounds queueSize virtqRx
  rw [virtqDesc_eq, Nat.add_assoc]
  exact hrx.load (by simp only [nRxBuffers] at hi hq; omega)

/-- **The first half**: the device cannot fetch yet, and finds sixteen entries when it can. -/
theorem setUp_spec (B : Buffers) (bar0 queueSize : Nat) (reads : Nat → Nat → Nat → Prop) :
    Triple (quietly B bar0 queueSize reads (fun _ _ => True)) (setUp bar0)
      (fun size => quietly B bar0 queueSize reads (fun m _ =>
        size = queueSize ∧ Offered queueSize nRxBuffers m ∧ FlagsZero queueSize m)) := by
  apply (negotiate_quietly B bar0 queueSize reads).bind
  intro size
  refine Triple.assume _ (fun s hs => hs.1) ?_
  rintro ⟨rfl, hlt⟩
  refine Triple.bind (B := fun _ => quietly B bar0 size reads
    (fun m _ => Offered size nRxBuffers m ∧ FlagsZero size m)) ?_ (fun _ => ?_)
  · exact (offerAll_quietly hlt).weaken (fun _ hs => hs.2) (fun _ _ hs => hs)
  · exact Triple.ret (fun s hs => ⟨hs.1, hs.2.1, hs.2.2.1, rfl, hs.2.2.2⟩)

/-! ## From the notify on -/

/-- The notify establishes the invariant. -/
theorem exposed_start (hquiet : Quiet bar0 h) (hoff : Offered queueSize nRxBuffers m)
    (hflags : FlagsZero queueSize m) :
    Exposed B bar0 queueSize 0 0 m
      (h ++ [.ioWrite 2 (port bar0 offsetQueueNotify) queueIdRx]) := by
  have hnone : ∀ i, ¬ i < 0 := Nat.not_lt_zero
  refine ⟨List.mem_append_right _ (List.mem_singleton.mpr rfl), fun i hi => absurd hi (hnone i), ?_,
    fun i hi => absurd hi (hnone i), fun i hi => absurd hi (hnone i),
    fun hq i _ hi => hflags hq i hi, fun _ => hoff.availIdx, fun _ => hoff.availRing⟩
  intro i hi
  rcases List.mem_append.mp hi with hmem | hmem
  · exact absurd hmem (hquiet.2 i)
  · cases List.mem_singleton.mp hmem

/-- **One descriptor**, field by field beside the device. -/
theorem describeRx_watched {k : Nat} (hk : k < nRxBuffers) :
    Triple (watched B bar0 queueSize reads (Exposed B bar0 queueSize k k))
      (storeDesc virtqRx k (rxDesc B k))
      (fun _ => watched B bar0 queueSize reads (Exposed B bar0 queueSize (k + 1) (k + 1))) := by
  have hd := virtqDesc_eq virtqRx
  constructor
  rintro s ⟨hdev, -, h₀⟩
  -- the four fields, from the memory and history at hand
  let a := virtqDesc virtqRx k
  have hnone : ∀ i, k ≤ i → ¬ i < k := fun i hi => by omega
  have hthis : ∀ i, k ≤ i → i < k + 1 → i = k := fun i hi hi' => by omega
  have h₁ := h₀.store (a := a) (n := 8) (v := B.rx k) hk (Nat.add_zero a).symm (by omega)
    (Nat.le_refl k) (Nat.le_refl k) (Or.inr (by omega)) (fun i hi hi' => absurd hi' (hnone i hi))
    (fun i hc => by injection hc with _ hn; omega) (fun i hi hi' => absurd hi' (hnone i hi))
    (fun i hi hi' => absurd hi' (hnone i hi))
  have h₂ := h₁.store (a := a + 8) (n := 4) (v := bufferLen) hk rfl (by omega)
    (Nat.le_refl k) (Nat.le_refl k) (Or.inr (by omega)) (fun i hi hi' => absurd hi' (hnone i hi))
    (fun i hc => by injection hc with _ hn; omega) (fun i hi hi' => absurd hi' (hnone i hi))
    (fun i hi hi' => absurd hi' (hnone i hi))
  have h₃ := h₂.store (a := a + 12) (n := 2) (v := 2) hk rfl (by omega)
    (Nat.le_refl k) (Nat.le_succ k) (Or.inl rfl) (fun i hi hi' => by rw [hthis i hi hi'])
    (fun i hc => by injection hc with _ _ hv; omega) (fun i hi hi' => absurd hi' (hnone i hi))
    (fun i hi hi' => absurd hi' (hnone i hi))
  have h₄ := h₃.store (a := a + 14) (n := 2) (v := 0) hk rfl (by omega)
    (Nat.le_succ k) (Nat.le_refl (k + 1)) (Or.inl rfl) (fun i hi hi' => by omega)
    (fun i hc => by injection hc with haddr; simp only [a, hd] at haddr; omega)
    (fun i hi hi' => by rw [hthis i hi hi'])
    (fun i hi hi' => by rw [hthis i hi hi']; exact loadDesc_withDesc_rx hk)
  have hstep : ∀ {a n v : Nat} {m : Mem} {h : List Event} {k' l' : Nat},
      Exposed B bar0 queueSize k' l' (store m a n v) (h ++ [.store a n v]) →
      Triple (watched B bar0 queueSize reads (fun m' h' => m' = m ∧ h' = h))
        (Prog.store a n v : Prog Out Unit)
        (fun _ => watched B bar0 queueSize reads
          (fun m' h' => m' = store m a n v ∧ h' = h ++ [.store a n v])) := by
    intro a n v m h k' l' hinv
    apply watched_store
    rintro _ _ - ⟨rfl, rfl⟩
    exact ⟨Or.inr ⟨k', l', hinv⟩, rfl, rfl⟩
  have hall : Triple (watched B bar0 queueSize reads (fun m' h' => m' = s.mem ∧ h' = s.past))
      (storeDesc virtqRx k (rxDesc B k)) _ :=
    (hstep h₁).bind (fun _ => (hstep h₂).bind (fun _ => (hstep h₃).bind (fun _ => hstep h₄)))
  refine (hall.safe s ⟨hdev, Or.inr ⟨k, k, h₀⟩, rfl, rfl⟩).mono ?_
  rintro _ u ⟨hu, hfetch, hmem, hpast⟩
  refine ⟨hu, hfetch, ?_⟩
  rw [hmem, hpast]
  exact h₄

/-- **The second half** beside the device. -/
theorem finish_spec (B : Buffers) (bar0 queueSize : Nat) (reads : Nat → Nat → Nat → Prop) :
    Triple (quietly B bar0 queueSize reads (fun m _ =>
        Offered queueSize nRxBuffers m ∧ FlagsZero queueSize m))
      (finish B bar0 queueSize)
      (fun _ => watched B bar0 queueSize reads (Exposed B bar0 queueSize nRxBuffers nRxBuffers)) := by
  have hport : ∀ m h e, e.isPort = true → Exposed B bar0 queueSize nRxBuffers nRxBuffers m h →
      Fetchable B bar0 queueSize m (h ++ [e]) ∧
        Exposed B bar0 queueSize nRxBuffers nRxBuffers m (h ++ [e]) :=
    fun m h e he hinv => ⟨Or.inr ⟨_, _, hinv.port he⟩, hinv.port he⟩
  refine Triple.bind (B := fun _ => watched B bar0 queueSize reads (Exposed B bar0 queueSize 0 0)) ?_
    (fun _ => ?_)
  · apply watched_ioWrite
    rintro m h - ⟨hquiet, hoff, hflags⟩
    have hinv := exposed_start (B := B) hquiet hoff hflags
    exact ⟨Or.inr ⟨0, 0, hinv⟩, hinv⟩
  refine (Triple.forLoop (fun i _ => watched B bar0 queueSize reads (Exposed B bar0 queueSize i i))
    (fun i hi _ => describeRx_watched hi)).bind (fun _ => ?_)
  refine Triple.ioRead_each (fun _ => watched B bar0 queueSize reads
    (Exposed B bar0 queueSize nRxBuffers nRxBuffers)) ?_ (fun _ status _ _ => ?_)
  · intro s v hs _
    exact ⟨hs.1, hport _ _ _ rfl hs.2.2⟩
  refine (watched_ioWrite (fun m h _ hinv => hport m h _ rfl hinv)).bind (fun _ => ?_)
  exact print_silent.bind (fun _ => Triple.ret (fun _ hs => hs))

/-! ## Every interleaving -/

theorem quietly_start : (quietly B bar0 queueSize reads (fun _ _ => True)).holds ⟨m, [], []⟩ := by
  have hquiet : Quiet bar0 [] :=
    ⟨fun hmem => List.not_mem_nil hmem, fun _ hmem => List.not_mem_nil hmem⟩
  exact ⟨fun _ hf => absurd hf List.not_mem_nil, Or.inl hquiet.1, hquiet, trivial⟩

/-- **The whole routine** beside the device. -/
theorem initVirtioNet_watched (B : Buffers) (bar0 queueSize : Nat)
    (reads : Nat → Nat → Nat → Prop) :
    Triple (quietly B bar0 queueSize reads (fun _ _ => True)) (initVirtioNet B bar0)
      (fun _ => watched B bar0 queueSize reads (Exposed B bar0 queueSize nRxBuffers nRxBuffers)) := by
  apply (setUp_spec B bar0 queueSize reads).bind
  intro size
  refine Triple.assume (size = queueSize) (fun u hu => hu.2.2.2.1) ?_
  rintro rfl
  exact quietly_pre (fun _ _ hm => hm.2) (finish_spec B bar0 size reads)

/-- **Receive descriptors are exposed early.** In every interleaving of `init_virtio_net` with the device
    every descriptor fetched is right if all are fetched after the driver has stored them. Each one is
    right if it is fetched after the driver has stored it and, for a queue with room for the sixteen
    entries, only if its flags have been stored. -/
theorem fetched_descriptors_right_iff_stored (B : Buffers) (bar0 queueSize : Nat)
    (reads : Nat → Nat → Nat → Prop) (m : Mem) {p : Prog Out Nat} {s : State (List Fetch)}
    (hrun : Interleaves (rxProbe bar0 queueSize reads) (initVirtioNet B bar0, ⟨m, [], []⟩) (p, s)) :
    ((∀ f ∈ s.dev, Written f.past f.index) → ∀ f ∈ s.dev, f.desc = rxDesc B f.index) ∧
      ∀ f ∈ s.dev, (Written f.past f.index → f.desc = rxDesc B f.index) ∧
        (nRxBuffers ≤ queueSize → f.desc = rxDesc B f.index → FlagsWritten f.past f.index) := by
  have hjudged : ∀ f ∈ s.dev, f.Judged B queueSize :=
    (((initVirtioNet_watched B bar0 queueSize reads).safe _ quietly_start).interleaves hrun).always
  exact ⟨fun hlate f hf => (hjudged f hf).1 (hlate f hf), hjudged⟩

section Sample

/-- A device with queues of 256 entries that completes the handshake. -/
def sampleProbe : Host (List Fetch) := rxProbe 0xc000 256 (onesPorts 0xc000 256)

theorem sampleProbe_answers (s : State (List Fetch)) (n address : Nat) :
    ∃ v, sampleProbe.answers s.past s.dev n address v :=
  ⟨_, rfl, fun haddress _ => (congrArg (· % 2 ^ 16) (if_pos haddress)).trans (by decide)⟩

theorem sampleProbe_completes (s : State (List Fetch)) :
    ¬ (probeSpec sampleBuffers 0xc000 256 (onesPorts 0xc000 256)).blocked s :=
  fun hb => hb ⟨256, cooperative_onesPorts 0xc000 (by decide)⟩

/-- The fetch of the first entry, once the device is notified of sixteen. -/
theorem sampleProbe_fetch {s : State (List Fetch)} (hnotified : Notified 0xc000 s.past)
    (hidx : load s.mem (availIdx 256 virtqRx) 2 = 16) :
    sampleProbe.Move s { s with dev := s.dev ++ [fetch 256 s.mem s.past 0] } :=
  Host.Move.intro ⟨rfl, hnotified, 0, by rw [hidx]; decide, rfl⟩

/-- The device fetches the first descriptor when the routine has returned: it is the right one. -/
theorem fetched_after_return : ∃ (p : Prog Out Nat) (s : State (List Fetch)) (f : Fetch),
    Interleaves sampleProbe (initVirtioNet sampleBuffers 0xc000, ⟨fun _ => 0, [], []⟩) (p, s) ∧
      f ∈ s.dev ∧ Written f.past f.index ∧ f.desc = rxDesc sampleBuffers f.index := by
  obtain ⟨size, s, hrun, -, -, hexposed⟩ :=
    ((initVirtioNet_watched sampleBuffers 0xc000 256 (onesPorts 0xc000 256)).safe _
      (quietly_start (m := fun _ => 0))).returns sampleProbe_answers
      (Spec.patient_of_unblocked sampleProbe_completes not_false) (sampleProbe_completes _)
  have hidx := hexposed.availIdx (by decide)
  have hrun' := (Interleaves.of_run hrun).tail (.env (sampleProbe_fetch hexposed.notified hidx))
  have hmem : fetch 256 s.mem s.past 0 ∈ s.dev ++ [fetch 256 s.mem s.past 0] :=
    List.mem_append_right _ (List.mem_singleton.mpr rfl)
  have hwritten : Written s.past (fetch 256 s.mem s.past 0).index :=
    hexposed.stored _ (by rw [show (fetch 256 s.mem s.past 0).index = 0 from
      hexposed.availRing (by decide) 0 (by decide)]; decide)
  refine ⟨_, _, _, hrun', hmem, hwritten, ?_⟩
  exact ((fetched_descriptors_right_iff_stored sampleBuffers 0xc000 256 (onesPorts 0xc000 256)
    (fun _ => 0) hrun').2 _ hmem).1 hwritten

/-- **The first descriptor is exposed before it is written**: fetched right after the notify, it is still
    zero. -/
theorem descriptor_exposed_unwritten :
    ¬ ∀ (p : Prog Out Nat) (s : State (List Fetch)),
      Interleaves sampleProbe (initVirtioNet sampleBuffers 0xc000, ⟨fun _ => 0, [], []⟩) (p, s) →
      ∀ f ∈ s.dev, f.desc = rxDesc sampleBuffers f.index := by
  intro hall
  obtain ⟨size, s, hrun, -, -, -, rfl, hoff, hflags⟩ :=
    ((setUp_spec sampleBuffers 0xc000 256 (onesPorts 0xc000 256)).safe _
      (quietly_start (m := fun _ => 0))).returns sampleProbe_answers
      (Spec.patient_of_unblocked sampleProbe_completes not_false) (sampleProbe_completes _)
  have hrun' : Interleaves sampleProbe (initVirtioNet sampleBuffers 0xc000, ⟨fun _ => 0, [], []⟩)
      (finish sampleBuffers 0xc000 256, s) :=
    (Interleaves.of_run hrun).bind (finish sampleBuffers 0xc000)
  -- the notify, and the fetch right after it
  let s' := s.log (.ioWrite 2 (port 0xc000 offsetQueueNotify) queueIdRx)
  have hnotified : Notified 0xc000 s'.past := List.mem_append_right _ (List.mem_singleton.mpr rfl)
  have hfetch := (hrun'.tail (.prog .ioWrite)).tail
    (.env (sampleProbe_fetch (s := s') hnotified hoff.availIdx))
  have hright := hall _ _ hfetch (fetch 256 s'.mem s'.past 0)
    (List.mem_append_right _ (List.mem_singleton.mpr rfl))
  have hindex : (fetch 256 s'.mem s'.past 0).index = 0 := hoff.availRing 0 (by decide)
  have hflag : (fetch 256 s'.mem s'.past 0).desc.flags = 0 := by
    show (loadDesc s.mem virtqRx (fetch 256 s'.mem s'.past 0).index).flags = 0
    rw [hindex]
    exact hflags (by decide) 0 (by decide)
  rw [hright] at hflag
  cases hflag

end Sample

end Virtio
end SysproKernel

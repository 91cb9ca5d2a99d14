import SysproKernel.Virtio.Layout

/-!
# `Virtio.Init` — `init_virtio_net`

The handshake, the registration of both queues and the preparation of the receive queue, translated from
virtio.c. The routine returns the queue size it stored in `QUEUE_SIZE`. `initVirtioNet_spec` says what
memory looks like when it has returned: the transmit queue is zero, and if the queue has room for the
sixteen receive buffers, each is described by its descriptor and offered in the available ring once, in
order. The routine is run without the device touching memory; its ports may answer anything.
-/

namespace SysproKernel
namespace Virtio

open Lib.ByteMem Lib.Loop Lib.Driver

/-! ## The routine -/

/-- `for (u32 i = 0; i < VIRTQ_SIZE; i++) ((char *) q)[i] = 0;` -/
def zeroVirtq (queueSize q : Nat) : Prog Out Unit :=
  forLoop (virtqSize queueSize) (fun i _ => Prog.store (q + i) 1 0) ()

/-- One iteration of the loop that offers the RX buffers. -/
def offerRx (queueSize i : Nat) : Prog Out Unit := do
  let idx ← Prog.load (availIdx queueSize virtqRx) 2
  Prog.store (availRing queueSize virtqRx idx) 2 i
  let idx ← Prog.load (availIdx queueSize virtqRx) 2
  Prog.store (availIdx queueSize virtqRx) 2 (idx + 1)

/-- The descriptor of RX buffer `i`. -/
def rxDesc (B : Buffers) (i : Nat) : VirtqDesc :=
  { addr := B.rx i, len := bufferLen, flags := 2, next := 0 }

/-- The handshake, up to the address of the receive queue. -/
def negotiate (bar0 : Nat) : Prog Out Nat := do
  let status ← ioRead8 (port bar0 offsetStatus)
  ioWrite8 (port bar0 offsetStatus) (status ||| statusAcknowledge)
  let status ← ioRead8 (port bar0 offsetStatus)
  ioWrite8 (port bar0 offsetStatus) (status ||| statusDriver)
  let features ← ioRead32 (port bar0 offsetDevFeats)
  puts "features:"
  puth features 8
  puts "\n"
  ASSERT (features &&& virtioNetFMac != 0) "features & VIRTIO_NET_F_MAC"
  ioWrite32 (port bar0 offsetDriverFeats) (virtioNetFMac ||| virtioNetFCsum)
  let status ← ioRead8 (port bar0 offsetStatus)
  ioWrite8 (port bar0 offsetStatus) (status ||| statusFeaturesOk)
  let status ← ioRead8 (port bar0 offsetStatus)
  puts "status:"
  puth status 2
  puts "\n"
  ASSERT (status &&& statusFeaturesOk != 0) "status & STATUS_FEATURES_OK"
  -- register tx queue
  ioWrite16 (port bar0 offsetQueueSel) queueIdTx
  let queueSize ← ioRead16 (port bar0 offsetQueueSize)
  puts "queue size:"
  puth queueSize 2
  puts "\n"
  ioWrite32 (port bar0 offsetQueueAddr) (virtqTx >>> 12)
  -- register rx queue
  ioWrite16 (port bar0 offsetQueueSel) queueIdRx
  let devQueueSize ← ioRead16 (port bar0 offsetQueueSize)
  ASSERT (devQueueSize == queueSize) "dev_queue_size == QUEUE_SIZE"
  ioWrite32 (port bar0 offsetQueueAddr) (virtqRx >>> 12)
  return queueSize

/-- Both queues are cleared, and the receive buffers offered. -/
def offerAll (queueSize : Nat) : Prog Out Unit := do
  zeroVirtq queueSize virtqRx
  zeroVirtq queueSize virtqTx
  forLoop nRxBuffers (fun i _ => offerRx queueSize i) ()

/-- All that comes before the notify. -/
def setUp (bar0 : Nat) : Prog Out Nat := do
  let queueSize ← negotiate bar0
  offerAll queueSize
  return queueSize

/-- The rest, from the notify on. -/
def finish (B : Buffers) (bar0 queueSize : Nat) : Prog Out Nat := do
  ioWrite16 (port bar0 offsetQueueNotify) queueIdRx
  forLoop nRxBuffers (fun i _ => storeDesc virtqRx i (rxDesc B i)) ()
  let status ← ioRead8 (port bar0 offsetStatus)
  ioWrite8 (port bar0 offsetStatus) (status ||| statusDriverOk)
  puts "ok!!!!\n"
  return queueSize

/-- `init_virtio_net`, in the parts that its properties are about. -/
def initVirtioNet (B : Buffers) (bar0 : Nat) : Prog Out Nat := do
  let queueSize ← setUp bar0
  finish B bar0 queueSize

/-- Its three parts in a row. -/
theorem initVirtioNet_eq (B : Buffers) (bar0 : Nat) :
    initVirtioNet B bar0 = negotiate bar0 >>= fun queueSize => offerAll queueSize >>= fun _ =>
      finish B bar0 queueSize := by
  unfold initVirtioNet setUp
  simp only [Prog.bind_assoc, Prog.pure_bind]

/-! ## The memory it leaves -/

/-- A range of zero bytes. -/
def ZeroRange (m : Mem) (a n : Nat) : Prop := ∀ i < n, m (a + i) = 0

theorem ZeroRange.load {m : Mem} {a n o k : Nat} (h : ZeroRange m a n) (ho : o + k ≤ n) :
    load m (a + o) k = 0 := by
  apply load_zero
  intro i hi
  rw [Nat.add_assoc]
  exact h (o + i) (by omega)

theorem ZeroRange.congr {m m' : Mem} {a n : Nat} (h : ZeroRange m a n)
    (heq : Set.EqOn m' m (Set.Ico a (a + n))) : ZeroRange m' a n := by
  intro i hi
  rw [heq ⟨by omega, by omega⟩]
  exact h i hi

theorem store_zero_self (m : Mem) (x : Nat) : store m x 1 0 x = 0 := by
  rw [store, leBytes, leBytes, writeBytes, writeBytes, Function.update_self]
  rfl

/-- Storing a zero byte keeps a range of zeros. -/
theorem ZeroRange.store_zero {m : Mem} {a n x : Nat} (h : ZeroRange m a n) :
    ZeroRange (store m x 1 0) a n := by
  intro i hi
  by_cases hx : a + i = x
  · rw [hx, store_zero_self]
  · rw [store_outside (by omega)]
    exact h i hi

/-- Storing a zero byte behind a range of zeros extends it. -/
theorem ZeroRange.snoc {m : Mem} {a n : Nat} (h : ZeroRange m a n) :
    ZeroRange (store m (a + n) 1 0) a (n + 1) := by
  intro i hi
  by_cases hin : i = n
  · rw [hin, store_zero_self]
  · exact h.store_zero i (by omega)

/-- `i` of the RX buffers have been offered; nothing else of the two queues has been written. -/
structure Offered (queueSize i : Nat) (m : Mem) : Prop where
  queueSize_lt : queueSize < 0x10000
  availIdx : load m (availIdx queueSize virtqRx) 2 = i
  availRing : ∀ j < i, load m (availRing queueSize virtqRx j) 2 = j
  usedIdx : load m (usedIdx queueSize virtqRx) 2 = 0
  tx : ZeroRange m virtqTx (virtqSize queueSize)

/-- What `init_virtio_net` leaves once `i` RX descriptors are stored. They overwrite the available ring
    of a queue too small for them, hence the condition on its contents. -/
structure Described (B : Buffers) (queueSize i : Nat) (m : Mem) : Prop where
  queueSize_lt : queueSize < 0x10000
  availIdx : nRxBuffers ≤ queueSize → load m (availIdx queueSize virtqRx) 2 = nRxBuffers
  availRing : nRxBuffers ≤ queueSize → ∀ j < nRxBuffers, load m (availRing queueSize virtqRx j) 2 = j
  desc : ∀ j < i, loadDesc m virtqRx j = rxDesc B j
  usedIdx : load m (usedIdx queueSize virtqRx) 2 = 0
  tx : ZeroRange m virtqTx (virtqSize queueSize)

/-- What `init_virtio_net` leaves. -/
abbrev Initialised (B : Buffers) (queueSize : Nat) (m : Mem) : Prop :=
  Described B queueSize nRxBuffers m

variable {B : Buffers} {queueSize i : Nat} {m : Mem}

theorem offered_zero (hq : queueSize < 0x10000) (hrx : ZeroRange m virtqRx (virtqSize queueSize))
    (htx : ZeroRange m virtqTx (virtqSize queueSize)) : Offered queueSize 0 m := by
  obtain ⟨hu, -, hs⟩ := virtqUsed_bounds queueSize virtqRx
  refine ⟨hq, ?_, fun j hj => by omega, ?_, htx⟩
  · rw [availIdx_eq, Nat.add_assoc]
    exact hrx.load (by omega)
  · rw [show Virtio.usedIdx queueSize virtqRx
        = virtqRx + (virtqUsed queueSize virtqRx + 2 - virtqRx) by rw [usedIdx_eq]; omega]
    exact hrx.load (by omega)

/-- **Step of the offering loop.** -/
theorem Offered.step (h : Offered queueSize i m) (hi : i < 16) :
    Offered queueSize (i + 1)
      (store (store m (Virtio.availRing queueSize virtqRx i) 2 i)
        (Virtio.availIdx queueSize virtqRx) 2 (i + 1)) := by
  obtain ⟨hu, hp, hs⟩ := virtqUsed_bounds queueSize virtqRx
  have hend := (virtqSize_lt h.queueSize_lt).1
  have hring := availRing_eq queueSize virtqRx
  have hidx := availIdx_eq queueSize virtqRx
  have husd := usedIdx_eq queueSize virtqRx
  refine ⟨h.queueSize_lt, ?_, ?_, ?_, h.tx.congr ?_⟩
  · rw [load_store_self]
    omega
  · intro j hj
    rw [load_store_disjoint (by rw [hidx, hring]; omega)]
    by_cases hji : j = i
    · subst hji
      rw [load_store_self]
      omega
    · rw [load_store_disjoint (by rw [hring, hring]; omega)]
      exact h.availRing j (by omega)
  · rw [load_store_disjoint (by omega), load_store_disjoint (by rw [hring]; omega)]
    exact h.usedIdx
  · intro x hx
    have hlo := hx.1
    rw [store_outside (by omega), store_outside (by rw [hring]; omega)]

theorem Offered.described (h : Offered queueSize nRxBuffers m) : Described B queueSize 0 m :=
  ⟨h.queueSize_lt, fun _ => h.availIdx, fun _ => h.availRing, fun j hj => by omega, h.usedIdx, h.tx⟩

theorem loadDesc_withDesc_rx (hi : i < 16) :
    loadDesc (withDesc m virtqRx i (rxDesc B i)) virtqRx i = rxDesc B i := by
  have hrx := B.rx_range hi
  refine loadDesc_withDesc ?_ ?_ ?_ ?_
  · show B.rx i < 2 ^ 64
    omega
  · show bufferLen < 2 ^ 32
    decide
  · show 2 < 2 ^ 16
    decide
  · show 0 < 2 ^ 16
    decide

/-- **Step of the descriptor loop.** -/
theorem Described.step (h : Described B queueSize i m) (hi : i < 16) :
    Described B queueSize (i + 1) (withDesc m virtqRx i (rxDesc B i)) := by
  obtain ⟨hu, hp, hs⟩ := virtqUsed_bounds queueSize virtqRx
  have hend := (virtqSize_lt h.queueSize_lt).1
  have hd := virtqDesc_eq virtqRx
  have hframe : ∀ a n, virtqDesc virtqRx i + 16 ≤ a ∨ a + n ≤ virtqDesc virtqRx i →
      load (withDesc m virtqRx i (rxDesc B i)) a n = load m a n := by
    intro a n hdis
    exact load_congr (withDesc_eqOn (fun x hx => by have := hx.1; have := hx.2; omega))
  rw [hd] at hframe
  refine ⟨h.queueSize_lt, ?_, ?_, ?_, ?_, h.tx.congr (withDesc_eqOn ?_)⟩
  · intro hq
    rw [hframe _ _ (by rw [availIdx_eq]; simp only [nRxBuffers] at hq; omega)]
    exact h.availIdx hq
  · intro hq j hj
    rw [hframe _ _ (by rw [availRing_eq]; simp only [nRxBuffers] at hq; omega)]
    exact h.availRing hq j hj
  · intro j hj
    by_cases hji : j = i
    · subst hji
      exact loadDesc_withDesc_rx hi
    · rw [loadDesc_congr (withDesc_eqOn ?_)]
      · exact h.desc j (by omega)
      · intro x hx
        have hlo := hx.1
        have hhi := hx.2
        rw [hd] at hlo hhi ⊢
        omega
  · rw [hframe _ _ (by rw [usedIdx_eq]; omega)]
    exact h.usedIdx
  · intro x hx
    have hlo := hx.1
    rw [hd]
    omega

/-! ## The routine meets its specification -/

/-- The device completes the handshake: it offers its MAC address, keeps FEATURES_OK and reports one
    queue size. -/
structure Cooperative (reads : Nat → Nat → Nat → Prop) (bar0 queueSize : Nat) : Prop where
  answers : ∀ n address, ∃ v, reads n address v
  mac : ∀ v, reads 4 (port bar0 offsetDevFeats) v → v % 2 ^ 32 &&& virtioNetFMac ≠ 0
  featuresOk : ∀ v, reads 1 (port bar0 offsetStatus) v → v % 2 ^ 8 &&& statusFeaturesOk ≠ 0
  queueSize : ∀ v, reads 2 (port bar0 offsetQueueSize) v → v % 2 ^ 16 = queueSize

section Printing

variable {Γ σ β : Type} [Surroundings Γ σ] [Output Out σ] {E : Γ} {S : Spec σ} {A : Assertion E S}
  {C : β → Assertion E S}

theorem print_spec (hprint : ∀ s (o : Out), A.holds s → A.holds (Output.print s o)) (o : Out) :
    Triple A (Prog.print o) (fun _ => A) :=
  Triple.print (fun s hs => hprint s o hs)

/-- Behind an ASSERT its condition may be assumed. -/
theorem ASSERT_spec {cond : Bool} {text : String} {f : Unit → Prog Out β}
    (hprint : ∀ s (o : Out), A.holds s → A.holds (Output.print s o))
    (hfail : cond = false → ∀ s, S.blocked s) (hf : cond = true → Triple A (f ()) C) :
    Triple A (ASSERT cond text >>= f) C := by
  cases cond with
  | true => exact hf rfl
  | false => exact (print_spec hprint _).bind (fun _ => Triple.hang (fun s _ => hfail rfl s))

/-- A value printed with its label. -/
theorem labelled_spec {label ending : String} {value digitsLen : Nat} {p : Prog Out β}
    (hprint : ∀ s (o : Out), A.holds s → A.holds (Output.print s o)) (h : Triple A p C) :
    Triple A (puts label >>= fun _ => puth value digitsLen >>= fun _ => puts ending >>= fun _ => p) C :=
  (print_spec hprint _).bind (fun _ => (print_spec hprint _).bind (fun _ =>
    (print_spec hprint _).bind (fun _ => h)))

end Printing

section Spec

variable {δ : Type} {reads : Nat → Nat → Nat → Prop} {blocked : Prop} {φ : Mem → Prop} {d : δ}

theorem storeDesc_spec {ψ : Mem → Prop} {q i : Nat} {desc : VirtqDesc}
    (h : ∀ m, φ m → ψ (withDesc m q i desc)) :
    Triple (Assertion.memory reads blocked φ d) (storeDesc q i desc)
      (fun _ => Assertion.memory reads blocked ψ d) := by
  apply Triple.memory_of_eq
  intro m hm
  refine Triple.memory_store_eq.bind (fun _ => Triple.memory_store_eq.bind (fun _ =>
    Triple.memory_store_eq.bind (fun _ => Triple.memory_store ?_)))
  rintro _ rfl
  exact h m hm

theorem zeroVirtq_spec {queueSize q : Nat} (hφ : ∀ m x, φ m → φ (store m x 1 0)) :
    Triple (Assertion.memory reads blocked φ d) (zeroVirtq queueSize q)
      (fun _ => Assertion.memory reads blocked
        (fun m => φ m ∧ ZeroRange m q (virtqSize queueSize)) d) := by
  have hloop : Triple (Assertion.memory reads blocked (fun m => φ m ∧ ZeroRange m q 0) d)
      (zeroVirtq queueSize q) _ :=
    Triple.forLoop (fun i _ => Assertion.memory reads blocked (fun m => φ m ∧ ZeroRange m q i) d)
      (fun i _ _ => Triple.memory_store (fun m hm => ⟨hφ m (q + i) hm.1, hm.2.snoc⟩))
  apply hloop.weaken
  · intro w hw
    exact ⟨⟨hw.1, fun i hi => by omega⟩, hw.2⟩
  · intro _ w hw
    exact hw

theorem offerRx_spec {queueSize i : Nat} (hi : i < 16) :
    Triple (Assertion.memory reads blocked (Offered queueSize i) d) (offerRx queueSize i)
      (fun _ => Assertion.memory reads blocked (Offered queueSize (i + 1)) d) := by
  apply Triple.memory_of_eq
  intro m hm
  have hidx := hm.availIdx
  refine Triple.load_bind (v := i) trivial (fun w hw => by rw [hw.1]; exact hidx) ?_
  refine Triple.memory_store_eq.bind (fun _ => ?_)
  refine Triple.load_bind (v := i) trivial ?_ ?_
  · intro w hw
    rw [hw.1, load_store_disjoint (by rw [availIdx_eq, availRing_eq]; omega)]
    exact hidx
  · apply Triple.memory_store
    rintro _ rfl
    exact hm.step hi

theorem offerLoop_spec {queueSize : Nat} :
    Triple (Assertion.memory reads blocked (Offered queueSize 0) d)
      (forLoop nRxBuffers (fun i _ => offerRx queueSize i) ())
      (fun _ => Assertion.memory reads blocked (Offered queueSize nRxBuffers) d) :=
  Triple.forLoop (fun i _ => Assertion.memory reads blocked (Offered queueSize i) d)
    (fun _ hi _ => offerRx_spec hi)

theorem describeLoop_spec {B : Buffers} {queueSize : Nat} :
    Triple (Assertion.memory reads blocked (Described B queueSize 0) d)
      (forLoop nRxBuffers (fun i _ => storeDesc virtqRx i (rxDesc B i)) ())
      (fun _ => Assertion.memory reads blocked (Initialised B queueSize) d) :=
  Triple.forLoop (fun i _ => Assertion.memory reads blocked (Described B queueSize i) d)
    (fun _ hi _ => storeDesc_spec (fun _ hm => hm.step hi))

/-- The queue size is one that the device has reported. -/
def Reported (reads : Nat → Nat → Nat → Prop) (bar0 queueSize : Nat) : Prop :=
  ∃ v, reads 2 (port bar0 offsetQueueSize) v ∧ v % 2 ^ 16 = queueSize

/-- The handshake leaves memory alone, and hangs only if the device does not complete it. -/
theorem negotiate_spec {bar0 : Nat} :
    Triple (Assertion.memory reads (¬ ∃ queueSize, Cooperative reads bar0 queueSize) φ d)
      (negotiate bar0)
      (fun queueSize => (Assertion.memory reads _ φ d).given
        (queueSize < 0x10000 ∧ Reported reads bar0 queueSize)) := by
  refine Triple.ioRead_bind (fun _ _ _ => Triple.memory_ioWrite.bind (fun _ => ?_))
  refine Triple.ioRead_bind (fun _ _ _ => Triple.memory_ioWrite.bind (fun _ => ?_))
  refine Triple.ioRead_bind (fun features _ hfeatures => ?_)
  refine labelled_spec (fun _ _ hw => hw) ?_
  refine ASSERT_spec (fun _ _ hw => hw) ?_ (fun _ => ?_)
  · rintro hmac _ ⟨queueSize, hco⟩
    exact hco.mac features hfeatures (by simpa using hmac)
  refine Triple.memory_ioWrite.bind (fun _ => ?_)
  refine Triple.ioRead_bind (fun _ _ _ => Triple.memory_ioWrite.bind (fun _ => ?_))
  refine Triple.ioRead_bind (fun status _ hstatus => ?_)
  refine labelled_spec (fun _ _ hw => hw) ?_
  refine ASSERT_spec (fun _ _ hw => hw) ?_ (fun _ => ?_)
  · rintro hok _ ⟨queueSize, hco⟩
    exact hco.featuresOk status hstatus (by simpa using hok)
  refine Triple.memory_ioWrite.bind (fun _ => ?_)
  refine Triple.ioRead_bind (fun txSize _ htx => ?_)
  refine labelled_spec (fun _ _ hw => hw) ?_
  refine Triple.memory_ioWrite.bind (fun _ => Triple.memory_ioWrite.bind (fun _ => ?_))
  refine Triple.ioRead_bind (fun rxSize _ hrx => ?_)
  refine ASSERT_spec (fun _ _ hw => hw) ?_ (fun _ => ?_)
  · rintro hne _ ⟨queueSize, hco⟩
    have heq : rxSize % 256 ^ 2 = txSize % 256 ^ 2 :=
      (hco.queueSize rxSize hrx).trans (hco.queueSize txSize htx).symm
    rw [heq, beq_self_eq_true] at hne
    cases hne
  refine Triple.memory_ioWrite.bind (fun _ => ?_)
  exact Triple.ret (fun _ hw => ⟨⟨Nat.mod_lt _ (by decide), txSize, htx, rfl⟩, hw⟩)

/-- Clearing both queues and offering the RX buffers. -/
theorem offerAll_spec {queueSize : Nat} (hq : queueSize < 0x10000) :
    Triple (Assertion.memory reads blocked (fun _ => True) d) (offerAll queueSize)
      (fun _ => Assertion.memory reads blocked (Offered queueSize nRxBuffers) d) := by
  refine (zeroVirtq_spec (fun _ _ h => h)).bind (fun _ => ?_)
  refine (zeroVirtq_spec (fun _ _ h => ⟨trivial, h.2.store_zero⟩)).bind (fun _ => ?_)
  exact Triple.memory_pre (fun m hm => offered_zero hq hm.1.2 hm.2) offerLoop_spec

/-- The descriptors are stored behind the notify. -/
theorem finish_memory {B : Buffers} {bar0 queueSize : Nat} :
    Triple (Assertion.memory reads blocked (Offered queueSize nRxBuffers) d)
      (finish B bar0 queueSize)
      (fun size => (Assertion.memory reads blocked (Initialised B queueSize) d).given
        (size = queueSize)) := by
  refine Triple.memory_ioWrite.bind (fun _ => ?_)
  refine Triple.memory_pre (fun m hm => hm.described (B := B)) ?_
  refine describeLoop_spec.bind (fun _ => ?_)
  refine Triple.ioRead_bind (fun _ _ _ => Triple.memory_ioWrite.bind (fun _ => ?_))
  exact Triple.memory_print.bind (fun _ => Triple.ret (fun _ hw => ⟨rfl, hw⟩))

/-- **`init_virtio_net` prepares both queues.** Whatever the ports answer, memory is initialised for the
    reported queue size when it returns; and it hangs in an ASSERT only if the device does not complete
    the handshake. -/
theorem initVirtioNet_spec (B : Buffers) (bar0 : Nat) :
    Triple (Assertion.memory reads (¬ ∃ queueSize, Cooperative reads bar0 queueSize) (fun _ => True) d)
      (initVirtioNet B bar0)
      (fun queueSize => Assertion.memory reads _
        (fun m => Initialised B queueSize m ∧ Reported reads bar0 queueSize) d) := by
  rw [initVirtioNet_eq]
  apply negotiate_spec.bind
  intro queueSize
  refine Triple.assume _ (fun w hw => hw.1) ?_
  rintro ⟨hsize, hreported⟩
  refine Triple.bind (B := fun _ => Assertion.memory reads _ (Offered queueSize nRxBuffers) d) ?_
    (fun _ => ?_)
  · exact (offerAll_spec hsize).weaken (fun w hw => hw.2) (fun _ _ hw => hw)
  · refine finish_memory.weaken (fun _ hw => hw) ?_
    rintro _ w ⟨rfl, hw⟩
    exact ⟨⟨hw.1, hreported⟩, hw.2⟩

variable {bar0 : Nat} {w w' : World Out δ} {queueSize : Nat}

/-- A run of `init_virtio_net` that has returned. -/
def InitialisedBy (B : Buffers) (bar0 : Nat) (reads : Nat → Nat → Nat → Prop) (w : World Out δ)
    (queueSize : Nat) (w' : World Out δ) : Prop :=
  Returns (Env.alone δ reads) (initVirtioNet B bar0) w queueSize w'

theorem InitialisedBy.memory (h : InitialisedBy B bar0 reads w queueSize w') :
    Initialised B queueSize w'.mem ∧ w'.dev = w.dev :=
  (Triple.of_returns (initVirtioNet_spec B bar0) trivial h).imp And.left id

/-- The handshake with a cooperative device comes to an end. -/
theorem Cooperative.initialises (h : Cooperative reads bar0 queueSize) (B : Buffers)
    (w : World Out δ) : ∃ w', InitialisedBy B bar0 reads w queueSize w' := by
  have hspec : Triple (Assertion.memory reads _ _ w.dev) _ _ := initVirtioNet_spec B bar0
  obtain ⟨_, w', hrun, ⟨-, v, hv, rfl⟩, -⟩ :=
    hspec.returns trivial h.answers (fun hb => hb ⟨queueSize, h⟩)
  rw [h.queueSize v hv] at hrun
  exact ⟨w', hrun⟩

end Spec

/-! ## A cooperative device -/

/-- Ports that report the queue size and answer all ones elsewhere. -/
def onesPorts (bar0 queueSize : Nat) (_n address v : Nat) : Prop :=
  v = if address = port bar0 offsetQueueSize then queueSize else 0xff

theorem cooperative_onesPorts {queueSize : Nat} (bar0 : Nat) (h : queueSize < 0x10000) :
    Cooperative (onesPorts bar0 queueSize) bar0 queueSize := by
  have hfeats : port bar0 offsetDevFeats ≠ port bar0 offsetQueueSize := by
    simp only [port, offsetDevFeats, offsetQueueSize]
    omega
  have hstatus : port bar0 offsetStatus ≠ port bar0 offsetQueueSize := by
    simp only [port, offsetStatus, offsetQueueSize]
    omega
  refine ⟨fun _ _ => ⟨_, rfl⟩, ?_, ?_, ?_⟩
  · rintro v rfl
    rw [if_neg hfeats]
    decide
  · rintro v rfl
    rw [if_neg hstatus]
    decide
  · rintro v rfl
    rw [if_pos rfl]
    omega

/-- Buffers on consecutive pages behind the kernel's first MiB. -/
def sampleBuffers : Buffers :=
  { txBuffer := 0x100100000
    rxBuffer := 0x100101000
    tx_aligned := by decide
    rx_aligned := by decide
    tx_window := by decide
    rx_window := by decide
    disjoint := by decide }

/-- Zeroed memory and nothing printed. -/
def blankWorld {δ : Type} (d : δ) : World Out δ := { mem := fun _ => 0, dev := d, out := [] }

end Virtio
end SysproKernel

import SysproKernel.Virtio.Exposure
import SysproKernel.Virtio.Receive

/-!
# `Virtio.QueueSize` — the queue sizes that are safe

`init_virtio_net` takes any queue size that the device reports for both queues, and posts sixteen receive
buffers whatever it is. The addresses of its stores depend on the index it loads from the available ring,
which the device does not write, so they are the same in every run: `initVirtioNet_stores` runs the
routine against any set of stores that contains these. With fewer than sixteen entries the last ones lie
behind the available ring and the last descriptors inside it (`queue_size_safe_iff`).
-/

namespace SysproKernel
namespace Virtio

open Lib.ByteMem Lib.Loop Lib.Driver Lib.Trace

/-! ## The property -/

/-- The descriptors and the available ring of the receive queue, which the device does not write. -/
def rxOwned (queueSize : Nat) : Set Nat := Set.Ico virtqRx (virtqUsed queueSize virtqRx)

/-- A device that reports `queueSize` for both queues and writes to memory as it likes, except for the
    driver's part of the receive queue. -/
def sizedHost (bar0 queueSize : Nat) (reads : Nat → Nat → Nat → Prop) : Host Unit :=
  { step := fun _ m _ m' _ => Set.EqOn m' m (rxOwned queueSize)
    answers := fun _ _ n address v =>
      reads n address v ∧ (address = port bar0 offsetQueueSize → v % 2 ^ 16 = queueSize) }

/-- A store that clears a byte of a queue, or goes to the index of the available ring, to one of its
    entries or into one of the descriptors. -/
def SizedStore (queueSize : Nat) : Event → Prop
  | .store a n _ =>
      (n = 1 ∧ ∃ q, (q = virtqRx ∨ q = virtqTx) ∧ q ≤ a ∧ a < q + virtqSize queueSize) ∨
      (a = availIdx queueSize virtqRx ∧ n = 2) ∨
      (∃ i < queueSize, a = availRing queueSize virtqRx i ∧ n = 2) ∨
      (∃ i < queueSize, virtqDesc virtqRx i ≤ a ∧ a + n ≤ virtqDesc virtqRx i + sizeofVirtqDesc)
  | _ => True

/-- **A queue size is safe** for `init_virtio_net` and a later `receive_packet`. -/
structure SizeSafe (B : Buffers) (bar0 queueSize : Nat) : Prop where
  init : ∀ reads m (p : Prog Out Nat) (s : State Unit),
    Interleaves (sizedHost bar0 queueSize reads) (initVirtioNet B bar0, ⟨m, (), []⟩) (p, s) →
      ∀ e ∈ s.past, SizedStore queueSize e
  receive : ∀ (δ : Type) (E : Env δ) head w p w',
    Interleaves E (receivePacket queueSize bar0 head, w) (p, w') → p ≠ .fault

variable {B : Buffers} {bar0 queueSize : Nat} {reads : Nat → Nat → Nat → Prop} {ok : Event → Prop}

/-! ## Assertions -/

/-- Only accesses in `ok` are made; the routine stops only if the device does not complete the
    handshake. -/
def storeSpec (reads : Nat → Nat → Nat → Prop) (bar0 : Nat) (ok : Event → Prop) :
    Spec (State Unit) :=
  { always := fun s => ∀ e ∈ s.past, ok e
    blocked := fun _ => ¬ ∃ queueSize, Cooperative reads bar0 queueSize }

/-- A fact about the driver's part of the receive queue. -/
structure RxFact (queueSize : Nat) where
  holds : Mem → Prop
  congr : ∀ m m', Set.EqOn m' m (rxOwned queueSize) → holds m → holds m'

def RxFact.any (queueSize : Nat) : RxFact queueSize := ⟨fun _ => True, fun _ _ _ _ => trivial⟩

/-- The first `n` bytes of the receive queue are zero, as far as they are the driver's. -/
def RxFact.cleared (queueSize n : Nat) : RxFact queueSize :=
  { holds := fun m => ∀ x, virtqRx ≤ x → x < virtqRx + n → x ∈ rxOwned queueSize → m x = 0
    congr := fun _ _ heq h x hlo hhi hx => (heq hx).trans (h x hlo hhi hx) }

/-- The index of the available ring. -/
def RxFact.index (queueSize i : Nat) : RxFact queueSize :=
  { holds := fun m => load m (availIdx queueSize virtqRx) 2 = i
    congr := by
      intro m m' heq h
      have hbounds := virtqUsed_bounds queueSize virtqRx
      refine (load_congr (heq.mono (Set.Ico_subset_Ico ?_ ?_))).trans h
      · rw [availIdx_eq]
        omega
      · rw [availIdx_eq]
        omega }

/-- A fact about memory, the accesses made being in `ok` and among them the stores of the first `k` ring
    entries. -/
def storing (reads : Nat → Nat → Nat → Prop) (bar0 : Nat) (ok : Event → Prop) (k : Nat)
    (φ : RxFact queueSize) :
    Assertion (sizedHost bar0 queueSize reads) (storeSpec reads bar0 ok) :=
  { holds := fun s => (∀ e ∈ s.past, ok e) ∧
      (∀ i < k, Event.store (availRing queueSize virtqRx i) 2 i ∈ s.past) ∧ φ.holds s.mem
    stable := by
      rintro s s' ⟨hok, hpast, hφ⟩ ⟨heq⟩
      exact ⟨hok, hpast, φ.congr _ _ heq hφ⟩
    always := fun _ hs => hs.1 }

/-- The accesses of the routine are in `ok`. -/
structure Permits (queueSize : Nat) (ok : Event → Prop) : Prop where
  load : ∀ a n v, ok (.load a n v)
  port : ∀ e, e.isPort = true → ok e
  clear : ∀ q i, (q = virtqRx ∨ q = virtqTx) → i < virtqSize queueSize → ok (.store (q + i) 1 0)
  entry : ∀ i < nRxBuffers, ok (.store (availRing queueSize virtqRx i) 2 i)
  index : ∀ v, ok (.store (availIdx queueSize virtqRx) 2 v)
  desc : ∀ i < nRxBuffers, ∀ o n v, o + n ≤ 16 → ok (.store (virtqDesc virtqRx i + o) n v)

section Rules

variable {k n a v : Nat} {φ ψ : RxFact queueSize} {β : Type}

theorem ok_snoc {h : List Event} {e : Event} (hh : ∀ e ∈ h, ok e) (he : ok e) :
    ∀ e' ∈ h ++ [e], ok e' := by
  intro e' hmem
  rcases List.mem_append.mp hmem with hmem | hmem
  · exact hh e' hmem
  · rw [List.mem_singleton.mp hmem]
    exact he

/-- An access that does not store. -/
theorem storing_log {s : State Unit} {e : Event} (hs : (storing reads bar0 ok k φ).holds s)
    (he : ok e) : (storing reads bar0 ok k φ).holds (s.log e) :=
  ⟨ok_snoc hs.1 he, fun i hi => List.mem_append_left _ (hs.2.1 i hi), hs.2.2⟩

theorem storing_store (he : ok (.store a n v)) (hφ : ∀ m, φ.holds m → ψ.holds (store m a n v)) :
    Triple (storing reads bar0 ok k φ) (Prog.store a n v : Prog Out Unit)
      (fun _ => storing reads bar0 ok k ψ) :=
  Triple.store trivial (fun s hs => ⟨ok_snoc hs.1 he, fun i hi => List.mem_append_left _ (hs.2.1 i hi),
    hφ s.mem hs.2.2⟩)

theorem storing_ioWrite (hok : Permits queueSize ok) :
    Triple (storing reads bar0 ok k φ) (Prog.ioWrite n a v : Prog Out Unit)
      (fun _ => storing reads bar0 ok k φ) :=
  Triple.ioWrite (fun _ hs => storing_log hs (hok.port _ rfl))

/-- A port read: the rest is checked for every answer. -/
theorem storing_ioRead (hok : Permits queueSize ok) {f : Nat → Prog Out β}
    {C : β → Assertion (sizedHost bar0 queueSize reads) (storeSpec reads bar0 ok)}
    (hf : ∀ v, (sizedHost bar0 queueSize reads).answers [] () n a v →
      Triple (storing reads bar0 ok k φ) (f (v % 256 ^ n)) C) :
    Triple (storing reads bar0 ok k φ) (Prog.ioRead n a >>= f) C :=
  Triple.ioRead_each (fun _ => storing reads bar0 ok k φ)
    (fun _ _ hs _ => storing_log hs (hok.port _ rfl)) (fun _ v _ hv => hf v hv)

theorem storing_pre {p : Prog Out β}
    {C : β → Assertion (sizedHost bar0 queueSize reads) (storeSpec reads bar0 ok)}
    (h : ∀ m, φ.holds m → ψ.holds m) (hp : Triple (storing reads bar0 ok k ψ) p C) :
    Triple (storing reads bar0 ok k φ) p C :=
  hp.weaken (fun s hs => ⟨hs.1, hs.2.1, h s.mem hs.2.2⟩) (fun _ _ hs => hs)

end Rules

/-! ## The routine against a set of stores -/

/-- The handshake stores nothing, and ends with the queue size the device reports. -/
theorem negotiate_stores (hok : Permits queueSize ok) :
    Triple (storing reads bar0 ok 0 (RxFact.any queueSize)) (negotiate bar0)
      (fun size => (storing reads bar0 ok 0 (RxFact.any queueSize)).given (size = queueSize)) := by
  refine storing_ioRead hok (fun _ _ => (storing_ioWrite hok).bind (fun _ => ?_))
  refine storing_ioRead hok (fun _ _ => (storing_ioWrite hok).bind (fun _ => ?_))
  refine storing_ioRead hok (fun features hfeatures => labelled_spec (fun _ _ hs => hs) ?_)
  refine ASSERT_spec (fun _ _ hs => hs) ?_ (fun _ => ?_)
  · rintro hmac _ ⟨size, hco⟩
    exact hco.mac features hfeatures.1 (by simpa using hmac)
  refine (storing_ioWrite hok).bind (fun _ => ?_)
  refine storing_ioRead hok (fun _ _ => (storing_ioWrite hok).bind (fun _ => ?_))
  refine storing_ioRead hok (fun status hstatus => labelled_spec (fun _ _ hs => hs) ?_)
  refine ASSERT_spec (fun _ _ hs => hs) ?_ (fun _ => ?_)
  · rintro hok _ ⟨size, hco⟩
    exact hco.featuresOk status hstatus.1 (by simpa using hok)
  refine (storing_ioWrite hok).bind (fun _ => ?_)
  refine storing_ioRead hok (fun txSize htx => labelled_spec (fun _ _ hs => hs) ?_)
  refine (storing_ioWrite hok).bind (fun _ => (storing_ioWrite hok).bind (fun _ => ?_))
  refine storing_ioRead hok (fun rxSize hrx => ?_)
  have htxSize : txSize % 256 ^ 2 = queueSize := htx.2 rfl
  have hrxSize : rxSize % 256 ^ 2 = queueSize := hrx.2 rfl
  rw [htxSize, hrxSize]
  refine ASSERT_spec (fun _ _ hs => hs) ?_ (fun _ => ?_)
  · intro hne _
    rw [beq_self_eq_true] at hne
    cases hne
  refine (storing_ioWrite hok).bind (fun _ => ?_)
  exact Triple.ret (fun _ hs => ⟨rfl, hs⟩)

/-- Clearing the receive queue. -/
theorem zeroRx_stores (hok : Permits queueSize ok) :
    Triple (storing reads bar0 ok 0 (RxFact.any queueSize)) (zeroVirtq queueSize virtqRx)
      (fun _ => storing reads bar0 ok 0 (RxFact.cleared queueSize (virtqSize queueSize))) := by
  refine storing_pre (ψ := RxFact.cleared queueSize 0) (fun m _ x hlo hhi _ => by omega) ?_
  refine Triple.forLoop (fun i _ => storing reads bar0 ok 0 (RxFact.cleared queueSize i)) ?_
  intro i hi _
  refine storing_store (hok.clear virtqRx i (Or.inl rfl) hi) ?_
  intro m hm x hlo hhi hx
  by_cases hxi : x = virtqRx + i
  · rw [hxi, store_zero_self]
  · rw [store_outside (by omega)]
    exact hm x hlo (by omega) hx

/-- Clearing the transmit queue, which lies behind. -/
theorem zeroTx_stores (hok : Permits queueSize ok) (hq : queueSize < 0x10000) {φ : RxFact queueSize} :
    Triple (storing reads bar0 ok 0 φ) (zeroVirtq queueSize virtqTx)
      (fun _ => storing reads bar0 ok 0 φ) := by
  refine Triple.forLoop (fun _ _ => storing reads bar0 ok 0 φ) ?_
  intro i hi _
  refine storing_store (hok.clear virtqTx i (Or.inr rfl) hi) ?_
  intro m hm
  refine φ.congr _ _ (store_eqOn (fun x hx => ?_)) hm
  have hbounds := virtqUsed_bounds queueSize virtqRx
  have hend := (virtqSize_lt hq).1
  have hhi := hx.2
  omega

/-- **One entry is offered**: the index has not been touched, so the entry is the next one. -/
theorem offerRx_stores (hok : Permits queueSize ok) {i : Nat} (hi : i < nRxBuffers) :
    Triple (storing reads bar0 ok i (RxFact.index queueSize i)) (offerRx queueSize i)
      (fun _ => storing reads bar0 ok (i + 1) (RxFact.index queueSize (i + 1))) := by
  have hload : ∀ k, ∀ s, (storing reads bar0 ok k (RxFact.index queueSize i)).holds s →
      (storing reads bar0 ok k (RxFact.index queueSize i)).holds
        (s.log (.load (availIdx queueSize virtqRx) 2 i)) :=
    fun _ _ hs => storing_log hs (hok.load _ _ _)
  refine Triple.load_known trivial (fun s hs => hs.2.2) (hload i) ?_
  refine Triple.bind (B := fun _ => storing reads bar0 ok (i + 1) (RxFact.index queueSize i)) ?_
    (fun _ => ?_)
  · refine Triple.store trivial ?_
    rintro s ⟨hpast, hentries, hidx⟩
    refine ⟨ok_snoc hpast (hok.entry i hi), ?_, ?_⟩
    · intro j hj
      rcases Nat.lt_succ_iff_lt_or_eq.mp hj with hlt | rfl
      · exact List.mem_append_left _ (hentries j hlt)
      · exact List.mem_append_right _ (List.mem_singleton.mpr rfl)
    · show load (store s.mem _ 2 i) (availIdx queueSize virtqRx) 2 = i
      rw [load_store_disjoint (by rw [availIdx_eq, availRing_eq]; omega)]
      exact hidx
  · refine Triple.load_known trivial (fun s hs => hs.2.2) (hload (i + 1)) ?_
    refine storing_store (hok.index _) ?_
    intro m _
    show load (store m _ 2 (i + 1)) _ 2 = i + 1
    rw [load_store_self]
    simp only [nRxBuffers] at hi
    omega

theorem offerAll_stores (hok : Permits queueSize ok) (hq : queueSize < 0x10000) :
    Triple (storing reads bar0 ok 0 (RxFact.any queueSize)) (offerAll queueSize)
      (fun _ => storing reads bar0 ok nRxBuffers (RxFact.any queueSize)) := by
  refine (zeroRx_stores hok).bind (fun _ => (zeroTx_stores hok hq).bind (fun _ => ?_))
  refine storing_pre (ψ := RxFact.index queueSize 0) ?_ ?_
  · intro m hm
    have hbounds := virtqUsed_bounds queueSize virtqRx
    refine load_zero (fun i hi => hm _ ?_ ?_ ⟨?_, ?_⟩)
    all_goals
      rw [availIdx_eq]
      omega
  · refine Triple.weaken (B := fun _ => storing reads bar0 ok nRxBuffers (RxFact.index queueSize nRxBuffers))
      ?_ (fun _ hs => hs) (fun _ _ hs => ⟨hs.1, hs.2.1, trivial⟩)
    exact Triple.forLoop (fun i _ => storing reads bar0 ok i (RxFact.index queueSize i))
      (fun i hi _ => offerRx_stores hok hi)

/-- From the notify on the descriptors are stored. -/
theorem finish_stores (hok : Permits queueSize ok) {k : Nat} :
    Triple (storing reads bar0 ok k (RxFact.any queueSize)) (finish B bar0 queueSize)
      (fun _ => storing reads bar0 ok k (RxFact.any queueSize)) := by
  have hstore : ∀ i < nRxBuffers, ∀ o n v, o + n ≤ 16 →
      Triple (storing reads bar0 ok k (RxFact.any queueSize))
        (Prog.store (virtqDesc virtqRx i + o) n v : Prog Out Unit)
        (fun _ => storing reads bar0 ok k (RxFact.any queueSize)) :=
    fun i hi o n v hon => storing_store (hok.desc i hi o n v hon) (fun _ _ => trivial)
  refine (storing_ioWrite hok).bind (fun _ => ?_)
  refine Triple.bind (B := fun _ => storing reads bar0 ok k (RxFact.any queueSize)) ?_ (fun _ => ?_)
  · refine Triple.forLoop (fun _ _ => storing reads bar0 ok k (RxFact.any queueSize)) ?_
    intro i hi _
    refine (hstore i hi 0 8 _ (by omega)).bind (fun _ => ?_)
    refine (hstore i hi 8 4 _ (by omega)).bind (fun _ => ?_)
    refine (hstore i hi 12 2 _ (by omega)).bind (fun _ => ?_)
    exact hstore i hi 14 2 _ (by omega)
  · refine storing_ioRead hok (fun _ _ => (storing_ioWrite hok).bind (fun _ => ?_))
    exact print_silent.bind (fun _ => Triple.ret (fun _ hs => hs))

/-- **The whole routine** keeps to any set of stores that contains its own, and stores all sixteen ring
    entries. -/
theorem initVirtioNet_stores (hok : Permits queueSize ok) (hq : queueSize < 0x10000) :
    Triple (storing reads bar0 ok 0 (RxFact.any queueSize)) (initVirtioNet B bar0)
      (fun _ => storing reads bar0 ok nRxBuffers (RxFact.any queueSize)) := by
  rw [initVirtioNet_eq]
  refine Triple.bind_eq (negotiate_stores hok) ?_
  exact (offerAll_stores hok hq).bind (fun _ => finish_stores hok)

theorem storing_start (m : Mem) :
    (storing reads bar0 ok 0 (RxFact.any queueSize)).holds ⟨m, (), []⟩ :=
  ⟨fun _ hmem => absurd hmem List.not_mem_nil, fun _ hi => absurd hi (Nat.not_lt_zero _), trivial⟩

/-! ## Sixteen entries are enough -/

/-- A queue of sixteen entries holds all that is stored into it. -/
theorem permits_sizedStore (hsize : nRxBuffers ≤ queueSize) :
    Permits queueSize (SizedStore queueSize) := by
  refine ⟨fun _ _ _ => trivial, ?_, ?_, ?_, ?_, ?_⟩
  · intro e he
    cases e with
    | load a n v => trivial
    | store a n v => cases he
    | ioRead n a v => trivial
    | ioWrite n a v => trivial
  · intro q i hq hi
    exact Or.inl ⟨rfl, q, hq, Nat.le_add_right q i, Nat.add_lt_add_left hi q⟩
  · intro i hi
    exact Or.inr (Or.inr (Or.inl ⟨i, by omega, rfl, rfl⟩))
  · intro v
    exact Or.inr (Or.inl ⟨rfl, rfl⟩)
  · intro i hi o n v hon
    refine Or.inr (Or.inr (Or.inr ⟨i, by omega, Nat.le_add_right _ o, ?_⟩))
    rw [sizeofVirtqDesc, Nat.add_assoc]
    exact Nat.add_le_add_left hon _

theorem permits_all (queueSize : Nat) : Permits queueSize (fun _ => True) :=
  ⟨fun _ _ _ => trivial, fun _ _ => trivial, fun _ _ _ _ => trivial, fun _ _ => trivial,
    fun _ => trivial, fun _ _ _ _ _ _ => trivial⟩

/-- Entry `QUEUE_SIZE` of the available ring is none of its entries, and nothing else either. -/
theorem not_sizedStore_entry (queueSize v : Nat) :
    ¬ SizedStore queueSize (.store (availRing queueSize virtqRx queueSize) 2 v) := by
  have hring := availRing_eq queueSize virtqRx
  rintro (⟨hn, -⟩ | ⟨ha, -⟩ | ⟨i, hi, ha, -⟩ | ⟨i, hi, -, hend⟩)
  · omega
  · rw [hring, availIdx_eq] at ha
    omega
  · rw [hring, hring] at ha
    omega
  · rw [hring, virtqDesc_eq, sizeofVirtqDesc] at hend
    omega

/-! ## `receive_packet` -/

section Receive

variable {δ : Type} {E : Env δ}

/-- Anything may happen, except for a fault. -/
def anySpec (δ : Type) : Spec (World Out δ) := { always := fun _ => True, blocked := fun _ => True }

def faultless (E : Env δ) : Assertion E (anySpec δ) :=
  { holds := fun _ => True, stable := fun _ _ _ _ => trivial, always := fun _ _ => trivial }

theorem faultless_load {β : Type} {a n : Nat} {f : Nat → Prog Out β}
    (hf : ∀ v, Triple (faultless E) (f v) (fun _ => faultless E)) :
    Triple (faultless E) (Prog.load a n >>= f) (fun _ => faultless E) :=
  (Triple.load (B := fun _ => faultless E) trivial (fun _ _ => trivial)).bind hf

theorem faultless_print (o : Out) :
    Triple (faultless E) (Prog.print o) (fun _ => faultless E) :=
  Triple.print (fun _ _ => trivial)

theorem reportUsed_faultless (hpos : queueSize ≠ 0) (i : Nat) :
    Triple (faultless E) (reportUsed queueSize i) (fun _ => faultless E) := by
  unfold reportUsed
  rw [if_neg hpos]
  refine Triple.bind (B := fun _ => faultless E) ?_ (fun used => ?_)
  · exact faultless_load (fun _ => faultless_load (fun _ => Triple.ret (fun _ h => h)))
  refine Triple.bind (B := fun _ => faultless E) ?_ (fun desc => ?_)
  · exact faultless_load (fun _ => faultless_load (fun _ => faultless_load (fun _ =>
      faultless_load (fun _ => Triple.ret (fun _ h => h)))))
  refine (faultless_print _).bind (fun _ => (faultless_print _).bind (fun _ => ?_))
  refine (faultless_print _).bind (fun _ => (faultless_print _).bind (fun _ => ?_))
  refine Triple.bind (B := fun _ => faultless E) ?_ (fun _ => ?_)
  · exact Triple.forLoop (fun _ _ => faultless E) (fun _ _ _ => faultless_load (fun _ =>
      (faultless_print _).bind (fun _ => faultless_print _)))
  refine Triple.bind (B := fun _ => faultless E) ?_ (fun _ => faultless_print _)
  unfold putMore
  split
  · exact faultless_print _
  · exact Triple.ret (fun _ h => h)

/-- **`receive_packet` divides by zero for a queue of no entries only.** -/
theorem receivePacket_faultless (hpos : queueSize ≠ 0) {head : Nat} {w w' : World Out δ}
    {p : Prog Out Nat} (hrun : Interleaves E (receivePacket queueSize bar0 head, w) (p, w')) :
    p ≠ .fault := by
  have htriple : Triple (faultless E) (receivePacket queueSize bar0 head)
      (fun _ => faultless E) := by
    have hawait : Triple (faultless E) (Prog.await (usedIdx queueSize virtqRx) 2 (· != head))
        (fun _ => faultless E) :=
      .await trivial (fun _ _ _ => trivial) (fun _ _ _ => trivial)
    refine hawait.bind (fun _ => faultless_load (fun idx => ?_))
    refine (Triple.forLoop (fun _ _ => faultless E)
      (fun _ _ _ => reportUsed_faultless hpos _)).bind (fun _ => ?_)
    exact Triple.ret (fun _ h => h)
  exact ((htriple.safe w trivial).interleaves hrun).ne_fault not_false

end Receive

/-! ## Main result -/

/-- The routine stores all sixteen ring entries, whatever the queue size. -/
theorem entries_stored (B : Buffers) (bar0 : Nat) {queueSize : Nat} (hq : queueSize < 0x10000) :
    ∃ (p : Prog Out Nat) (s : State Unit), Interleaves (sizedHost bar0 queueSize (onesPorts bar0 queueSize))
        (initVirtioNet B bar0, ⟨fun _ => 0, (), []⟩) (p, s) ∧
      ∀ i < nRxBuffers, Event.store (availRing queueSize virtqRx i) 2 i ∈ s.past := by
  have hcooperative := cooperative_onesPorts bar0 hq
  have hstop : ¬ ¬ ∃ queueSize', Cooperative (onesPorts bar0 queueSize) bar0 queueSize' :=
    not_not.mpr ⟨queueSize, hcooperative⟩
  have hanswers : ∀ (s : State Unit) n address, ∃ v,
      (sizedHost bar0 queueSize (onesPorts bar0 queueSize)).answers s.past s.dev n address v := by
    intro s n address
    refine ⟨_, rfl, ?_⟩
    intro haddress
    rw [if_pos haddress]
    exact Nat.mod_eq_of_lt hq
  obtain ⟨_, s, hrun, -, hentries, -⟩ :=
    ((initVirtioNet_stores (permits_all queueSize) hq).safe _ (storing_start (fun _ => 0))).returns
      hanswers (Spec.patient_of_unblocked (fun _ => hstop) not_false) hstop
  exact ⟨_, s, .of_run hrun, hentries⟩

/-- **The queue sizes that are safe**: sixteen entries and more. -/
theorem queue_size_safe_iff (B : Buffers) (bar0 : Nat) {queueSize : Nat} (hq : queueSize < 0x10000) :
    SizeSafe B bar0 queueSize ↔ nRxBuffers ≤ queueSize := by
  constructor
  · intro hsafe
    by_contra hsmall
    obtain ⟨_, s, hrun, hentries⟩ := entries_stored B bar0 hq
    exact not_sizedStore_entry queueSize queueSize
      (hsafe.init _ _ _ _ hrun _ (hentries queueSize (by omega)))
  · intro hsize
    refine ⟨?_, ?_⟩
    · intro reads m p s hrun
      exact (((initVirtioNet_stores (permits_sizedStore hsize) hq).safe _
        (storing_start m)).interleaves hrun).always
    · intro δ E head w p w' hrun
      refine receivePacket_faultless ?_ hrun
      simp only [nRxBuffers] at hsize
      omega

/-- A queue of 256 entries. -/
theorem queue_size_safe_256 : SizeSafe sampleBuffers 0xc000 256 :=
  (queue_size_safe_iff sampleBuffers 0xc000 (by decide)).mpr (by decide)

/-- **A queue of eight entries is accepted**, and the ninth buffer is offered behind the ring. -/
theorem queue_size_unsafe_8 : ¬ ∀ queueSize, queueSize < 0x10000 →
    SizeSafe sampleBuffers 0xc000 queueSize := by
  intro hall
  obtain ⟨_, s, hrun, hentries⟩ := entries_stored sampleBuffers 0xc000 (by decide : 8 < 0x10000)
  exact not_sizedStore_entry 8 8
    ((hall 8 (by decide)).init _ _ _ _ hrun _ (hentries 8 (by decide)))

end Virtio
end SysproKernel

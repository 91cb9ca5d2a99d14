import Mathlib.Data.Nat.Bitwise
import SysproKernel.Virtio.Exposure

/-!
# `Virtio.Handshake` — the register trace of `init_virtio_net`

The virtio handshake as a property of the sequence of register accesses: every access is `Allowed` by the
ones before it. The device is arbitrary: any feature word, any answer to each read of the status
register, any size for each queue.

The routine accepts `MAC` and `CSUM` whatever was offered, and notifies the receive queue before it writes
`DRIVER_OK`. `handshake_iff` says which devices do not see either: those at which an ASSERT stops the
routine before the notify, and before that they offer `CSUM` where it is accepted and do not show
`DRIVER_OK` in the status by themselves.
-/

namespace SysproKernel
namespace Virtio

open Lib.ByteMem Lib.Loop Lib.Driver Lib.Trace

/-! ## The protocol -/

/-- A status with FEATURES_OK has been written, and was read back with FEATURES_OK. -/
def FeaturesKept (bar0 : Nat) (t : List Event) : Prop :=
  ∃ t₁ v t₂ s t₃, t = t₁ ++ .ioWrite 1 (port bar0 offsetStatus) v :: t₂ ++
      .ioRead 1 (port bar0 offsetStatus) s :: t₃ ∧
    v &&& statusFeaturesOk ≠ 0 ∧ s &&& statusFeaturesOk ≠ 0

/-- The address of queue `q` has been written while it was selected. -/
def Registered (bar0 q : Nat) (t : List Event) : Prop :=
  ∃ t₁ a t₂, t = t₁ ++ .ioWrite 4 (port bar0 offsetQueueAddr) a :: t₂ ∧
    lastWritten (port bar0 offsetQueueSel) t₁ = some q

/-- What the handshake asks of an access `e` after the accesses `t`. -/
structure Allowed (bar0 : Nat) (t : List Event) (e : Event) : Prop where
  /-- only features that were offered are accepted -/
  features : ∀ v, e = .ioWrite 4 (port bar0 offsetDriverFeats) v →
    ∃ offered, Event.ioRead 4 (port bar0 offsetDevFeats) offered ∈ t ∧ v &&& offered = v
  /-- the status just read is written back with bits added -/
  status : ∀ v, e = .ioWrite 1 (port bar0 offsetStatus) v →
    ∃ t₀ s, t = t₀ ++ [.ioRead 1 (port bar0 offsetStatus) s] ∧ v &&& s = s
  /-- no queue is notified before DRIVER_OK -/
  notify : ∀ q, e = .ioWrite 2 (port bar0 offsetQueueNotify) q →
    ∃ v, Event.ioWrite 1 (port bar0 offsetStatus) v ∈ t ∧ v &&& statusDriverOk ≠ 0
  /-- DRIVER_OK comes after MAC, FEATURES_OK and the addresses of both queues -/
  driverOk : ∀ v, e = .ioWrite 1 (port bar0 offsetStatus) v → v &&& statusDriverOk ≠ 0 →
    (∃ offered, Event.ioRead 4 (port bar0 offsetDevFeats) offered ∈ t ∧
      offered &&& virtioNetFMac ≠ 0) ∧
    FeaturesKept bar0 t ∧ Registered bar0 queueIdTx t ∧ Registered bar0 queueIdRx t

/-- Every access is allowed by the ones before it. -/
def Handshake (bar0 : Nat) (h : List Event) : Prop :=
  ∀ t e t', h = t ++ e :: t' → Allowed bar0 t e

/-! ## The device -/

/-- A device: the features it offers, what each read of the status register shows, and the size of each
    queue. -/
structure Registers where
  features : UInt32
  status : Nat → UInt8
  queueSize : Nat → UInt16

/-- The number of reads of the status register, the only one-byte register read. -/
def statusReads (h : List Event) : Nat :=
  (h.filter (fun e => match e with | .ioRead 1 _ _ => true | _ => false)).length

/-- The device answers from its registers; memory may change at any time. -/
def Registers.host (R : Registers) (bar0 : Nat) : Host Unit :=
  { step := fun _ _ _ _ _ => True
    answers := fun h _ _ address v =>
      (address = port bar0 offsetDevFeats → v = R.features.toNat) ∧
      (address = port bar0 offsetStatus → v = (R.status (statusReads (ports h))).toNat) ∧
      (address = port bar0 offsetQueueSize → ∀ q,
        lastWritten (port bar0 offsetQueueSel) (ports h) = some q → v = (R.queueSize q).toNat) }

/-- MAC is offered. -/
def Registers.Mac (R : Registers) : Prop := R.features.toNat &&& virtioNetFMac ≠ 0

/-- FEATURES_OK is still set on read-back. -/
def Registers.FeaturesOk (R : Registers) : Prop := (R.status 3).toNat &&& statusFeaturesOk ≠ 0

/-- Both queues have the same size. -/
def Registers.SameSize (R : Registers) : Prop := R.queueSize queueIdRx = R.queueSize queueIdTx

/-- The status read at the `k`-th time does not show DRIVER_OK. -/
def Registers.Idle (R : Registers) (k : Nat) : Prop := (R.status k).toNat &&& statusDriverOk = 0

/-- The devices at which the routine keeps to the handshake. -/
def Registers.Spared (R : Registers) : Prop :=
  R.Idle 0 ∧ R.Idle 1 ∧ (R.Mac → R.features.toNat &&& virtioNetFCsum ≠ 0 ∧ R.Idle 2 ∧
    ¬ (R.FeaturesOk ∧ R.SameSize))

/-- The register accesses of the routine up to the notify. -/
def Registers.trace (R : Registers) (bar0 : Nat) : List Event :=
  [ .ioRead 1 (port bar0 offsetStatus) (R.status 0).toNat,
    .ioWrite 1 (port bar0 offsetStatus) ((R.status 0).toNat ||| statusAcknowledge),
    .ioRead 1 (port bar0 offsetStatus) (R.status 1).toNat,
    .ioWrite 1 (port bar0 offsetStatus) ((R.status 1).toNat ||| statusDriver),
    .ioRead 4 (port bar0 offsetDevFeats) R.features.toNat,
    .ioWrite 4 (port bar0 offsetDriverFeats) (virtioNetFMac ||| virtioNetFCsum),
    .ioRead 1 (port bar0 offsetStatus) (R.status 2).toNat,
    .ioWrite 1 (port bar0 offsetStatus) ((R.status 2).toNat ||| statusFeaturesOk),
    .ioRead 1 (port bar0 offsetStatus) (R.status 3).toNat,
    .ioWrite 2 (port bar0 offsetQueueSel) queueIdTx,
    .ioRead 2 (port bar0 offsetQueueSize) (R.queueSize queueIdTx).toNat,
    .ioWrite 4 (port bar0 offsetQueueAddr) (virtqTx >>> 12),
    .ioWrite 2 (port bar0 offsetQueueSel) queueIdRx,
    .ioRead 2 (port bar0 offsetQueueSize) (R.queueSize queueIdRx).toNat,
    .ioWrite 4 (port bar0 offsetQueueAddr) (virtqRx >>> 12) ]

variable {R : Registers} {bar0 : Nat} {t : List Event} {e : Event}

/-! ## The routine makes this trace -/

/-- What is asked of every prefix of the trace that the routine gets to at this device. -/
structure Registers.Prefixes (R : Registers) (bar0 : Nat) (T : List Event → Prop) : Prop where
  start : ∀ k ≤ 5, T ((R.trace bar0).take k)
  mac : R.Mac → ∀ k ≤ 9, T ((R.trace bar0).take k)
  featuresOk : R.Mac → R.FeaturesOk → ∀ k ≤ 14, T ((R.trace bar0).take k)
  sameSize : R.Mac → R.FeaturesOk → R.SameSize → T (R.trace bar0)

section Run

variable {T : List Event → Prop} {blocked : Prop} {l l' : List Event} {n a v : Nat} {β : Type}

/-- The port accesses made so far are always a trace in `T`. -/
def tracedSpec (T : List Event → Prop) (blocked : Prop) : Spec (State Unit) :=
  { always := fun s => T (ports s.past), blocked := fun _ => blocked }

/-- The register accesses so far are `l`. -/
def traced (R : Registers) (bar0 : Nat) (T : List Event → Prop) (blocked : Prop) (l : List Event)
    (hl : T l) : Assertion (R.host bar0) (tracedSpec T blocked) :=
  { holds := fun s => ports s.past = l
    stable := by
      rintro s s' hs ⟨-⟩
      exact hs
    always := by
      rintro s rfl
      exact hl }

theorem traced_ioRead {f : Nat → Prog Out β} {hl : T l} (hl' : T l')
    {C : β → Assertion (R.host bar0) (tracedSpec T blocked)}
    (heq : l ++ [.ioRead n a v] = l')
    (hval : ∀ h d u, ports h = l → (R.host bar0).answers h d n a u → u % 256 ^ n = v)
    (hf : Triple (traced R bar0 T blocked l' hl') (f v) C) :
    Triple (traced R bar0 T blocked l hl) (Prog.ioRead n a >>= f) C := by
  refine Triple.ioRead_known (fun s u hs hu => hval s.past s.dev u hs hu) ?_ hf
  intro s hs
  exact (ports_snoc_port rfl).trans ((congrArg (· ++ [_]) hs).trans heq)

theorem traced_status {f : Nat → Prog Out β} {hl : T l} {k : Nat} (hl' : T l')
    {C : β → Assertion (R.host bar0) (tracedSpec T blocked)}
    (hk : statusReads l = k)
    (heq : l ++ [.ioRead 1 (port bar0 offsetStatus) (R.status k).toNat] = l')
    (hf : Triple (traced R bar0 T blocked l' hl') (f (R.status k).toNat) C) :
    Triple (traced R bar0 T blocked l hl) (ioRead8 (port bar0 offsetStatus) >>= f) C := by
  apply traced_ioRead hl' heq ?_ hf
  rintro h d u rfl ⟨-, hstatus, -⟩
  rw [hstatus rfl, hk]
  exact Nat.mod_eq_of_lt (R.status k).toNat_lt

theorem traced_features {f : Nat → Prog Out β} {hl : T l} (hl' : T l')
    {C : β → Assertion (R.host bar0) (tracedSpec T blocked)}
    (heq : l ++ [.ioRead 4 (port bar0 offsetDevFeats) R.features.toNat] = l')
    (hf : Triple (traced R bar0 T blocked l' hl') (f R.features.toNat) C) :
    Triple (traced R bar0 T blocked l hl) (ioRead32 (port bar0 offsetDevFeats) >>= f) C := by
  apply traced_ioRead hl' heq ?_ hf
  rintro h d u - ⟨hfeatures, -, -⟩
  rw [hfeatures rfl]
  exact Nat.mod_eq_of_lt R.features.toNat_lt

theorem traced_queueSize {f : Nat → Prog Out β} {hl : T l} {q : Nat} (hl' : T l')
    {C : β → Assertion (R.host bar0) (tracedSpec T blocked)}
    (hq : lastWritten (port bar0 offsetQueueSel) l = some q)
    (heq : l ++ [.ioRead 2 (port bar0 offsetQueueSize) (R.queueSize q).toNat] = l')
    (hf : Triple (traced R bar0 T blocked l' hl') (f (R.queueSize q).toNat) C) :
    Triple (traced R bar0 T blocked l hl) (ioRead16 (port bar0 offsetQueueSize) >>= f) C := by
  apply traced_ioRead hl' heq ?_ hf
  rintro h d u rfl ⟨-, -, hsize⟩
  rw [hsize rfl q hq]
  exact Nat.mod_eq_of_lt (R.queueSize q).toNat_lt

theorem traced_ioWrite {hl : T l} (hl' : T l') (heq : l ++ [.ioWrite n a v] = l') :
    Triple (traced R bar0 T blocked l hl) (Prog.ioWrite n a v : Prog Out Unit)
      (fun _ => traced R bar0 T blocked l' hl') := by
  refine Triple.ioWrite ?_
  intro s hs
  exact (ports_snoc_port rfl).trans ((congrArg (· ++ [_]) hs).trans heq)

theorem traced_load {hl : T l} :
    Triple (traced R bar0 T blocked l hl) (Prog.load a n : Prog Out Nat)
      (fun _ => traced R bar0 T blocked l hl) := by
  refine Triple.load trivial ?_
  intro s hs
  exact (ports_snoc_mem rfl).trans hs

theorem traced_store {hl : T l} :
    Triple (traced R bar0 T blocked l hl) (Prog.store a n v : Prog Out Unit)
      (fun _ => traced R bar0 T blocked l hl) := by
  refine Triple.store trivial ?_
  intro s hs
  exact (ports_snoc_mem rfl).trans hs

/-- Loops over memory make no register access. -/
theorem traced_loop {hl : T l} {k : Nat} {body : Nat → Unit → Prog Out Unit}
    (hbody : ∀ i, Triple (traced R bar0 T blocked l hl) (body i ())
      (fun _ => traced R bar0 T blocked l hl)) :
    Triple (traced R bar0 T blocked l hl) (forLoop k body ())
      (fun _ => traced R bar0 T blocked l hl) :=
  Triple.forLoop (fun _ _ => traced R bar0 T blocked l hl) (fun i _ _ => hbody i)

/-- The ASSERTs have passed, and the trace is complete. -/
def reached {T : List Event → Prop} (hT : R.Prefixes bar0 T) (blocked : Prop) (size : Nat) :
    Assertion (R.host bar0) (tracedSpec T blocked) :=
  { holds := fun s => (R.Mac ∧ R.FeaturesOk ∧ R.SameSize) ∧
      size = (R.queueSize queueIdTx).toNat ∧ ports s.past = R.trace bar0
    stable := by
      rintro s s' hs ⟨-⟩
      exact hs
    always := by
      rintro s ⟨⟨hmac, hok, hsize⟩, -, hs⟩
      show T (ports s.past)
      rw [hs]
      exact hT.sameSize hmac hok hsize }

/-- **The trace of the handshake.** The routine makes exactly these accesses, and gets as far as its
    ASSERTs let it. -/
theorem negotiate_traced (hT : R.Prefixes bar0 T) (blocked : Prop)
    (hblocked : ¬ (R.Mac ∧ R.FeaturesOk ∧ R.SameSize) → blocked) :
    Triple (traced R bar0 T blocked [] (hT.start 0 (by omega))) (negotiate bar0)
      (reached hT blocked) := by
  have hsel₁ : lastWritten (port bar0 offsetQueueSel)
      ((R.trace bar0).take 9 ++ [.ioWrite 2 (port bar0 offsetQueueSel) queueIdTx])
        = some queueIdTx := lastWritten_write
  have hsel₂ : lastWritten (port bar0 offsetQueueSel)
      ((R.trace bar0).take 12 ++ [.ioWrite 2 (port bar0 offsetQueueSel) queueIdRx])
        = some queueIdRx := lastWritten_write
  refine traced_status (hT.start 1 (by omega)) rfl rfl ?_
  refine (traced_ioWrite (hT.start 2 (by omega)) rfl).bind (fun _ => ?_)
  refine traced_status (hT.start 3 (by omega)) rfl rfl ?_
  refine (traced_ioWrite (hT.start 4 (by omega)) rfl).bind (fun _ => ?_)
  refine traced_features (hT.start 5 (by omega)) rfl ?_
  refine labelled_spec (fun _ _ hs => hs) ?_
  refine ASSERT_spec (fun _ _ hs => hs) (fun hmac _ => hblocked (fun h => h.1 (by simpa using hmac)))
    (fun hmac => ?_)
  have hmac' : R.Mac := by simpa [Registers.Mac] using hmac
  refine (traced_ioWrite (hT.mac hmac' 6 (by omega)) rfl).bind (fun _ => ?_)
  refine traced_status (hT.mac hmac' 7 (by omega)) rfl rfl ?_
  refine (traced_ioWrite (hT.mac hmac' 8 (by omega)) rfl).bind (fun _ => ?_)
  refine traced_status (k := 3) (hT.mac hmac' 9 (by omega)) rfl rfl ?_
  refine labelled_spec (fun _ _ hs => hs) ?_
  refine ASSERT_spec (fun _ _ hs => hs) (fun hok _ => hblocked (fun h => h.2.1 (by simpa using hok)))
    (fun hok => ?_)
  have hok' : R.FeaturesOk := by simpa [Registers.FeaturesOk] using hok
  refine (traced_ioWrite (hT.featuresOk hmac' hok' 10 (by omega)) rfl).bind (fun _ => ?_)
  refine traced_queueSize (hT.featuresOk hmac' hok' 11 (by omega)) hsel₁ rfl ?_
  refine labelled_spec (fun _ _ hs => hs) ?_
  refine (traced_ioWrite (hT.featuresOk hmac' hok' 12 (by omega)) rfl).bind (fun _ => ?_)
  refine (traced_ioWrite (hT.featuresOk hmac' hok' 13 (by omega)) rfl).bind (fun _ => ?_)
  refine traced_queueSize (hT.featuresOk hmac' hok' 14 (by omega)) hsel₂ rfl ?_
  refine ASSERT_spec (fun _ _ hs => hs) ?_ (fun hsize => ?_)
  · intro hne _
    apply hblocked
    rintro ⟨-, -, hsame⟩
    rw [hsame, beq_self_eq_true] at hne
    cases hne
  have hsize' : R.SameSize := UInt16.toNat_inj.mp (eq_of_beq hsize)
  refine (traced_ioWrite (hT.sameSize hmac' hok' hsize') rfl).bind (fun _ => ?_)
  exact Triple.ret (fun s hs => ⟨⟨hmac', hok', hsize'⟩, rfl, hs⟩)

/-- Offering the buffers makes no register access. -/
theorem offerAll_traced {hl : T l} {queueSize : Nat} :
    Triple (traced R bar0 T blocked l hl) (offerAll queueSize)
      (fun _ => traced R bar0 T blocked l hl) := by
  refine (traced_loop (fun _ => traced_store)).bind (fun _ => ?_)
  refine (traced_loop (fun _ => traced_store)).bind (fun _ => ?_)
  exact traced_loop (fun _ => traced_load.bind (fun _ => traced_store.bind (fun _ =>
    traced_load.bind (fun _ => traced_store))))

/-- **The trace of the first half.** -/
theorem setUp_traced (hT : R.Prefixes bar0 T) (blocked : Prop)
    (hblocked : ¬ (R.Mac ∧ R.FeaturesOk ∧ R.SameSize) → blocked) :
    Triple (traced R bar0 T blocked [] (hT.start 0 (by omega))) (setUp bar0)
      (reached hT blocked) := by
  apply (negotiate_traced hT blocked hblocked).bind
  intro size
  refine Triple.assume ((R.Mac ∧ R.FeaturesOk ∧ R.SameSize) ∧ size = (R.queueSize queueIdTx).toNat)
    (fun s hs => ⟨hs.1, hs.2.1⟩) ?_
  rintro ⟨⟨hmac, hok, hsize⟩, rfl⟩
  refine Triple.bind (B := fun _ => traced R bar0 T blocked _ (hT.sameSize hmac hok hsize)) ?_
    (fun _ => ?_)
  · exact offerAll_traced.weaken (fun _ hs => hs.2.2) (fun _ _ hs => hs)
  · exact Triple.ret (fun _ hs => ⟨⟨hmac, hok, hsize⟩, rfl, hs⟩)

end Run

/-! ## Devices that are spared -/

theorem handshake_nil : Handshake bar0 [] := by
  intro t e t' h
  cases t with
  | nil => cases h
  | cons _ _ => cases h

theorem Handshake.snoc {h : List Event} (hh : Handshake bar0 h) (he : Allowed bar0 h e) :
    Handshake bar0 (h ++ [e]) := by
  intro t e' t' heq
  rcases List.eq_nil_or_concat t' with rfl | ⟨t'', e'', rfl⟩
  · obtain ⟨rfl, hlast⟩ := List.append_inj' heq rfl
    cases hlast
    exact he
  · rw [List.concat_eq_append, ← List.cons_append, ← List.append_assoc] at heq
    exact hh t e' t'' (List.append_inj' heq rfl).1

theorem Handshake.take {h : List Event} (hh : Handshake bar0 h) (k : Nat) :
    Handshake bar0 (h.take k) := by
  intro t e t' heq
  apply hh t e (t' ++ h.drop k)
  rw [← List.cons_append, ← List.append_assoc, ← heq, List.take_append_drop]

/-- Reads, and writes to other registers, are always allowed. -/
theorem allowed_other (hfeatures : ∀ v, e ≠ .ioWrite 4 (port bar0 offsetDriverFeats) v)
    (hstatus : ∀ v, e ≠ .ioWrite 1 (port bar0 offsetStatus) v)
    (hnotify : ∀ q, e ≠ .ioWrite 2 (port bar0 offsetQueueNotify) q) : Allowed bar0 t e :=
  ⟨fun v he => absurd he (hfeatures v), fun v he => absurd he (hstatus v),
    fun q he => absurd he (hnotify q), fun v he => absurd he (hstatus v)⟩

theorem allowed_read {n a v : Nat} : Allowed bar0 t (.ioRead n a v) :=
  allowed_other (fun _ hc => by cases hc) (fun _ hc => by cases hc) (fun _ hc => by cases hc)

/-- A status written back with a bit other than DRIVER_OK. -/
theorem allowed_status {s bit : Nat} (hs : s &&& statusDriverOk = 0)
    (hbit : bit &&& statusDriverOk = 0) :
    Allowed bar0 (t ++ [.ioRead 1 (port bar0 offsetStatus) s])
      (.ioWrite 1 (port bar0 offsetStatus) (s ||| bit)) := by
  refine ⟨fun v hc => by injection hc with hn; omega, ?_, fun q hc => by injection hc with hn; omega, ?_⟩
  · rintro v hv
    injection hv with _ _ hv
    refine ⟨t, s, rfl, ?_⟩
    rw [← hv]
    apply Nat.eq_of_testBit_eq
    intro i
    rw [Nat.testBit_and, Nat.testBit_or]
    cases s.testBit i <;> simp
  · rintro v hv hok
    injection hv with _ _ hv
    rw [← hv, Nat.and_or_distrib_right, hs, hbit] at hok
    exact absurd rfl hok

/-- MAC and CSUM are accepted after both were offered. -/
theorem allowed_features {offered : Nat}
    (hoffered : Event.ioRead 4 (port bar0 offsetDevFeats) offered ∈ t)
    (hmac : offered &&& virtioNetFMac ≠ 0) (hcsum : offered &&& virtioNetFCsum ≠ 0) :
    Allowed bar0 t
      (.ioWrite 4 (port bar0 offsetDriverFeats) (virtioNetFMac ||| virtioNetFCsum)) := by
  have hbit : ∀ i, offered &&& 2 ^ i ≠ 0 → 2 ^ i &&& offered = 2 ^ i := by
    intro i hne
    rw [Nat.and_two_pow] at hne
    rw [Nat.and_comm, Nat.and_two_pow]
    cases hi : offered.testBit i with
    | true => simp
    | false => exact absurd (by rw [hi]; simp) hne
  refine ⟨?_, fun v hc => by injection hc with hn; omega, fun q hc => by injection hc with hn; omega,
    fun v hc => by injection hc with hn; omega⟩
  rintro v hv
  injection hv with _ _ hv
  refine ⟨offered, hoffered, ?_⟩
  rw [← hv, Nat.and_or_distrib_right]
  exact congrArg₂ (· ||| ·) (hbit 5 hmac) (hbit 0 hcsum)

/-- The registers the handshake is about are different ports. -/
theorem register_ne (bar0 : Nat) :
    port bar0 offsetQueueSel ≠ port bar0 offsetQueueNotify ∧
      port bar0 offsetQueueAddr ≠ port bar0 offsetDriverFeats :=
  ⟨port_ne (by decide) (by decide) (by decide), port_ne (by decide) (by decide) (by decide)⟩

/-- **A spared device sees only what the handshake allows.** -/
theorem Registers.Spared.prefixes (h : R.Spared) : R.Prefixes bar0 (Handshake bar0) := by
  obtain ⟨h0, h1, hmac⟩ := h
  obtain ⟨hsel, haddr⟩ := register_ne bar0
  have hselect : ∀ {t q}, Allowed bar0 t (.ioWrite 2 (port bar0 offsetQueueSel) q) := by
    intro t q
    exact allowed_other (fun v hc => by injection hc with hn; omega)
      (fun v hc => by injection hc with hn; omega) (fun v hc => hsel (by injection hc))
  have hregister : ∀ {t a}, Allowed bar0 t (.ioWrite 4 (port bar0 offsetQueueAddr) a) := by
    intro t a
    exact allowed_other (fun v hc => haddr (by injection hc))
      (fun v hc => by injection hc with hn; omega) (fun v hc => by injection hc with hn; omega)
  have hstart : Handshake bar0 ((R.trace bar0).take 5) :=
    ((((handshake_nil.snoc allowed_read).snoc (allowed_status (t := []) h0 rfl)).snoc
      allowed_read).snoc (allowed_status (t := (R.trace bar0).take 2) h1 rfl)).snoc allowed_read
  have hmiddle : R.Mac → Handshake bar0 ((R.trace bar0).take 9) := by
    intro hoffered
    obtain ⟨hcsum, h2, -⟩ := hmac hoffered
    have hread : Event.ioRead 4 (port bar0 offsetDevFeats) R.features.toNat
        ∈ (R.trace bar0).take 5 := by simp [Registers.trace]
    exact (((hstart.snoc (allowed_features hread hoffered hcsum)).snoc allowed_read).snoc
      (allowed_status (t := (R.trace bar0).take 6) h2 rfl)).snoc allowed_read
  have hlate : R.Mac → Handshake bar0 ((R.trace bar0).take 14) := by
    intro hoffered
    exact (((((hmiddle hoffered).snoc hselect).snoc allowed_read).snoc hregister).snoc hselect).snoc
      allowed_read
  have hless : ∀ {j k}, k ≤ j → ((R.trace bar0).take j).take k = (R.trace bar0).take k := by
    intro j k hkj
    rw [List.take_take, Nat.min_eq_left hkj]
  refine ⟨?_, ?_, ?_, ?_⟩
  · intro k hk
    rw [← hless hk]
    exact hstart.take k
  · intro hoffered k hk
    rw [← hless hk]
    exact (hmiddle hoffered).take k
  · intro hoffered _ k hk
    rw [← hless hk]
    exact (hlate hoffered).take k
  · intro hoffered hok hsize
    exact absurd ⟨hok, hsize⟩ (hmac hoffered).2.2

/-! ## Devices that are not -/

section Bad

variable {α : Type} {s : State Unit} {n a v : Nat}

/-- The handshake is kept from here on. -/
def Kept (R : Registers) (bar0 : Nat) (p : Prog Out α) (s : State Unit) : Prop :=
  ∀ p' s', Interleaves (R.host bar0) (p, s) (p', s') → Handshake bar0 (ports s'.past)

theorem Kept.now {p : Prog Out α} (h : Kept R bar0 p s) : Handshake bar0 (ports s.past) :=
  h p s .refl

theorem Kept.step {p p' : Prog Out α} {s' : State Unit} (h : Kept R bar0 p s)
    (hs : Step (R.host bar0) (p, s) (p', s')) : Kept R bar0 p' s' :=
  fun p'' s'' hr => h p'' s'' (hr.head (.prog hs))

theorem Kept.status {f : Nat → Prog Out α} {k : Nat}
    (h : Kept R bar0 (ioRead8 (port bar0 offsetStatus) >>= f) s)
    (hk : statusReads (ports s.past) = k) :
    Kept R bar0 (f (R.status k).toNat)
      (s.log (.ioRead 1 (port bar0 offsetStatus) (R.status k).toNat)) := by
  have hanswer : (R.host bar0).answers s.past s.dev 1 (port bar0 offsetStatus)
      (R.status k).toNat := by
    refine ⟨fun hc => absurd hc (port_ne (by decide) (by decide) (by decide)), fun _ => by rw [hk],
      fun hc => absurd hc (port_ne (by decide) (by decide) (by decide))⟩
  have hstep := h.step (.ioRead hanswer)
  rw [show (R.status k).toNat % 256 ^ 1 = (R.status k).toNat from
    Nat.mod_eq_of_lt (R.status k).toNat_lt] at hstep
  exact hstep

theorem Kept.features {f : Nat → Prog Out α}
    (h : Kept R bar0 (ioRead32 (port bar0 offsetDevFeats) >>= f) s) :
    Kept R bar0 (f R.features.toNat)
      (s.log (.ioRead 4 (port bar0 offsetDevFeats) R.features.toNat)) := by
  have hanswer : (R.host bar0).answers s.past s.dev 4 (port bar0 offsetDevFeats)
      R.features.toNat :=
    ⟨fun _ => rfl, fun hc => absurd hc (port_ne (by decide) (by decide) (by decide)),
      fun hc => absurd hc (port_ne (by decide) (by decide) (by decide))⟩
  have hstep := h.step (.ioRead hanswer)
  rw [show R.features.toNat % 256 ^ 4 = R.features.toNat from
    Nat.mod_eq_of_lt R.features.toNat_lt] at hstep
  exact hstep

theorem Kept.ioWrite {f : Unit → Prog Out α} (h : Kept R bar0 (Prog.ioWrite n a v >>= f) s) :
    Kept R bar0 (f ()) (s.log (.ioWrite n a v)) :=
  h.step .ioWrite

theorem Kept.print {o : Out} {f : Unit → Prog Out α} (h : Kept R bar0 (Prog.print o >>= f) s) :
    Kept R bar0 (f ()) s :=
  h.step .print

theorem Kept.passed {cond : Bool} {text : String} {f : Unit → Prog Out α}
    (h : Kept R bar0 (ASSERT cond text >>= f) s) (hcond : cond = true) : Kept R bar0 (f ()) s := by
  subst hcond
  exact h

/-- What the latest access obeyed. -/
theorem Handshake.last {h : List Event} (hh : Handshake bar0 (h ++ [e])) : Allowed bar0 h e :=
  hh h e [] rfl

/-- A status written back where DRIVER_OK may not be written was read without it. -/
theorem Handshake.idle {h : List Event} {s bit : Nat}
    (hh : Handshake bar0 (h ++ [.ioWrite 1 (port bar0 offsetStatus) (s ||| bit)]))
    (hno : ¬ Registered bar0 queueIdTx h) : s &&& statusDriverOk = 0 := by
  by_contra hs
  have hbit : (s ||| bit) &&& statusDriverOk ≠ 0 := by
    intro hzero
    rw [Nat.and_or_distrib_right, Nat.or_eq_zero_iff] at hzero
    exact hs hzero.1
  exact hno (hh.last.driverOk _ rfl hbit).2.2.1

end Bad

/-- No queue address is written before both queues are selected. -/
theorem not_registered {k : Nat} (hk : k ≤ 11) :
    ¬ Registered bar0 queueIdTx ((R.trace bar0).take k) := by
  rintro ⟨t₁, a, t₂, heq, -⟩
  have hmem : Event.ioWrite 4 (port bar0 offsetQueueAddr) a ∈ (R.trace bar0).take 11 := by
    apply List.take_subset_take_left _ hk
    rw [heq]
    simp
  have haddr := (register_ne bar0).2
  simp [Registers.trace, haddr] at hmem

/-- Accepting CSUM asks for its being offered. -/
theorem Handshake.csum (hh : Handshake bar0 ((R.trace bar0).take 6)) :
    R.features.toNat &&& virtioNetFCsum ≠ 0 := by
  have hlast : Handshake bar0 ((R.trace bar0).take 5 ++
      [.ioWrite 4 (port bar0 offsetDriverFeats) (virtioNetFMac ||| virtioNetFCsum)]) := hh
  obtain ⟨offered, hmem, hsub⟩ := hlast.last.features _ rfl
  have hoffered : offered = R.features.toNat := by
    simpa [Registers.trace] using hmem
  subst hoffered
  intro hzero
  have hbit : (virtioNetFMac ||| virtioNetFCsum) &&& virtioNetFCsum = 0 := by
    rw [← hsub, Nat.and_assoc, hzero, Nat.and_zero]
  exact absurd hbit (by decide)

/-- The whole trace leaves the notify without DRIVER_OK. -/
theorem not_allowed_notify (h0 : R.Idle 0) (h1 : R.Idle 1) (h2 : R.Idle 2) {q : Nat} :
    ¬ Allowed bar0 (R.trace bar0) (.ioWrite 2 (port bar0 offsetQueueNotify) q) := by
  intro h
  obtain ⟨v, hmem, hv⟩ := h.notify q rfl
  apply hv
  have hwritten : v = (R.status 0).toNat ||| statusAcknowledge ∨
      v = (R.status 1).toNat ||| statusDriver ∨
      v = (R.status 2).toNat ||| statusFeaturesOk := by
    simpa [Registers.trace] using hmem
  rcases hwritten with rfl | rfl | rfl
  · rw [Nat.and_or_distrib_right, h0]
    rfl
  · rw [Nat.and_or_distrib_right, h1]
    rfl
  · rw [Nat.and_or_distrib_right, h2]
    rfl

/-- The device answers every read. -/
theorem Registers.answers (R : Registers) (bar0 : Nat) (h : List Event) (d : Unit) (n a : Nat) :
    ∃ v, (R.host bar0).answers h d n a v := by
  by_cases hsize : a = port bar0 offsetQueueSize
  · subst hsize
    refine ⟨match lastWritten (port bar0 offsetQueueSel) (ports h) with
      | some q => (R.queueSize q).toNat
      | none => 0, ?_, ?_, ?_⟩
    · exact fun hc => absurd hc (port_ne (by decide) (by decide) (by decide))
    · exact fun hc => absurd hc (port_ne (by decide) (by decide) (by decide))
    · intro _ q hq
      rw [hq]
  by_cases hstatus : a = port bar0 offsetStatus
  · subst hstatus
    exact ⟨_, fun hc => absurd hc (port_ne (by decide) (by decide) (by decide)), fun _ => rfl,
      fun hc => absurd hc hsize⟩
  · exact ⟨_, fun _ => rfl, fun hc => absurd hc hstatus, fun hc => absurd hc hsize⟩

/-- A device at which the handshake is kept is spared. -/
theorem Kept.spared {B : Buffers} {m : Mem}
    (h : Kept R bar0 (initVirtioNet B bar0) ⟨m, (), []⟩) : R.Spared := by
  have hstart := h
  unfold initVirtioNet setUp negotiate at hstart
  simp only [Prog.bind_assoc] at hstart
  have h₂ := (hstart.status (k := 0) rfl).ioWrite
  have h₄ := (h₂.status (k := 1) rfl).ioWrite
  have hIdle₀ : R.Idle 0 := Handshake.idle h₂.now (not_registered (k := 1) (by decide))
  have hIdle₁ : R.Idle 1 := Handshake.idle h₄.now (not_registered (k := 3) (by decide))
  refine ⟨hIdle₀, hIdle₁, ?_⟩
  intro hmac
  have h₆ := (h₄.features.print.print.print.passed (by simpa [Registers.Mac] using hmac)).ioWrite
  have h₈ := (h₆.status (k := 2) rfl).ioWrite
  have hIdle₂ : R.Idle 2 := Handshake.idle h₈.now (not_registered (k := 7) (by decide))
  refine ⟨Handshake.csum h₆.now, hIdle₂, ?_⟩
  rintro ⟨hok, hsize⟩
  -- nothing stops the routine before the notify
  have hany : R.Prefixes bar0 (fun _ => True) :=
    ⟨fun _ _ => trivial, fun _ _ _ => trivial, fun _ _ _ _ => trivial, fun _ _ _ => trivial⟩
  have hsafe := (setUp_traced hany False
    (fun hstop => hstop ⟨hmac, hok, hsize⟩)).safe ⟨m, (), []⟩ rfl
  obtain ⟨size, u, hrun, -, -, htrace⟩ :=
    hsafe.returns (fun s => R.answers bar0 s.past s.dev)
      (Spec.patient_of_unblocked (fun _ => not_false) not_false) not_false
  have hfinish : Kept R bar0 (finish B bar0 size) u := by
    intro p' s' hr
    apply h
    exact ((Interleaves.of_run hrun).bind (finish B bar0)).trans hr
  have hnotify := hfinish.ioWrite.now
  rw [State.log, ports_snoc_port rfl, htrace] at hnotify
  exact not_allowed_notify hIdle₀ hIdle₁ hIdle₂ hnotify.last

/-- **The virtio handshake.** Over every run of `init_virtio_net`, at any address, from any memory: each
    register access is allowed by the ones before it exactly if the device is `Spared`. -/
theorem handshake_iff (R : Registers) (B : Buffers) (bar0 : Nat) (m : Mem) :
    (∀ (p : Prog Out Nat) (s : State Unit),
      Interleaves (R.host bar0) (initVirtioNet B bar0, ⟨m, (), []⟩) (p, s) →
        Handshake bar0 (ports s.past)) ↔ R.Spared := by
  constructor
  · intro h
    exact Kept.spared h
  · intro h p s hr
    have hprefixes : R.Prefixes bar0 (Handshake bar0) := h.prefixes
    have hsetUp := setUp_traced hprefixes True (fun _ => trivial)
    have hall : Triple (traced R bar0 (Handshake bar0) True [] handshake_nil) (initVirtioNet B bar0)
        (fun _ => traced R bar0 (Handshake bar0) True [] handshake_nil) := by
      apply hsetUp.bind
      intro size
      -- the first half does not return at a spared device
      refine Triple.assume (R.Mac ∧ R.FeaturesOk ∧ R.SameSize) (fun s hs => hs.1) ?_
      rintro ⟨hmac, hstop⟩
      exact absurd hstop (h.2.2 hmac).2.2
    exact ((hall.safe ⟨m, (), []⟩ rfl).interleaves hr).always

/-- A device that does everything asked of it: MAC and CSUM offered, the status as last written, queues
    of 256 entries. -/
def obliging : Registers :=
  { features := 0x21, status := fun k => if k < 3 then 0 else 8, queueSize := fun _ => 256 }

/-- It is notified before DRIVER_OK. -/
theorem notified_before_driver_ok :
    ¬ (∀ (p : Prog Out Nat) (s : State Unit), Interleaves (obliging.host 0xC000)
        (initVirtioNet sampleBuffers 0xC000, ⟨fun _ => 0, (), []⟩) (p, s) →
      Handshake 0xC000 (ports s.past)) := by
  intro h
  have hspared : obliging.Spared := Kept.spared h
  have hmac : obliging.features.toNat &&& virtioNetFMac ≠ 0 := by decide
  have hok : (obliging.status 3).toNat &&& statusFeaturesOk ≠ 0 := by decide
  exact (hspared.2.2 hmac).2.2 ⟨hok, rfl⟩

end Virtio
end SysproKernel

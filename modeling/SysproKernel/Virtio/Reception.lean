import SysproKernel.Virtio.Receive

/-!
# `Virtio.Reception` — every published element is reported once

The system is a sequence of `receive_packet` calls interleaved, at every memory access, with the device.
`report` is what the console should show for one element: the length of the frame and its first 256 bytes
behind the virtio header. The invariant between calls is that the output so far is the reports of the
first `receive_head` published elements; inside a call the output is at every moment a prefix of the
reports of what has been published. `calls` keeps what each finished call has printed, so "reported by
exactly one call" is a statement about that list.
-/

namespace SysproKernel
namespace Virtio

open Lib.ByteMem Lib.Loop Lib.Driver

/-! ## What a report says -/

/-- The bytes shown for an element: the first 256 behind the header. -/
def Received.shown (e : Received) : List UInt8 := (e.content.drop sizeofVirtioNetHdr).take 0x100

/-- One byte of the dump and what separates it from the next. -/
def dumpItem (byte : UInt8 × Nat) : List Out := [.puth byte.1.toNat 2, .puts (separator byte.2)]

/-- The dump from byte `i` on. -/
def Received.dumpFrom (e : Received) (i : Nat) : List Out := (e.shown.zipIdx.drop i).flatMap dumpItem

/-- The console output for one element. -/
def Received.report (e : Received) : List Out :=
  .puts "length of ethernet frame: " :: .puth (e.content.length - sizeofVirtioNetHdr) 4 ::
    .puts "\n" :: .puts "content:\n" :: (e.dumpFrom 0 ++
      ((if e.content.length > 0x100 then [.puts "...(more)\n"] else []) ++ [.puts "\n"]))

/-- The console output for a list of elements. -/
def reports (es : List Received) : List Out := es.flatMap Received.report

theorem reports_append (es fs : List Received) : reports (es ++ fs) = reports es ++ reports fs :=
  List.flatMap_append

theorem reports_mono {es fs : List Received} (h : es <+: fs) : reports es <+: reports fs := by
  obtain ⟨gs, rfl⟩ := h
  rw [reports_append]
  exact List.prefix_append _ _

theorem Received.shown_length (e : Received) : e.shown.length = shownLen e.content.length := by
  rw [Received.shown, List.length_take, List.length_drop, shownLen, Nat.min_comm]

theorem Received.dumpFrom_cons {e : Received} {i : Nat} (hi : i < e.shown.length) :
    e.dumpFrom i = .puth e.shown[i].toNat 2 :: .puts (separator i) :: e.dumpFrom (i + 1) := by
  have hlen : i < e.shown.zipIdx.length := by rwa [List.length_zipIdx]
  rw [Received.dumpFrom, List.drop_eq_getElem_cons hlen, List.flatMap_cons, List.getElem_zipIdx,
    Nat.zero_add]
  rfl

theorem Received.dumpFrom_end {e : Received} : e.dumpFrom e.shown.length = [] := by
  rw [Received.dumpFrom, List.drop_eq_nil_of_le (by rw [List.length_zipIdx])]
  rfl

variable {B : Buffers} {queueSize bar0 k : Nat} {m m' : Mem} {d d' : RxDevice} {e : Received}

/-- A byte of a published element, read from its buffer. -/
theorem Stored.byte (h : Stored B queueSize m k e) {i : Nat} (hi : i < e.shown.length) :
    load m (B.rx e.id + (i + sizeofVirtioNetHdr)) 1 = e.shown[i].toNat := by
  have hlt : i + sizeofVirtioNetHdr < e.content.length ∧ i < 0x100 := by
    rw [Received.shown_length, shownLen] at hi
    omega
  have hmem : e.content[i + sizeofVirtioNetHdr]? = some (m (B.rx e.id + (i + sizeofVirtioNetHdr))) := by
    have hget := congrArg (fun bs : List UInt8 => bs[i + sizeofVirtioNetHdr]?) h.content
    rw [← hget, List.getElem?_eq_getElem (by rw [readBytes_length]; exact hlt.1), readBytes_getElem]
  have hshown : e.shown[i]? = some (m (B.rx e.id + (i + sizeofVirtioNetHdr))) := by
    rw [Received.shown, List.getElem?_take_of_lt hlt.2, List.getElem?_drop, Nat.add_comm, hmem]
  rw [List.getElem?_eq_getElem hi] at hshown
  rw [load_byte, Option.some.inj hshown]

/-! ## Calls and bookkeeping -/

/-- A finished call: `receive_head` before and after, how many elements were published when it began, and
    what it printed. -/
structure Call where
  first : Nat
  last : Nat
  seen : Nat
  printed : List Out

/-- The bookkeeping: `receive_head`, the state at the beginning of the latest call, the finished calls. -/
structure Receiver where
  head : Nat
  seen : Nat
  before : List Out
  calls : List Call

def Receiver.start : Receiver := { head := 0, seen := 0, before := [], calls := [] }

/-- Any sequence of `receive_packet` calls. -/
def receiver (queueSize bar0 : Nat) : Client Out RxDevice Receiver Nat :=
  { call := fun g w g' w' prog =>
      g' = { g with seen := w.dev.published.length, before := w.out } ∧ w' = w ∧
        prog = receivePacket queueSize bar0 g.head
    done := fun g receiveHead w =>
      { g with
        head := receiveHead
        calls := g.calls ++ [⟨g.head, receiveHead, g.seen, w.out.drop g.before.length⟩] } }

/-- The calls cover the elements from `a` to `b`, each starting where the one before it ended. -/
def Consecutive : Nat → List Call → Nat → Prop
  | a, [],      b => a = b
  | a, c :: cs, b => c.first = a ∧ c.first < c.last ∧ Consecutive c.last cs b

theorem Consecutive.concat {a b : Nat} {cs : List Call} {c : Call} (h : Consecutive a cs b)
    (hfirst : c.first = b) (hlast : c.first < c.last) : Consecutive a (cs ++ [c]) c.last := by
  induction cs generalizing a with
  | nil => exact ⟨hfirst.trans h.symm, hlast, rfl⟩
  | cons c' cs ih => exact ⟨h.1, h.2.1, ih h.2.2⟩

theorem Consecutive.le {a b : Nat} {cs : List Call} (h : Consecutive a cs b) : a ≤ b := by
  induction cs generalizing a with
  | nil => exact Nat.le_of_eq h
  | cons c cs ih =>
      have hle := ih h.2.2
      have hfirst := h.1
      have hlast := h.2.1
      omega

/-- No call of the list covers an element before its start. -/
theorem Consecutive.first_le {a b : Nat} {cs : List Call} (h : Consecutive a cs b) {c : Call}
    (hc : c ∈ cs) : a ≤ c.first := by
  induction cs generalizing a with
  | nil => cases hc
  | cons c' cs ih =>
      rcases List.mem_cons.mp hc with rfl | hc
      · exact Nat.le_of_eq h.1.symm
      · have hle := ih h.2.2 hc
        have hfirst := h.1
        have hlast := h.2.1
        omega

/-- Nor one behind its end. -/
theorem Consecutive.last_le {a b : Nat} {cs : List Call} (h : Consecutive a cs b) {c : Call}
    (hc : c ∈ cs) : c.last ≤ b := by
  induction cs generalizing a with
  | nil => cases hc
  | cons c' cs ih =>
      rcases List.mem_cons.mp hc with rfl | hc
      · exact h.2.2.le
      · exact ih h.2.2 hc

/-- **Exactly one call covers each element.** -/
theorem Consecutive.existsUnique {a b k : Nat} {cs : List Call} (h : Consecutive a cs b)
    (ha : a ≤ k) (hb : k < b) : ∃! i : Nat, ∃ c : Call, cs[i]? = some c ∧ c.first ≤ k ∧ k < c.last := by
  induction cs generalizing a with
  | nil =>
      have hab : a = b := h
      omega
  | cons c cs ih =>
      obtain ⟨hfirst, hlast, hrest⟩ := h
      by_cases hk : k < c.last
      · refine ⟨0, ⟨c, rfl, by omega, hk⟩, ?_⟩
        rintro (_ | i) ⟨c', hc', hlo, hhi⟩
        · rfl
        · have hle := hrest.first_le (List.mem_of_getElem? hc')
          omega
      · obtain ⟨i, ⟨c', hc', hlo, hhi⟩, huniq⟩ := ih hrest (by omega)
        refine ⟨i + 1, ⟨c', hc', hlo, hhi⟩, ?_⟩
        rintro (_ | j) ⟨c'', hc'', hlo', hhi'⟩
        · cases hc''
          omega
        · rw [huniq j ⟨c'', hc'', hlo', hhi'⟩]

/-- What a finished call has done: at least one element, everything published when it began, and for
    each its report, in order. -/
structure Complete (published : List Received) (c : Call) : Prop where
  some : c.first < c.last
  prompt : c.seen ≤ c.last
  bound : c.last ≤ published.length
  printed : c.printed = reports ((published.take c.last).drop c.first)

theorem Complete.mono {es fs : List Received} {c : Call} (h : Complete es c) (hp : es <+: fs) :
    Complete fs c := by
  obtain ⟨gs, rfl⟩ := hp
  refine ⟨h.some, h.prompt, ?_, ?_⟩
  · have hbound := h.bound
    rw [List.length_append]
    omega
  · rw [List.take_append_of_le_length h.bound]
    exact h.printed

/-! ## The invariant -/

/-- What holds between calls and during them. -/
structure RxBase (B : Buffers) (queueSize : Nat) (g : Receiver) (w : World Out RxDevice) : Prop where
  inv : RxInv B queueSize w.mem w.dev
  head_le : g.head ≤ w.dev.published.length
  consecutive : Consecutive 0 g.calls g.head
  complete : ∀ c ∈ g.calls, Complete w.dev.published c

/-- What holds during a call, `out₀` being the output before the first one. -/
structure RxDuring (B : Buffers) (queueSize : Nat) (out₀ : List Out) (g : Receiver)
    (w : World Out RxDevice) : Prop extends RxBase B queueSize g w where
  seen_le : g.seen ≤ w.dev.published.length
  before : g.before = out₀ ++ reports (w.dev.published.take g.head)

/-- Between calls: the first `receive_head` elements are reported. -/
structure RxIdle (B : Buffers) (queueSize : Nat) (out₀ : List Out) (g : Receiver)
    (w : World Out RxDevice) : Prop extends RxBase B queueSize g w where
  out : w.out = out₀ ++ reports (w.dev.published.take g.head)

variable {out₀ : List Out} {g : Receiver} {w w' : World Out RxDevice}

/-- Publishing appends. -/
theorem RxStep.published (hs : RxStep queueSize m d m' d') : d.published <+: d'.published := by
  cases hs with
  | consume => exact List.prefix_refl _
  | fill => exact List.prefix_refl _
  | enter => exact List.prefix_refl _
  | publish => exact List.prefix_append _ _

theorem take_published {es fs : List Received} {n : Nat} (h : es <+: fs) (hn : n ≤ es.length) :
    fs.take n = es.take n := by
  obtain ⟨gs, rfl⟩ := h
  exact List.take_append_of_le_length hn

theorem RxBase.move (h : RxBase B queueSize g w) (hm : (rxEnv queueSize).Move w w') :
    RxBase B queueSize g w' := by
  have hpub := hm.1.published
  have hle := hpub.length_le
  have hhead := h.head_le
  exact ⟨h.inv.step hm.1, by omega, h.consecutive, fun c hc => (h.complete c hc).mono hpub⟩

theorem RxDuring.move (h : RxDuring B queueSize out₀ g w) (hm : (rxEnv queueSize).Move w w') :
    RxDuring B queueSize out₀ g w' := by
  have hpub := hm.1.published
  have hle := hpub.length_le
  have hseen := h.seen_le
  refine ⟨h.toRxBase.move hm, by omega, ?_⟩
  rw [take_published hpub h.head_le]
  exact h.before

theorem RxIdle.move (h : RxIdle B queueSize out₀ g w) (hm : (rxEnv queueSize).Move w w') :
    RxIdle B queueSize out₀ g w' := by
  refine ⟨h.toRxBase.move hm, ?_⟩
  rw [hm.2, take_published hm.1.published h.head_le]
  exact h.out

/-- The accesses `receive_packet` may make. -/
inductive RxAccess (B : Buffers) (queueSize : Nat) : Nat → Nat → Prop
  | usedIdx : RxAccess B queueSize (usedIdx queueSize virtqRx) 2
  | used {i o : Nat} (hi : i < queueSize) (ho : o + 4 ≤ 8) :
      RxAccess B queueSize (usedRing queueSize virtqRx i + o) 4
  | desc {j o n : Nat} (hj : j < nRxBuffers) (ho : o + n ≤ 16) :
      RxAccess B queueSize (virtqDesc virtqRx j + o) n
  | buffer {j o : Nat} (hj : j < nRxBuffers) (ho : o < bufferLen) :
      RxAccess B queueSize (B.rx j + o) 1

/-- What every state of a call is held to: what has been printed is at least the reports of the calls
    before and at most the reports of what is published, and it waits only if nothing new is. -/
def rxSpec (B : Buffers) (queueSize : Nat) (out₀ : List Out) (g : Receiver) : Spec (World Out RxDevice) :=
  { always := fun w => RxDuring B queueSize out₀ g w ∧ g.before <+: w.out ∧
      w.out <+: out₀ ++ reports w.dev.published
    access := RxAccess B queueSize
    blocked := fun w => w.dev.published.length = g.head }

theorem rxSpec_patient : (rxSpec B queueSize out₀ g).Patient (rxEnv queueSize) Out where
  act := fun w e hb => by cases e <;> exact hb
  print := fun _ _ hb => hb
  fault := not_false

/-- The first `n` elements are reported, of those below `idx`. -/
structure Progress (B : Buffers) (queueSize : Nat) (out₀ : List Out) (g : Receiver) (idx n : Nat)
    (done : List Out) (w : World Out RxDevice) : Prop extends RxDuring B queueSize out₀ g w where
  head_le_n : g.head ≤ n
  n_le : n ≤ idx
  idx_le : idx ≤ w.dev.published.length
  out : w.out = out₀ ++ reports (w.dev.published.take n) ++ done

theorem Progress.move {idx n : Nat} {done : List Out}
    (h : Progress B queueSize out₀ g idx n done w) (hm : (rxEnv queueSize).Move w w') :
    Progress B queueSize out₀ g idx n done w' := by
  have hpub := hm.1.published
  have hle := hpub.length_le
  have hidx := h.idx_le
  have hn := h.n_le
  refine ⟨h.toRxDuring.move hm, h.head_le_n, h.n_le, by omega, ?_⟩
  rw [hm.2, take_published hpub (by omega)]
  exact h.out

theorem Progress.before_le {idx n : Nat} {done : List Out}
    (h : Progress B queueSize out₀ g idx n done w) : g.before <+: w.out := by
  rw [h.before, h.out, List.append_assoc]
  refine List.prefix_append_right_inj _ |>.mpr ?_
  refine List.IsPrefix.trans (reports_mono ?_) (List.prefix_append _ _)
  exact List.take_prefix_take_left h.head_le_n

/-! ## Assertions -/

/-- Waiting: nothing printed yet. -/
def awaiting (B : Buffers) (queueSize : Nat) (out₀ : List Out) (g : Receiver) :
    Assertion (rxEnv queueSize) (rxSpec B queueSize out₀ g) :=
  { holds := fun w => RxDuring B queueSize out₀ g w ∧ w.out = g.before
    stable := fun _ _ h hm => ⟨h.1.move hm, hm.2.trans h.2⟩
    always := by
      rintro w ⟨h, hout⟩
      refine ⟨h, ⟨[], (List.append_nil _).trans hout.symm⟩, ?_⟩
      rw [hout, h.before]
      exact List.prefix_append_right_inj _ |>.mpr (reports_mono (List.take_prefix _ _)) }

/-- Something new is published. -/
def ready (B : Buffers) (queueSize : Nat) (out₀ : List Out) (g : Receiver) :
    Assertion (rxEnv queueSize) (rxSpec B queueSize out₀ g) :=
  { holds := fun w => (awaiting B queueSize out₀ g).holds w ∧ g.head < w.dev.published.length
    stable := by
      rintro w w' ⟨h, hnew⟩ hm
      have hle := hm.1.published.length_le
      exact ⟨(awaiting B queueSize out₀ g).stable w w' h hm, by omega⟩
    always := fun w h => (awaiting B queueSize out₀ g).always w h.1 }

/-- In the loop up to `idx`: the first `n` elements are reported. -/
def reported (B : Buffers) (queueSize : Nat) (out₀ : List Out) (g : Receiver) (idx n : Nat) :
    Assertion (rxEnv queueSize) (rxSpec B queueSize out₀ g) :=
  { holds := fun w => (g.head < idx ∧ g.seen ≤ idx) ∧ Progress B queueSize out₀ g idx n [] w
    stable := fun _ _ h hm => ⟨h.1, h.2.move hm⟩
    always := by
      rintro w ⟨-, h⟩
      refine ⟨h.toRxDuring, h.before_le, ?_⟩
      rw [h.out, List.append_nil]
      exact List.prefix_append_right_inj _ |>.mpr (reports_mono (List.take_prefix _ _)) }

/-- In the report of element `n`: `rest` is still to be printed. -/
def printing (B : Buffers) (queueSize : Nat) (out₀ : List Out) (g : Receiver) (idx n : Nat)
    (e : Received) (rest : List Out) : Assertion (rxEnv queueSize) (rxSpec B queueSize out₀ g) :=
  { holds := fun w => (g.head < idx ∧ g.seen ≤ idx) ∧ (n < idx ∧ w.dev.published[n]? = some e) ∧
      ∃ done, done ++ rest = e.report ∧ Progress B queueSize out₀ g idx n done w
    stable := by
      rintro w w' ⟨hidx, ⟨hn, he⟩, done, hdone, h⟩ hm
      refine ⟨hidx, ⟨hn, ?_⟩, done, hdone, h.move hm⟩
      obtain ⟨es, hes⟩ := hm.1.published
      rw [← hes, List.getElem?_append_left (List.getElem?_eq_some_iff.mp he).1]
      exact he
    always := by
      rintro w ⟨-, ⟨hn, he⟩, done, hdone, h⟩
      refine ⟨h.toRxDuring, h.before_le, ?_⟩
      rw [h.out, List.append_assoc]
      refine List.prefix_append_right_inj _ |>.mpr ?_
      have hfull : reports (w.dev.published.take (n + 1))
          = reports (w.dev.published.take n) ++ done ++ rest := by
        rw [List.take_add_one, he, reports_append, List.append_assoc, hdone]
        simp [reports]
      refine List.IsPrefix.trans ?_ (reports_mono (List.take_prefix (n + 1) _))
      rw [hfull]
      exact List.prefix_append _ _ }

section Triples

variable {idx n : Nat} {rest : List Out}

/-- Printing the next item. -/
theorem printing_print {o : Out} :
    Triple (printing B queueSize out₀ g idx n e (o :: rest)) (Prog.print o)
      (fun _ => printing B queueSize out₀ g idx n e rest) := by
  refine Triple.print ?_
  rintro w ⟨hidx, he, done, hdone, h⟩
  refine ⟨hidx, he, done ++ [o], by rw [List.append_assoc]; exact hdone, ?_⟩
  refine { h with out := ?_ }
  show w.out ++ [o] = _
  rw [h.out, List.append_assoc]
  rfl

/-- The element being reported is in memory. -/
theorem printing_stored {w : World Out RxDevice}
    (h : (printing B queueSize out₀ g idx n e rest).holds w) :
    RxInv B queueSize w.mem w.dev ∧ n < 16 ∧ Stored B queueSize w.mem n e := by
  obtain ⟨-, ⟨hn, he⟩, done, -, h⟩ := h
  have hle := h.inv.published_le
  have hidx := h.idx_le
  exact ⟨h.inv, by omega, h.inv.stored n e he⟩

theorem readUsed_spec :
    Triple (printing B queueSize out₀ g idx n e rest) (readUsed queueSize virtqRx (n % queueSize))
      (fun used => (printing B queueSize out₀ g idx n e rest).given
        (used = ⟨e.id, e.content.length⟩)) := by
  apply Triple.assume (n < queueSize)
  · intro w hw
    obtain ⟨hinv, hn, -⟩ := printing_stored hw
    have hge := hinv.queueSize_ge
    omega
  intro hn
  rw [Nat.mod_eq_of_lt hn]
  refine Triple.load_bind (v := e.id) (.used hn (o := 0) (by omega)) ?_ ?_
  · intro w hw
    exact congrArg VirtqUsedElem.id (printing_stored hw).2.2.used
  refine Triple.load_bind (v := e.content.length) (.used hn (o := 4) (by omega)) ?_ ?_
  · intro w hw
    exact congrArg VirtqUsedElem.len (printing_stored hw).2.2.used
  exact Triple.ret (fun w hw => ⟨rfl, hw⟩)

theorem readDesc_spec :
    Triple (printing B queueSize out₀ g idx n e rest) (readDesc virtqRx e.id)
      (fun desc => (printing B queueSize out₀ g idx n e rest).given (desc = rxDesc B e.id)) := by
  apply Triple.assume (e.id < 16)
  · intro w hw
    exact (printing_stored hw).2.2.id_lt
  intro hid
  have hdesc : ∀ w, (printing B queueSize out₀ g idx n e rest).holds w →
      loadDesc w.mem virtqRx e.id = rxDesc B e.id :=
    fun w hw => (printing_stored hw).1.desc e.id hid
  refine Triple.load_bind (v := (rxDesc B e.id).addr) (.desc hid (o := 0) (by omega)) ?_ ?_
  · intro w hw
    have haddr := congrArg VirtqDesc.addr (hdesc w hw)
    exact haddr
  refine Triple.load_bind (v := (rxDesc B e.id).len) (.desc hid (o := 8) (by omega)) ?_ ?_
  · exact fun w hw => congrArg VirtqDesc.len (hdesc w hw)
  refine Triple.load_bind (v := (rxDesc B e.id).flags) (.desc hid (o := 12) (by omega)) ?_ ?_
  · exact fun w hw => congrArg VirtqDesc.flags (hdesc w hw)
  refine Triple.load_bind (v := (rxDesc B e.id).next) (.desc hid (o := 14) (by omega)) ?_ ?_
  · exact fun w hw => congrArg VirtqDesc.next (hdesc w hw)
  exact Triple.ret (fun w hw => ⟨rfl, hw⟩)

theorem dumpFrame_spec :
    Triple (printing B queueSize out₀ g idx n e (e.dumpFrom 0 ++ rest))
      (dumpFrame (B.rx e.id) e.content.length)
      (fun _ => printing B queueSize out₀ g idx n e rest) := by
  have hloop : Triple (printing B queueSize out₀ g idx n e (e.dumpFrom 0 ++ rest))
      (dumpFrame (B.rx e.id) e.content.length)
      (fun _ => printing B queueSize out₀ g idx n e
        (e.dumpFrom (shownLen e.content.length) ++ rest)) := by
    refine Triple.forLoop (fun i _ => printing B queueSize out₀ g idx n e (e.dumpFrom i ++ rest)) ?_
    intro i hi _
    have hshown : i < e.shown.length := by
      rw [Received.shown_length]
      exact hi
    apply Triple.assume (e.id < 16)
    · intro w hw
      exact (printing_stored hw).2.2.id_lt
    intro hid
    refine Triple.load_bind (v := e.shown[i].toNat) (.buffer hid ?_) ?_ ?_
    · simp only [shownLen, sizeofVirtioNetHdr, bufferLen] at hi ⊢
      omega
    · intro w hw
      exact (printing_stored hw).2.2.byte hshown
    rw [Received.dumpFrom_cons hshown]
    exact printing_print.bind (fun _ => printing_print)
  rw [← Received.shown_length, Received.dumpFrom_end] at hloop
  exact hloop

theorem putMore_spec {len : Nat} :
    Triple (printing B queueSize out₀ g idx n e
        ((if len > 0x100 then [.puts "...(more)\n"] else []) ++ rest))
      (putMore len) (fun _ => printing B queueSize out₀ g idx n e rest) := by
  rw [putMore]
  by_cases hmore : len > 0x100
  · rw [if_pos hmore, if_pos hmore]
    exact printing_print
  · rw [if_neg hmore, if_neg hmore]
    exact Triple.ret (fun w hw => hw)

/-- **The report of one element.** -/
theorem reportUsed_spec (hn : n < idx) :
    Triple (reported B queueSize out₀ g idx n) (reportUsed queueSize n)
      (fun _ => reported B queueSize out₀ g idx (n + 1)) := by
  -- element `n` is published, and stays so
  apply Triple.elim (fun e => printing B queueSize out₀ g idx n e e.report)
  · rintro w ⟨hidx, h⟩
    have hle := h.idx_le
    exact ⟨w.dev.published[n], hidx, ⟨hn, List.getElem?_eq_getElem (by omega)⟩, [], rfl, h⟩
  intro e
  apply Triple.assume (queueSize ≠ 0 ∧ 10 ≤ e.content.length ∧ e.content.length ≤ 0x1000)
  · intro w hw
    obtain ⟨hinv, -, hstored⟩ := printing_stored hw
    have hge := hinv.queueSize_ge
    exact ⟨by omega, hstored.min_len, hstored.max_len⟩
  rintro ⟨hq, hmin, hmax⟩
  have hlen : (e.content.length + (2 ^ 64 - sizeofVirtioNetHdr)) % 2 ^ 64
      = e.content.length - sizeofVirtioNetHdr := by
    rw [sizeofVirtioNetHdr]
    omega
  rw [reportUsed, if_neg hq]
  refine readUsed_spec.bind_eq (readDesc_spec.bind_eq ?_)
  refine printing_print.bind (fun _ => ?_)
  have hputh : ∀ rest, Triple
      (printing B queueSize out₀ g idx n e
        (.puth (e.content.length - sizeofVirtioNetHdr) 4 :: rest))
      (puth ((e.content.length + (2 ^ 64 - sizeofVirtioNetHdr)) % 2 ^ 64) 4)
      (fun _ => printing B queueSize out₀ g idx n e rest) := by
    intro rest
    rw [hlen]
    exact printing_print
  refine (hputh _).bind (fun _ => ?_)
  refine printing_print.bind (fun _ => printing_print.bind (fun _ => ?_))
  refine dumpFrame_spec.bind (fun _ => ?_)
  refine putMore_spec.bind (fun _ => ?_)
  refine printing_print.weaken (fun _ hw => hw) ?_
  rintro - w ⟨hidx, ⟨hn, he⟩, done, hdone, h⟩
  have hhead := h.head_le_n
  refine ⟨hidx, { h with head_le_n := by omega, n_le := hn, out := ?_ }⟩
  rw [List.append_nil] at hdone
  rw [h.out, hdone, List.append_nil, List.take_add_one, he, reports_append, List.append_assoc]
  simp [reports]

/-- **One call of `receive_packet`.** -/
theorem receivePacket_spec :
    Triple (awaiting B queueSize out₀ g) (receivePacket queueSize bar0 g.head)
      (fun idx => reported B queueSize out₀ g idx idx) := by
  refine Triple.bind (B := fun _ => ready B queueSize out₀ g) ?_ (fun _ => ?_)
  · refine Triple.await .usedIdx ?_ ?_
    · rintro w ⟨h, hout⟩ hready
      change (load w.mem (usedIdx queueSize virtqRx) 2 != g.head) = true at hready
      rw [h.inv.usedIdx, bne_iff_ne] at hready
      have hnew : g.head < w.dev.published.length := by
        have hle := h.head_le
        omega
      exact ⟨⟨h, hout⟩, hnew⟩
    · rintro w ⟨h, hout⟩ hwait
      change (load w.mem (usedIdx queueSize virtqRx) 2 != g.head) = false at hwait
      rw [h.inv.usedIdx, bne_eq_false_iff_eq] at hwait
      exact hwait
  -- the index is read again: it may have grown since
  refine Triple.bind (B := fun idx => reported B queueSize out₀ g idx g.head) ?_ (fun idx => ?_)
  · refine Triple.load .usedIdx ?_
    rintro w ⟨⟨h, hout⟩, hnew⟩
    show (reported B queueSize out₀ g (load w.mem (usedIdx queueSize virtqRx) 2) g.head).holds w
    rw [h.inv.usedIdx]
    refine ⟨⟨hnew, h.seen_le⟩, { h with head_le_n := Nat.le_refl _, n_le := h.head_le
                                        idx_le := Nat.le_refl _, out := ?_ }⟩
    rw [hout, h.before, List.append_nil]
  apply Triple.assume (g.head < idx)
  · intro w hw
    exact hw.1.1
  intro hidx
  have hloop : Triple (reported B queueSize out₀ g idx g.head)
      (forLoop (idx - g.head) (fun j _ => reportUsed queueSize (g.head + j)) ())
      (fun _ => reported B queueSize out₀ g idx (g.head + (idx - g.head))) :=
    Triple.forLoop (fun j _ => reported B queueSize out₀ g idx (g.head + j))
      (fun j hj _ => reportUsed_spec (by omega))
  rw [Nat.add_sub_cancel' (Nat.le_of_lt hidx)] at hloop
  exact hloop.bind (fun _ => Triple.ret (fun w hw => hw))

end Triples

/-! ## Every run -/

theorem receiver_verified (B : Buffers) (queueSize bar0 : Nat) (out₀ : List Out) :
    Client.Verified (receiver queueSize bar0) (rxEnv queueSize) (rxSpec B queueSize out₀)
      (RxIdle B queueSize out₀) := by
  constructor
  · intro g w w' h hm
    exact h.move hm
  · rintro g w g' w' prog h ⟨rfl, hw, rfl⟩
    rw [hw]
    have hstart : (awaiting B queueSize out₀
        { g with seen := w.dev.published.length, before := w.out }).holds w :=
      ⟨{ h.toRxBase with seen_le := Nat.le_refl _, before := h.out }, rfl⟩
    refine (receivePacket_spec.safe w hstart).mono ?_
    rintro idx u ⟨⟨hsome, hprompt⟩, hu⟩
    have hdone : u.out.drop w.out.length
        = reports ((u.dev.published.take idx).drop g.head) := by
      have hsplit := List.take_append_drop g.head (u.dev.published.take idx)
      rw [List.take_take, Nat.min_eq_left (Nat.le_of_lt hsome)] at hsplit
      have hbefore : w.out = out₀ ++ reports (u.dev.published.take g.head) := hu.before
      rw [hu.out, List.append_nil, ← hsplit, reports_append, ← List.append_assoc, ← hbefore, hsplit]
      exact List.drop_left
    refine ⟨⟨hu.inv, hu.idx_le, hu.consecutive.concat rfl hsome, ?_⟩, ?_⟩
    · intro c hc
      rcases List.mem_append.mp hc with hc | hc
      · exact hu.complete c hc
      · cases List.mem_singleton.mp hc
        exact ⟨hsome, hprompt, hu.idx_le, hdone⟩
    · rw [hu.out, List.append_nil]
      rfl

theorem rxIdle_start {reads : Nat → Nat → Nat → Prop} {w₀ w : World Out RxDevice}
    (hinit : InitialisedBy B bar0 reads w₀ queueSize w) (hq : nRxBuffers ≤ queueSize)
    (hstart : w₀.dev = RxDevice.start) : RxIdle B queueSize w.out Receiver.start w := by
  obtain ⟨hmem, hdev⟩ := hinit.memory
  rw [hstart] at hdev
  have hinv : RxInv B queueSize w.mem w.dev := by
    rw [hdev]
    refine ⟨hmem.queueSize_lt, hq, hmem.availIdx hq, hmem.availRing hq, hmem.desc, Nat.zero_le _, ?_,
      hmem.usedIdx, ?_⟩
    · exact List.Perm.refl _
    · intro k e he
      cases he
  refine ⟨⟨hinv, Nat.zero_le _, rfl, ?_⟩, ?_⟩
  · intro c hc
    cases hc
  · exact (List.append_nil _).symm

/-- What is promised of every reachable state of the system that starts in `w₀`. -/
structure ReceivedOnce (B : Buffers) (queueSize : Nat) (w₀ : World Out RxDevice) (g : Receiver)
    (prog : Option (Prog Out Nat)) (w : World Out RxDevice) : Prop where
  /-- `receive_head <= used.idx <= N_RX_BUFFERS`, and `used.idx` counts the published elements -/
  head_le : g.head ≤ load w.mem (usedIdx queueSize virtqRx) 2
  usedIdx : load w.mem (usedIdx queueSize virtqRx) 2 = w.dev.published.length
  usedIdx_le : load w.mem (Virtio.usedIdx queueSize virtqRx) 2 ≤ nRxBuffers
  /-- a published element is what the device wrote: 10 to 4096 bytes, in a buffer of its own -/
  stored : ∀ k e, w.dev.published[k]? = some e → Stored B queueSize w.mem k e
  own_buffer : (w.dev.published.map Received.id).Nodup
  /-- never before it is published: the output is a prefix of the reports of what is published -/
  out_le : w.out <+: w₀.out ++ reports w.dev.published
  le_out : w₀.out ++ reports (w.dev.published.take g.head) <+: w.out
  /-- in publication order: between calls the output is the reports of the first `receive_head` -/
  between : prog = none → w.out = w₀.out ++ reports (w.dev.published.take g.head)
  /-- by exactly one call -/
  complete : ∀ c ∈ g.calls, Complete w.dev.published c ∧ c.last ≤ g.head
  once : ∀ k < g.head, ∃! i : Nat, ∃ c : Call, g.calls[i]? = some c ∧ c.first ≤ k ∧ k < c.last
  /-- a running call returns as soon as something new is published -/
  returns : ∀ p, prog = some p → g.head < w.dev.published.length →
    ∃ receiveHead w', Returns (rxEnv queueSize) p w receiveHead w'
  /-- every access is in range: the driver's, and the buffers the device holds -/
  no_fault : prog ≠ some .fault
  access : ∀ p a n, prog = some p → p.nextAccess = some (a, n) → RxAccess B queueSize a n
  held : ∀ id ∈ w.dev.held, id < nRxBuffers ∧ loadDesc w.mem virtqRx id = rxDesc B id
  consumed_le : w.dev.consumed ≤ nRxBuffers

/-- The part of the promise that does not depend on whether a call is running. -/
theorem RxBase.receivedOnce {w₀ : World Out RxDevice} {prog : Option (Prog Out Nat)}
    (h : RxBase B queueSize g w) (hout : w.out <+: w₀.out ++ reports w.dev.published)
    (hle : w₀.out ++ reports (w.dev.published.take g.head) <+: w.out)
    (hbetween : prog = none → w.out = w₀.out ++ reports (w.dev.published.take g.head))
    (hsafe : ∀ p, prog = some p →
      (g.head < w.dev.published.length →
        ∃ receiveHead w', Returns (rxEnv queueSize) p w receiveHead w') ∧
      p ≠ .fault ∧ ∀ a n, p.nextAccess = some (a, n) → RxAccess B queueSize a n) :
    ReceivedOnce B queueSize w₀ g prog w := by
  have hinv := h.inv
  have hpublished := hinv.published_le
  have hidx := hinv.usedIdx
  refine
    { head_le := by rw [hidx]; exact h.head_le
      usedIdx := hidx
      usedIdx_le := by rw [hidx, nRxBuffers]; omega
      stored := hinv.stored
      own_buffer := (List.nodup_append.mp hinv.nodup).2.1
      out_le := hout
      le_out := hle
      between := hbetween
      complete := fun c hc => ⟨h.complete c hc, h.consecutive.last_le hc⟩
      once := fun k hk => h.consecutive.existsUnique (Nat.zero_le k) hk
      returns := fun p hp => (hsafe p hp).1
      no_fault := fun hp => (hsafe _ hp).2.1 rfl
      access := fun p a n hp => (hsafe p hp).2.2 a n
      held := fun id hid => ⟨hinv.held_lt hid, hinv.desc id (hinv.held_lt hid)⟩
      consumed_le := hinv.consumed_le }

/-! ## Runs in which elements arrive one by one -/

theorem move_of_step (out : List Out) (hs : RxStep queueSize m d m' d') :
    (rxEnv queueSize).Move (⟨m, d, out⟩ : World Out RxDevice) ⟨m', d', out⟩ := ⟨hs, rfl⟩

/-- A device that has published all it has taken takes the next entry, and publishes the given bytes. -/
theorem publish_content {n : Nat} {es : List Received} (hinv : RxInv B queueSize m ⟨n, [], es⟩)
    (hn : n < 16) {content : List UInt8} (hmin : 10 ≤ content.length) (hmax : content.length ≤ 0x1000) :
    ∃ m₁ m₂ m₃, RxStep queueSize m ⟨n, [], es⟩ m ⟨n + 1, [n], es⟩ ∧
      RxStep queueSize m ⟨n + 1, [n], es⟩ m₁ ⟨n + 1, [n], es⟩ ∧
      RxStep queueSize m₁ ⟨n + 1, [n], es⟩ m₂ ⟨n + 1, [n], es⟩ ∧
      RxStep queueSize m₂ ⟨n + 1, [n], es⟩ m₃ ⟨n + 1, [], es ++ [⟨n, content⟩]⟩ := by
  have hge := hinv.queueSize_ge
  have hmod : n % queueSize = n := Nat.mod_eq_of_lt (by omega)
  have hlen : es.length = n := (Nat.zero_add _).symm.trans hinv.consumed_eq
  have hconsume : RxStep queueSize m ⟨n, [], es⟩ m ⟨n + 1, [n], es⟩ := by
    have hs : RxStep queueSize m ⟨n, [], es⟩ m _ := .consume (by rw [hinv.availIdx]; exact hn)
    rwa [hmod, hinv.availRing n hn] at hs
  have h₁ := hinv.step hconsume
  have hrx : (rxDesc B n).addr = B.rx n := rfl
  -- the content, then the used element
  have hfill : RxStep queueSize m ⟨n + 1, [n], es⟩ (writeBytes m (B.rx n) content) ⟨n + 1, [n], es⟩ := by
    refine .fill (List.mem_singleton_self n) (fun x hx => writeBytes_outside ?_)
    rw [h₁.desc n hn] at hx
    have hlen : (rxDesc B n).len = 0x1000 := rfl
    omega
  have h₂ := h₁.step hfill
  have hidx₂ : load (writeBytes m (B.rx n) content) (usedIdx queueSize virtqRx) 2 % queueSize = n := by
    rw [h₂.usedIdx, hlen, hmod]
  obtain ⟨slot, hslot⟩ : ∃ slot, slot = usedRing queueSize virtqRx n := ⟨_, rfl⟩
  obtain ⟨m₂, hm₂⟩ : ∃ m₂, m₂ = store (store (writeBytes m (B.rx n) content) slot 4 n) (slot + 4) 4
    content.length := ⟨_, rfl⟩
  have henter : RxStep queueSize (writeBytes m (B.rx n) content) ⟨n + 1, [n], es⟩ m₂
      ⟨n + 1, [n], es⟩ := by
    refine .enter (List.mem_singleton_self n) ?_
    rw [hidx₂, ← hslot]
    intro x hx
    rw [hm₂, store_outside (by omega), store_outside (by omega)]
  have h₃ := h₂.step henter
  have hidx₃ : load m₂ (usedIdx queueSize virtqRx) 2 % queueSize = n := by
    rw [h₃.usedIdx, hlen, hmod]
  have hused : loadUsed m₂ queueSize virtqRx (load m₂ (usedIdx queueSize virtqRx) 2 % queueSize)
      = ⟨n, content.length⟩ := by
    rw [hidx₃, hm₂, hslot]
    exact loadUsed_stored _ (by omega) (by omega)
  have hpublish := RxStep.publish (d := ⟨n + 1, [n], es⟩) (List.mem_singleton_self n) hused hmin hmax
  have hregions := h₃.regions hn
  have hcontent : readBytes m₂ (loadDesc m₂ virtqRx n).addr content.length = content := by
    have hring := usedRing_eq queueSize virtqRx n
    rw [h₃.desc n hn, hrx]
    refine Eq.trans (readBytes_congr (fun x hx => ?_)) (readBytes_writeBytes_self m (B.rx n) content)
    have hlo := hx.1
    rw [hm₂, store_outside (by omega), store_outside (by omega)]
  dsimp only at hpublish
  rw [hcontent, List.erase_cons_head] at hpublish
  exact ⟨_, m₂, _, hconsume, hfill, henter, hpublish⟩

/-- The bytes arrive, and a `receive_packet` call reports them. -/
theorem receive_next (bar0 : Nat) (content : List UInt8) {n : Nat} {es : List Received}
    (hidle : RxIdle B queueSize out₀ g w) (hdev : w.dev = ⟨n, [], es⟩) (hhead : g.head = n) (hn : n < 16)
    (hmin : 10 ≤ content.length) (hmax : content.length ≤ 0x1000) :
    ∃ g' u, Client.Reaches (receiver queueSize bar0) (rxEnv queueSize) (g, none, w) (g', none, u) ∧
      RxIdle B queueSize out₀ g' u ∧ g'.head = n + 1 ∧ u.dev = ⟨n + 1, [], es ++ [⟨n, content⟩]⟩ := by
  have hverified := receiver_verified B queueSize bar0 out₀
  have hinv := hidle.inv
  rw [hdev] at hinv
  have hlen : es.length = n := (Nat.zero_add _).symm.trans hinv.consumed_eq
  obtain ⟨m₁, m₂, m₃, hconsume, hfill, henter, hpublish⟩ := publish_content hinv hn hmin hmax
  have hw : w = ⟨w.mem, ⟨n, [], es⟩, w.out⟩ := by rw [← hdev]
  have hmoves : Relation.ReflTransGen (rxEnv queueSize).Move w
      ⟨m₃, ⟨n + 1, [], es ++ [⟨n, content⟩]⟩, w.out⟩ := by
    rw [hw]
    exact (((Relation.ReflTransGen.single (move_of_step w.out hconsume)).tail
      (move_of_step w.out hfill)).tail (move_of_step w.out henter)).tail (move_of_step w.out hpublish)
  obtain ⟨v, hv⟩ : ∃ v : World Out RxDevice, v = ⟨m₃, ⟨n + 1, [], es ++ [⟨n, content⟩]⟩, w.out⟩ := ⟨_, rfl⟩
  rw [← hv] at hmoves
  have hwait : Client.Reaches (receiver queueSize bar0) (rxEnv queueSize) (g, none, w) (g, none, v) :=
    Client.reaches_of_moves hmoves
  have hidle' : RxIdle B queueSize out₀ g v := hverified.reachable hidle hwait
  have hcount : v.dev.published.length = n + 1 := by
    rw [hv]
    exact List.length_append.trans (congrArg (· + 1) hlen)
  have hnew : v.dev.published.length ≠ g.head := by omega
  obtain ⟨receiveHead, u, hcall, hdone, hkept⟩ := hverified.completes
    (P := fun d => d = ⟨n + 1, [], es ++ [⟨n, content⟩]⟩) (fun _ _ _ => ⟨0, trivial⟩)
    rxSpec_patient (fun _ _ _ _ hd => hd) hidle' ⟨rfl, rfl, rfl⟩ hnew (by rw [hv])
  refine ⟨_, u, hwait.trans hcall, hdone, ?_, hkept⟩
  -- the call has reported something, and there is one new element only
  have hle := hdone.head_le
  have hsome := (hdone.complete _ (List.mem_append_right _ (List.mem_singleton_self _))).some
  have hsome' : g.head < receiveHead := hsome
  have hpublished : u.dev.published.length = n + 1 := by
    rw [hkept]
    exact List.length_append.trans (congrArg (· + 1) hlen)
  rw [hpublished] at hle
  have hle' : receiveHead ≤ n + 1 := hle
  show receiveHead = n + 1
  omega

/-- A frame of the given bytes behind a virtio header. -/
def headed (frame : List UInt8) : List UInt8 := List.replicate 10 0 ++ frame

/-! ## Main result -/

/-- **Reception is exactly-once and in order.** For every queue size with room for the receive buffers,
    every sequence of `receive_packet` calls and every interleaving with the device. -/
theorem received_exactly_once (B : Buffers) (bar0 : Nat) {reads : Nat → Nat → Nat → Prop}
    {queueSize : Nat} {w₀ w u : World Out RxDevice} {g : Receiver} {prog : Option (Prog Out Nat)}
    (hinit : InitialisedBy B bar0 reads w₀ queueSize w) (hq : nRxBuffers ≤ queueSize)
    (hstart : w₀.dev = RxDevice.start)
    (hrun : Client.Reaches (receiver queueSize bar0) (rxEnv queueSize) (Receiver.start, none, w)
      (g, prog, u)) : ReceivedOnce B queueSize w g prog u := by
  have hreached := (receiver_verified B queueSize bar0 w.out).reachable
    (rxIdle_start hinit hq hstart) hrun
  cases prog with
  | none =>
      have hidle : RxIdle B queueSize w.out g u := hreached
      apply hidle.toRxBase.receivedOnce
      · rw [hidle.out]
        exact List.prefix_append_right_inj _ |>.mpr (reports_mono (List.take_prefix _ _))
      · exact ⟨[], (List.append_nil _).trans hidle.out.symm⟩
      · exact fun _ => hidle.out
      · intro p hp
        cases hp
  | some p =>
      have hsafe : Safe (rxEnv queueSize) (rxSpec B queueSize w.out g) _ p u := hreached
      obtain ⟨hduring, hle, hout⟩ := hsafe.always
      rw [hduring.before] at hle
      refine hduring.toRxBase.receivedOnce hout hle (fun hp => by cases hp) ?_
      intro q hpq
      cases hpq
      refine ⟨fun hnew => ?_, hsafe.ne_fault not_false, fun a n ha => hsafe.access ha⟩
      obtain ⟨receiveHead, v, hrun, -⟩ := hsafe.returns (fun _ _ _ => ⟨0, trivial⟩) rxSpec_patient
        (fun hb => absurd hb (Nat.ne_of_gt hnew))
      exact ⟨receiveHead, v, hrun⟩

/-- Of two elements, on an initialised device with 16-entry queues, each is reported with its bytes. -/
theorem received_exactly_once_sample : ∃ (w u : World Out RxDevice) (g : Receiver),
    InitialisedBy sampleBuffers 0xc000 (onesPorts 0xc000 16) (blankWorld RxDevice.start) 16 w ∧
      g.head = 2 ∧ ReceivedOnce sampleBuffers 16 w g none u ∧
      u.out = w.out ++ reports [⟨0, headed [0x41]⟩, ⟨1, headed [0x42, 0x43]⟩] := by
  obtain ⟨w, hinit⟩ := (cooperative_onesPorts 0xc000 (by decide : 16 < 0x10000)).initialises
    sampleBuffers (blankWorld RxDevice.start)
  obtain ⟨g₁, u₁, hrun₁, hidle₁, hhead₁, hdev₁⟩ := receive_next 0xc000 (headed [0x41])
    (rxIdle_start hinit (by decide) rfl) hinit.memory.2 rfl (by decide) (by decide) (by decide)
  obtain ⟨g₂, u₂, hrun₂, -, hhead₂, hdev₂⟩ := receive_next 0xc000 (headed [0x42, 0x43]) hidle₁ hdev₁
    hhead₁ (by decide) (by decide) (by decide)
  have honce := received_exactly_once sampleBuffers 0xc000 hinit (by decide) rfl (hrun₁.trans hrun₂)
  refine ⟨w, u₂, g₂, hinit, hhead₂, honce, ?_⟩
  rw [honce.between rfl, hhead₂, hdev₂]
  rfl

end Virtio
end SysproKernel

import SysproKernel.Virtio.Init

/-!
# `Virtio.Receive` — `receive_packet` and the device that fills the receive queue

The routine, translated from virtio.c, and the device's side of the queue. The device takes available
entries in order, writes into the buffers it holds, and publishes one used element at a time; what it
wrote into the buffer until then is the content of the element. The driver never offers a buffer again,
so at most sixteen elements are ever published and no published buffer changes any more. `RxInv` states
this ownership; `RxInv.step` shows that the device keeps it.
-/

namespace SysproKernel
namespace Virtio

open Lib.ByteMem Lib.Loop Lib.Driver

/-! ## The routine -/

/-- `virtq_used_elem used = VIRTQ_USED(q).ring[i];`, field by field. -/
def readUsed (queueSize q i : Nat) : Prog Out VirtqUsedElem := do
  let id ← Prog.load (usedRing queueSize q i) 4
  let len ← Prog.load (usedRing queueSize q i + 4) 4
  return { id, len }

/-- `virtq_desc desc = VIRTQ_DESC(q)[i];`, field by field. -/
def readDesc (q i : Nat) : Prog Out VirtqDesc := do
  let addr ← Prog.load (virtqDesc q i) 8
  let len ← Prog.load (virtqDesc q i + 8) 4
  let flags ← Prog.load (virtqDesc q i + 12) 2
  let next ← Prog.load (virtqDesc q i + 14) 2
  return { addr, len, flags, next }

/-- The number of frame bytes that are shown. -/
def shownLen (len : Nat) : Nat := min (len - sizeofVirtioNetHdr) 0x100

/-- What separates byte `i` of the dump from the next. -/
def separator (i : Nat) : String := if i % 0x10 = 0xF then "\n" else " "

/-- `for (u32 i = 0; i + sizeof(virtio_net_hdr) < used.len && i < 0x100; i++) …` -/
def dumpFrame (addr len : Nat) : Prog Out Unit :=
  forLoop (shownLen len) (fun i _ => do
    let byte ← Prog.load (addr + (i + sizeofVirtioNetHdr)) 1
    puth byte 2
    puts (separator i)) ()

/-- `if (used.len > 0x100) puts("...(more)\n");` -/
def putMore (len : Nat) : Prog Out Unit := if len > 0x100 then puts "...(more)\n" else pure ()

/-- The body of the loop over the used ring. A queue of size 0 makes `i % QUEUE_SIZE` fault. -/
def reportUsed (queueSize i : Nat) : Prog Out Unit :=
  if queueSize = 0 then Prog.fault else do
    let used ← readUsed queueSize virtqRx (i % queueSize)
    let desc ← readDesc virtqRx used.id
    puts "length of ethernet frame: "
    puth ((used.len + (2 ^ 64 - sizeofVirtioNetHdr)) % 2 ^ 64) 4
    puts "\n"
    puts "content:\n"
    dumpFrame desc.addr used.len
    putMore used.len
    puts "\n"

/-- `receive_packet`, from one value of `receive_head` to the next. -/
def receivePacket (queueSize _bar0 receiveHead : Nat) : Prog Out Nat := do
  Prog.await (usedIdx queueSize virtqRx) 2 (fun idx => idx != receiveHead)
  let idx ← Prog.load (usedIdx queueSize virtqRx) 2
  forLoop (idx - receiveHead) (fun j _ => reportUsed queueSize (receiveHead + j)) ()
  return idx

/-! ## The device -/

/-- A published element: the buffer's descriptor index and the bytes the device wrote into it. The `len`
    of the used element is the length of the content. -/
structure Received where
  id : Nat
  content : List UInt8

/-- The device's side of the receive queue: how many available entries it has consumed, the descriptors
    it holds, and what it has published. -/
structure RxDevice where
  consumed : Nat
  held : List Nat
  published : List Received

def RxDevice.start : RxDevice := { consumed := 0, held := [], published := [] }

/-- The device's moves. -/
inductive RxStep (queueSize : Nat) : Mem → RxDevice → Mem → RxDevice → Prop
  /-- take the next available entry -/
  | consume {m : Mem} {d : RxDevice} (hposted : d.consumed < load m (availIdx queueSize virtqRx) 2) :
      RxStep queueSize m d m
        { d with
          consumed := d.consumed + 1
          held := d.held ++ [load m (availRing queueSize virtqRx (d.consumed % queueSize)) 2] }
  /-- write into a buffer it holds -/
  | fill {m m' : Mem} {d : RxDevice} {id : Nat} (hid : id ∈ d.held)
      (hframe : ∀ x, x < (loadDesc m virtqRx id).addr ∨
        (loadDesc m virtqRx id).addr + (loadDesc m virtqRx id).len ≤ x → m' x = m x) :
      RxStep queueSize m d m' d
  /-- write the next used element -/
  | enter {m m' : Mem} {d : RxDevice} {id : Nat} (hid : id ∈ d.held)
      (hframe : ∀ x, x < usedRing queueSize virtqRx (load m (usedIdx queueSize virtqRx) 2 % queueSize) ∨
        usedRing queueSize virtqRx (load m (usedIdx queueSize virtqRx) 2 % queueSize) + 8 ≤ x →
          m' x = m x) :
      RxStep queueSize m d m' d
  /-- advance `used.idx` past an element that names a buffer it holds and a length that fits -/
  | publish {m : Mem} {d : RxDevice} {used : VirtqUsedElem} (hid : used.id ∈ d.held)
      (hused : loadUsed m queueSize virtqRx (load m (usedIdx queueSize virtqRx) 2 % queueSize) = used)
      (hmin : sizeofVirtioNetHdr ≤ used.len) (hmax : used.len ≤ bufferLen) :
      RxStep queueSize m d
        (store m (usedIdx queueSize virtqRx) 2 (load m (usedIdx queueSize virtqRx) 2 + 1))
        { d with
          held := d.held.erase used.id
          published := d.published ++
            [⟨used.id, readBytes m (loadDesc m virtqRx used.id).addr used.len⟩] }

def rxEnv (queueSize : Nat) : Env RxDevice :=
  { step := RxStep queueSize, reads := fun _ _ _ _ => True, write := fun d _ _ _ => d }

/-! ## Ownership -/

/-- A published element is still in memory: its used element, and its buffer as published. -/
structure Stored (B : Buffers) (queueSize : Nat) (m : Mem) (k : Nat) (e : Received) : Prop where
  id_lt : e.id < 16
  used : loadUsed m queueSize virtqRx k = ⟨e.id, e.content.length⟩
  min_len : 10 ≤ e.content.length
  max_len : e.content.length ≤ 0x1000
  content : readBytes m (B.rx e.id) e.content.length = e.content

structure RxInv (B : Buffers) (queueSize : Nat) (m : Mem) (d : RxDevice) : Prop where
  queueSize_lt : queueSize < 0x10000
  queueSize_ge : 16 ≤ queueSize
  availIdx : load m (availIdx queueSize virtqRx) 2 = 16
  availRing : ∀ j < 16, load m (availRing queueSize virtqRx j) 2 = j
  desc : ∀ j < 16, loadDesc m virtqRx j = rxDesc B j
  consumed_le : d.consumed ≤ 16
  /-- every consumed buffer is either held or published, and only once -/
  owned : (d.held ++ d.published.map Received.id).Perm (List.range d.consumed)
  usedIdx : load m (usedIdx queueSize virtqRx) 2 = d.published.length
  stored : ∀ k e, d.published[k]? = some e → Stored B queueSize m k e

variable {B : Buffers} {queueSize k : Nat} {m m' : Mem} {d d' : RxDevice} {e : Received}

theorem RxInv.consumed_eq (h : RxInv B queueSize m d) :
    d.held.length + d.published.length = d.consumed := by
  have hlen := h.owned.length_eq
  rwa [List.length_append, List.length_map, List.length_range] at hlen

theorem RxInv.published_le (h : RxInv B queueSize m d) : d.held.length + d.published.length ≤ 16 :=
  Nat.le_trans (Nat.le_of_eq h.consumed_eq) h.consumed_le

theorem RxInv.held_lt (h : RxInv B queueSize m d) {id : Nat} (hid : id ∈ d.held) : id < 16 := by
  have hmem := h.owned.subset (List.mem_append_left _ hid)
  have hle := h.consumed_le
  rw [List.mem_range] at hmem
  omega

theorem RxInv.nodup (h : RxInv B queueSize m d) :
    (d.held ++ d.published.map Received.id).Nodup :=
  h.owned.nodup_iff.mpr List.nodup_range

/-- A buffer that is held is not one of the published ones. -/
theorem RxInv.held_ne (h : RxInv B queueSize m d) {id : Nat} (hid : id ∈ d.held)
    (he : d.published[k]? = some e) : e.id ≠ id := by
  rintro rfl
  have hmem : e.id ∈ d.published.map Received.id := List.mem_map_of_mem (List.mem_of_getElem? he)
  exact (List.nodup_append.mp h.nodup).2.2 _ hid _ hmem rfl

/-- While something is held there is room for another element. -/
theorem RxInv.published_lt (h : RxInv B queueSize m d) {id : Nat} (hid : id ∈ d.held) :
    d.published.length < 16 := by
  have hle := h.published_le
  have hpos := List.length_pos_of_mem hid
  omega

theorem Stored.congr (h : Stored B queueSize m k e)
    (hused : Set.EqOn m' m
      (Set.Ico (usedRing queueSize virtqRx k) (usedRing queueSize virtqRx k + 8)))
    (hbuffer : Set.EqOn m' m (Set.Ico (B.rx e.id) (B.rx e.id + 0x1000))) :
    Stored B queueSize m' k e := by
  have hmax := h.max_len
  refine ⟨h.id_lt, (loadUsed_congr hused).trans h.used, h.min_len, hmax, ?_⟩
  rw [readBytes_congr (hbuffer.mono (Set.Ico_subset_Ico (Nat.le_refl _) (by omega)))]
  exact h.content

/-- The memory the driver's side depends on: descriptors and available ring. -/
theorem RxInv.congr_setup (h : RxInv B queueSize m d) (m' : Mem)
    (heq : ∀ x, virtqRx ≤ x → x < virtqUsed queueSize virtqRx → m' x = m x) :
    load m' (Virtio.availIdx queueSize virtqRx) 2 = 16 ∧
      (∀ j < 16, load m' (Virtio.availRing queueSize virtqRx j) 2 = j) ∧
      (∀ j < 16, loadDesc m' virtqRx j = rxDesc B j) := by
  have hlo := (virtqUsed_bounds queueSize virtqRx).1
  have hge := h.queueSize_ge
  have hload : ∀ a n, virtqRx ≤ a → a + n ≤ virtqUsed queueSize virtqRx →
      load m' a n = load m a n := by
    intro a n ha han
    exact load_congr (fun x hx => heq x (by have := hx.1; omega) (by have := hx.2; omega))
  refine ⟨?_, ?_, ?_⟩
  · rw [hload _ _ (by rw [availIdx_eq]; omega) (by rw [availIdx_eq]; omega)]
    exact h.availIdx
  · intro j hj
    rw [hload _ _ (by rw [availRing_eq]; omega) (by rw [availRing_eq]; omega)]
    exact h.availRing j hj
  · intro j hj
    refine (loadDesc_congr (fun x hx => ?_)).trans (h.desc j hj)
    have hx₁ := hx.1
    have hx₂ := hx.2
    rw [virtqDesc_eq] at hx₁ hx₂
    exact heq x (by omega) (by omega)

/-- The used ring lies above the setup and below the buffers. -/
theorem RxInv.regions (h : RxInv B queueSize m d) {j : Nat} (hj : j < 16) :
    virtqUsed queueSize virtqRx + 6 + 8 * queueSize < B.rx j := by
  have hhi := (virtqUsed_bounds queueSize virtqRx).2.2
  have hend := virtqSize_lt h.queueSize_lt
  have hrx := B.rx_range hj
  omega

theorem RxInv.consume (h : RxInv B queueSize m d)
    (hposted : d.consumed < load m (Virtio.availIdx queueSize virtqRx) 2) :
    RxInv B queueSize m
      { d with
        consumed := d.consumed + 1
        held := d.held ++ [load m (Virtio.availRing queueSize virtqRx (d.consumed % queueSize)) 2] } := by
  rw [h.availIdx] at hposted
  have hge := h.queueSize_ge
  rw [Nat.mod_eq_of_lt (by omega), h.availRing _ hposted]
  refine { h with consumed_le := hposted, owned := ?_ }
  show ((d.held ++ [d.consumed]) ++ d.published.map Received.id).Perm (List.range (d.consumed + 1))
  rw [List.range_succ, List.append_assoc]
  have hswap : ([d.consumed] ++ d.published.map Received.id).Perm
      (d.published.map Received.id ++ [d.consumed]) := List.perm_append_comm
  have htail := h.owned.append_right [d.consumed]
  rw [List.append_assoc] at htail
  exact (hswap.append_left d.held).trans htail

theorem RxInv.fill (h : RxInv B queueSize m d) {id : Nat} (hid : id ∈ d.held)
    (hframe : ∀ x, x < B.rx id ∨ B.rx id + 0x1000 ≤ x → m' x = m x) : RxInv B queueSize m' d := by
  have hregions := h.regions (h.held_lt hid)
  have hge := h.queueSize_ge
  obtain ⟨hidx, hring, hdesc⟩ := h.congr_setup m'
    (fun x _ hx => hframe x (by omega))
  refine { h with availIdx := hidx, availRing := hring, desc := hdesc, usedIdx := ?_, stored := ?_ }
  · rw [load_congr (fun x hx => hframe x (by have := hx.2; rw [usedIdx_eq] at this; omega))]
    exact h.usedIdx
  · intro k e he
    have hk : k < d.published.length := (List.getElem?_eq_some_iff.mp he).1
    have hlt := h.published_lt hid
    refine (h.stored k e he).congr (fun x hx => hframe x ?_) (fun x hx => hframe x ?_)
    · have hx' := hx.2
      rw [usedRing_eq] at hx'
      omega
    · -- a held buffer is not a published one
      have hdis := B.rx_disjoint (h.held_ne hid he)
      have hx₁ := hx.1
      have hx₂ := hx.2
      omega

theorem RxInv.enter (h : RxInv B queueSize m d) {id : Nat} (hid : id ∈ d.held)
    (hframe : ∀ x, x < usedRing queueSize virtqRx d.published.length ∨
      usedRing queueSize virtqRx d.published.length + 8 ≤ x → m' x = m x) :
    RxInv B queueSize m' d := by
  have hlt := h.published_lt hid
  have hge := h.queueSize_ge
  have hring := usedRing_eq queueSize virtqRx
  rw [hring] at hframe
  obtain ⟨hidx, havail, hdesc⟩ := h.congr_setup m' (fun x _ hx => hframe x (by omega))
  refine { h with availIdx := hidx, availRing := havail, desc := hdesc, usedIdx := ?_, stored := ?_ }
  · rw [load_congr (fun x hx => hframe x (by have := hx.2; rw [usedIdx_eq] at this; omega))]
    exact h.usedIdx
  · intro k e he
    have hk : k < d.published.length := (List.getElem?_eq_some_iff.mp he).1
    have hregions := h.regions (h.stored k e he).id_lt
    refine (h.stored k e he).congr (fun x hx => hframe x ?_) (fun x hx => hframe x ?_)
    · have hx' := hx.2
      rw [hring] at hx'
      omega
    · have hx' := hx.1
      omega

theorem RxInv.publish (h : RxInv B queueSize m d) {used : VirtqUsedElem} (hid : used.id ∈ d.held)
    (hused : loadUsed m queueSize virtqRx d.published.length = used)
    (hmin : 10 ≤ used.len) (hmax : used.len ≤ 0x1000) :
    RxInv B queueSize (store m (Virtio.usedIdx queueSize virtqRx) 2 (d.published.length + 1))
      { d with
        held := d.held.erase used.id
        published := d.published ++ [⟨used.id, readBytes m (B.rx used.id) used.len⟩] } := by
  have hlt := h.published_lt hid
  have hge := h.queueSize_ge
  have hstore : ∀ x, x < virtqUsed queueSize virtqRx ∨ virtqUsed queueSize virtqRx + 4 ≤ x →
      store m (Virtio.usedIdx queueSize virtqRx) 2 (d.published.length + 1) x = m x := by
    intro x hx
    apply store_outside
    rw [usedIdx_eq]
    omega
  obtain ⟨hidx, havail, hdesc⟩ := h.congr_setup
    (store m (Virtio.usedIdx queueSize virtqRx) 2 (d.published.length + 1))
    (fun x _ hx => hstore x (Or.inl hx))
  have hkeep : ∀ k e, Stored B queueSize m k e →
      Stored B queueSize (store m (Virtio.usedIdx queueSize virtqRx) 2 (d.published.length + 1)) k e := by
    intro k e he
    have hregions := h.regions he.id_lt
    refine he.congr (fun x hx => hstore x ?_) (fun x hx => hstore x ?_)
    · have hx' := hx.1
      rw [usedRing_eq] at hx'
      omega
    · have hx' := hx.1
      omega
  refine { h with availIdx := hidx, availRing := havail, desc := hdesc, owned := ?_, usedIdx := ?_,
                  stored := ?_ }
  · show (d.held.erase used.id ++ (d.published ++ [_]).map Received.id).Perm _
    rw [List.map_append, ← List.append_assoc]
    have hback : (d.held.erase used.id ++ d.published.map Received.id ++ [used.id]).Perm
        (used.id :: d.held.erase used.id ++ d.published.map Received.id) :=
      List.perm_append_singleton _ _
    have hheld : (used.id :: d.held.erase used.id).Perm d.held := (List.perm_cons_erase hid).symm
    exact hback.trans ((hheld.append_right _).trans h.owned)
  · show load _ _ 2 = (d.published ++ [_]).length
    rw [load_store_self, List.length_append, List.length_singleton]
    omega
  · intro k e he
    apply hkeep
    rcases Nat.lt_trichotomy k d.published.length with hk | hk | hk
    · rw [List.getElem?_append_left hk] at he
      exact h.stored k e he
    · subst hk
      rw [List.getElem?_concat_length] at he
      cases he
      refine ⟨h.held_lt hid, ?_, ?_, ?_, ?_⟩
      · rw [hused, readBytes_length]
      · rw [readBytes_length]
        exact hmin
      · rw [readBytes_length]
        exact hmax
      · rw [readBytes_length]
    · rw [List.getElem?_eq_none (by simp; omega)] at he
      cases he

/-- **The device keeps the ownership discipline.** -/
theorem RxInv.step (h : RxInv B queueSize m d) (hs : RxStep queueSize m d m' d') :
    RxInv B queueSize m' d' := by
  have hge := h.queueSize_ge
  have hslot : ∀ id ∈ d.held,
      load m (Virtio.usedIdx queueSize virtqRx) 2 % queueSize = d.published.length := by
    intro id hid
    have hlt := h.published_lt hid
    rw [h.usedIdx, Nat.mod_eq_of_lt (by omega)]
  cases hs with
  | consume hposted => exact h.consume hposted
  | fill hid hframe =>
      rw [h.desc _ (h.held_lt hid)] at hframe
      exact h.fill hid hframe
  | enter hid hframe =>
      rw [hslot _ hid] at hframe
      exact h.enter hid hframe
  | publish hid hused hmin hmax =>
      rw [hslot _ hid] at hused
      rw [h.usedIdx, h.desc _ (h.held_lt hid)]
      exact h.publish hid hused hmin hmax

end Virtio
end SysproKernel

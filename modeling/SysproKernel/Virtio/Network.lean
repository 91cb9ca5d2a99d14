import SysproKernel.Lib.Links
import SysproKernel.Virtio.Duplex

/-!
# `Virtio.Network` — what one machine sends is what its peer's console shows

Any number of machines, each running the driver's two halves, with a link into each from its peer. A link
carries ethernet frames, that is, buffers without their virtio headers: a device emits the frame of every
entry it consumes and publishes nothing but frames it has been handed. Links may lose frames. The bounds of
`Virtio.Duplex` are each machine's: queues of at least sixteen entries, and fewer `send_packet` calls than
entries since initialisation.

Put together: as long as a machine's packets are read in time, the consoles it is linked to show the frames
of its packets, each once, in the order of the calls and, if nothing was lost, without a gap
(`network_delivers`).
-/

namespace SysproKernel
namespace Virtio

open Lib.ByteMem Lib.Loop Lib.Driver

/-! ## Frames -/

/-- What is on the wire of a buffer: everything behind the virtio header. -/
def ethernet (content : List UInt8) : List UInt8 := content.drop sizeofVirtioNetHdr

/-- The ethernet frame of a packet: addresses, type and payload, as far as the descriptor covers them. -/
def Packet.ethernet (p : Packet) : List UInt8 :=
  (bytesAt p.dstMac 6 ++ bytesAt p.srcMac 6 ++ leBytes 2 p.lenWord ++ bytesAt p.data p.len.toNat).take
    (p.total - sizeofVirtioNetHdr)

theorem ethernet_frame (p : Packet) : ethernet p.frame = p.ethernet := by
  have hlayout : p.layout.drop sizeofVirtioNetHdr
      = bytesAt p.dstMac 6 ++ bytesAt p.srcMac 6 ++ leBytes 2 p.lenWord ++ bytesAt p.data p.len.toNat := by
    have hhead : ([0, 0] ++ leBytes 2 p.total ++ [0, 0, 0, 0, 0, 0] : List UInt8).length
        = sizeofVirtioNetHdr := by
      simp [sizeofVirtioNetHdr]
    rw [Packet.layout, ← hhead]
    simp only [List.append_assoc, List.drop_append]
    simp
  rw [ethernet, Packet.frame, List.drop_take, hlayout, Packet.ethernet]

/-- The console output for a frame. -/
def frameReport (frame : List UInt8) : List Out :=
  .puts "length of ethernet frame: " :: .puth frame.length 4 :: .puts "\n" :: .puts "content:\n" ::
    ((frame.take 0x100).zipIdx.flatMap dumpItem ++
      ((if frame.length + sizeofVirtioNetHdr > 0x100 then [.puts "...(more)\n"] else []) ++ [.puts "\n"]))

theorem Received.report_eq {e : Received} (h : 10 ≤ e.content.length) :
    e.report = frameReport (Virtio.ethernet e.content) := by
  have hlen : (Virtio.ethernet e.content).length + sizeofVirtioNetHdr = e.content.length := by
    rw [Virtio.ethernet, List.length_drop, sizeofVirtioNetHdr]
    omega
  have hsub : (Virtio.ethernet e.content).length = e.content.length - sizeofVirtioNetHdr := by
    rw [Virtio.ethernet, List.length_drop]
  rw [frameReport, hlen, hsub]
  rfl

theorem reports_eq {es : List Received} (h : ∀ e ∈ es, 10 ≤ e.content.length) :
    reports es = (es.map (fun e => ethernet e.content)).flatMap frameReport := by
  induction es with
  | nil => rfl
  | cons e es ih =>
      have htail := ih (fun e' he' => h e' (List.mem_cons_of_mem e he'))
      rw [reports, List.flatMap_cons, List.map_cons, List.flatMap_cons, ← htail,
        Received.report_eq (h e List.mem_cons_self)]
      rfl

/-! ## Machines and links -/

/-- What distinguishes one machine from another. -/
structure Host where
  buffers : Buffers
  queueSize : Nat
  bar0 : Nat

/-- A machine: its two halves' bookkeeping, the call in progress, and the world. -/
abbrev HostState := Client.State Out (TxDevice × RxDevice) (List Packet × Receiver) (Unit ⊕ Nat)

def Host.client (h : Host) : Client Out (TxDevice × RxDevice) (List Packet × Receiver) (Unit ⊕ Nat) :=
  (sender h.buffers h.queueSize h.bar0).beside (receiver h.queueSize h.bar0)

def Host.env (h : Host) : Env (TxDevice × RxDevice) :=
  (txEnv h.queueSize h.bar0).beside (rxEnv h.queueSize)

/-- The packets whose `send_packet` call has begun. -/
def HostState.sent (s : HostState) : List Packet := s.1.1

/-- `receive_head`. -/
def HostState.receiveHead (s : HostState) : Nat := s.1.2.head

/-- What the console shows. -/
def HostState.console (s : HostState) : List Out := s.2.2.out

/-- No `receive_packet` call is running. -/
def HostState.NotReceiving (s : HostState) : Prop := ∀ p : Prog Out Nat, s.2.1 ≠ some p.second

/-- Every entry of the transmit queue was read before the next call began. -/
def HostState.InTime (s : HostState) : Prop :=
  ∀ k t, s.2.2.dev.1.transmitted[k]? = some t → t.begun = k + 1

def HostState.emitted (s : HostState) : List (List UInt8) :=
  s.2.2.dev.1.transmitted.map (fun t => ethernet t.content)

def HostState.accepted (s : HostState) : List (List UInt8) :=
  s.2.2.dev.2.published.map (fun e => ethernet e.content)

/-- Machines of the given kinds, each linked to a peer. -/
def network {ι : Type} (hosts : ι → Host) (peer : ι → ι) :
    Lib.Links.System ι HostState (List UInt8) :=
  { step := fun i => Client.Step (hosts i).client (hosts i).env
    emitted := HostState.emitted
    accepted := HostState.accepted
    peer := peer }

/-- Before the first call, nothing on any link. -/
def powerOn {ι : Type} (start : ι → World Out (TxDevice × RxDevice)) :
    Lib.Links.Net ι HostState (List UInt8) :=
  { host := fun i => (([], Receiver.start), none, start i)
    wire := fun _ => []
    lost := fun _ => 0 }

/-- `init_virtio_net` has left the machine in this world. -/
def Host.StartsIn (h : Host) (w : World Out (TxDevice × RxDevice)) : Prop :=
  nRxBuffers ≤ h.queueSize ∧ ∃ reads w₀, w₀.dev = (TxDevice.start, RxDevice.start) ∧
    InitialisedBy h.buffers h.bar0 reads w₀ h.queueSize w

/-- The consoles show the frames that the peer has sent. -/
structure Shown (sent : List Packet) (lost : Nat) (out₀ : List Out) (s : HostState)
    (frames : List (List UInt8)) : Prop where
  /-- each once and in the order of the calls -/
  sublist : frames.Sublist (sent.map Packet.ethernet)
  /-- without a gap, if nothing was lost -/
  lossless : lost = 0 → frames <+: sent.map Packet.ethernet
  /-- the first `receive_head` of them between calls, and never anything else -/
  between : s.NotReceiving → s.console = out₀ ++ (frames.take s.receiveHead).flatMap frameReport
  at_least : out₀ ++ (frames.take s.receiveHead).flatMap frameReport <+: s.console
  at_most : s.console <+: out₀ ++ frames.flatMap frameReport
  head_le : s.receiveHead ≤ frames.length

section Machine

variable {h : Host} {w : World Out (TxDevice × RxDevice)} {s : HostState}

/-- Both halves' invariants in every state a machine reaches. -/
theorem Host.reachable (hw : h.StartsIn w)
    (hrun : h.client.Reaches h.env (([], Receiver.start), none, w) s) :
    (∃ m, TxInv h.buffers h.queueSize s.sent m s.2.2.dev.1) ∧
      ∃ receiving, (s.NotReceiving → receiving = none) ∧
        ReceivedOnce h.buffers h.queueSize (w.view Prod.snd) s.1.2 receiving
          (s.2.2.view Prod.snd) := by
  obtain ⟨hq, reads, w₀, hdev, hinit⟩ := hw
  obtain ⟨htx, hrx⟩ := duplex_start hinit hq hdev
  obtain ⟨sending, receiving, hboth⟩ := duplex_reachable hinit.memory.1.queueSize_lt hq htx hrx hrun
  obtain ⟨hinv, -⟩ := txInv_of_inv hboth.first
  refine ⟨⟨_, hinv⟩, receiving, ?_, receivedOnce_of_inv hboth.second⟩
  intro hnot
  obtain ⟨g, prog, u⟩ := s
  have hrunning := hboth.running
  cases hrunning with
  | neither => rfl
  | first p => rfl
  | second p => exact absurd rfl (hnot p)

/-- What a machine emits in time are the frames of its packets. -/
theorem Host.emits (hw : h.StartsIn w)
    (hrun : h.client.Reaches h.env (([], Receiver.start), none, w) s) (htime : s.InTime) :
    s.emitted <+: s.sent.map Packet.ethernet := by
  obtain ⟨m, hinv⟩ := (Host.reachable hw hrun).1
  have hprefix := transmitted_prefix (fun k t ht => hinv.history k t ht (htime k t ht))
  have hmap := hprefix.map ethernet
  rw [List.map_map, List.map_map] at hmap
  have hframes : s.sent.map (ethernet ∘ Packet.frame) = s.sent.map Packet.ethernet :=
    List.map_congr_left (fun p _ => ethernet_frame p)
  rwa [hframes] at hmap

end Machine

theorem shown_of_received {s : HostState} {B : Buffers} {queueSize : Nat}
    {w₀ : World Out RxDevice} {receiving : Option (Prog Out Nat)} {sent : List Packet} {lost : Nat}
    (hnot : s.NotReceiving → receiving = none)
    (hrec : ReceivedOnce B queueSize w₀ s.1.2 receiving (s.2.2.view Prod.snd))
    (hsub : s.accepted.Sublist (sent.map Packet.ethernet))
    (hall : lost = 0 → s.accepted <+: sent.map Packet.ethernet) :
    Shown sent lost w₀.out s s.accepted := by
  have hlen : ∀ e ∈ s.2.2.dev.2.published, 10 ≤ e.content.length := by
    intro e he
    obtain ⟨k, hk⟩ := List.mem_iff_getElem?.mp he
    exact (hrec.stored k e hk).min_len
  have htake : ∀ n, reports (s.2.2.dev.2.published.take n)
      = (s.accepted.take n).flatMap frameReport := by
    intro n
    rw [reports_eq (fun e he => hlen e (List.mem_of_mem_take he)), HostState.accepted, List.map_take]
  have hwhole : reports s.2.2.dev.2.published = s.accepted.flatMap frameReport := reports_eq hlen
  have hle := hrec.le_out
  have hout := hrec.out_le
  refine ⟨hsub, hall, ?_, ?_, ?_, ?_⟩
  · intro h
    rw [← htake]
    exact hrec.between (hnot h)
  · rw [← htake]
    exact hle
  · rw [← hwhole]
    exact hout
  · have hhead := hrec.head_le
    rw [hrec.usedIdx] at hhead
    rw [HostState.accepted, List.length_map]
    exact hhead

/-- Nothing has been emitted or accepted before the first call. -/
theorem Host.StartsIn.silent {h : Host} {w : World Out (TxDevice × RxDevice)} (hw : h.StartsIn w) :
    HostState.emitted (([], Receiver.start), none, w) = [] ∧
      HostState.accepted (([], Receiver.start), none, w) = [] := by
  obtain ⟨-, reads, w₀, hdev, hinit⟩ := hw
  have hstart : w.dev = (TxDevice.start, RxDevice.start) := hinit.memory.2.trans hdev
  simp only [HostState.emitted, HostState.accepted, hstart]
  exact ⟨rfl, rfl⟩

theorem linked_at_start {ι : Type} (hosts : ι → Host) (peer : ι → ι)
    {start : ι → World Out (TxDevice × RxDevice)} (hstart : ∀ i, (hosts i).StartsIn (start i)) (i : ι) :
    Lib.Links.Linked (network hosts peer) (powerOn start) i := by
  have hemitted : (network hosts peer).emitted ((powerOn start).host (peer i)) = [] :=
    (hstart (peer i)).silent.1
  have haccepted : (network hosts peer).accepted ((powerOn start).host i) = [] := (hstart i).silent.2
  have hnothing : (network hosts peer).accepted ((powerOn start).host i) ++ (powerOn start).wire i
      = (network hosts peer).emitted ((powerOn start).host (peer i)) := by
    rw [hemitted, haccepted]
    rfl
  exact ⟨hnothing ▸ List.Sublist.refl _, fun _ => hnothing⟩

/-! ## Main result -/

/-- **Delivery.** In every reachable state of a network, whatever the machines and their devices do in
    between, the console of a machine shows the frames of the packets that its peer has sent. A machine's
    client makes fewer than `queueSize` calls of `send_packet`, and `StartsIn` gives its queues at least
    sixteen entries. -/
theorem network_delivers {ι : Type} [DecidableEq ι] (hosts : ι → Host) (peer : ι → ι)
    {start : ι → World Out (TxDevice × RxDevice)} (hstart : ∀ i, (hosts i).StartsIn (start i))
    {n : Lib.Links.Net ι HostState (List UInt8)}
    (hrun : Lib.Links.Reaches (network hosts peer) (powerOn start) n) (i : ι)
    (htime : (n.host (peer i)).InTime) :
    ∃ frames, Shown (n.host (peer i)).sent (n.lost i) (start i).out (n.host i) frames := by
  have hlink := (linked_at_start hosts peer hstart i).reaches hrun
  have hemits := Host.emits (hstart (peer i)) (Lib.Links.host_run hrun (peer i)) htime
  obtain ⟨-, receiving, hnot, hrec⟩ := Host.reachable (hstart i) (Lib.Links.host_run hrun i)
  refine ⟨(n.host i).accepted, shown_of_received hnot hrec ?_ ?_⟩
  · exact ((List.sublist_append_left _ _).trans hlink.sublist).trans hemits.sublist
  · intro hnone
    have hall : (n.host i).accepted ++ n.wire i = (n.host (peer i)).emitted := hlink.lossless hnone
    exact List.IsPrefix.trans ⟨_, hall⟩ hemits

/-! ## A frame from one machine to another -/

section Run

variable {h : Host} {w : World Out (TxDevice × RxDevice)}

theorem TxStep.transmitted {queueSize : Nat} {m m' : Mem} {d d' : TxDevice}
    (hs : TxStep queueSize m d m' d') : d.transmitted <+: d'.transmitted := by
  cases hs with
  | consume => exact List.prefix_append _ _
  | use => exact List.prefix_refl _

/-- Whatever a machine does, it takes back nothing it has emitted or accepted. -/
theorem Host.grows {ι : Type} (hosts : ι → Host) (peer : ι → ι) (i : ι) :
    Lib.Links.Grows (network hosts peer) i := by
  have hdev : ∀ s s' : HostState, Client.Step (hosts i).client (hosts i).env s s' →
      s.2.2.dev.1.transmitted <+: s'.2.2.dev.1.transmitted ∧
        s.2.2.dev.2.published <+: s'.2.2.dev.2.published := by
    rintro s s' hs
    have hwrite : ∀ d n port v, (((hosts i).env.write d n port v).1).transmitted = d.1.transmitted := by
      intro d n port v
      simp only [Host.env, Env.beside, txEnv]
      split
      · rfl
      · rfl
    cases hs with
    | env hm =>
        obtain ⟨⟨hstep, hsame⟩ | ⟨hstep, hsame⟩, -⟩ := hm
        · dsimp only
          rw [hsame]
          exact ⟨hstep.transmitted, List.prefix_refl _⟩
        · dsimp only
          rw [hsame]
          exact ⟨List.prefix_refl _, hstep.published⟩
    | prog hp =>
        cases hp with
        | ioWrite =>
            exact ⟨⟨[], (List.append_nil _).trans (hwrite _ _ _ _).symm⟩, List.prefix_refl _⟩
        | load => exact ⟨List.prefix_refl _, List.prefix_refl _⟩
        | store => exact ⟨List.prefix_refl _, List.prefix_refl _⟩
        | ioRead => exact ⟨List.prefix_refl _, List.prefix_refl _⟩
        | print => exact ⟨List.prefix_refl _, List.prefix_refl _⟩
        | await => exact ⟨List.prefix_refl _, List.prefix_refl _⟩
    | call hc =>
        obtain ⟨q, ⟨p, -, -, -, hw, -⟩, -, hsame, -⟩ | ⟨q, ⟨-, hw, -⟩, -, hsame, -⟩ := hc
        · have htx := congrArg (fun u => u.dev.transmitted) hw
          dsimp only [World.view, World.setDev] at htx
          rw [htx, hsame]
          exact ⟨List.prefix_refl _, List.prefix_refl _⟩
        · have hrx := congrArg (fun u => u.dev.published) hw
          dsimp only [World.view] at hrx
          rw [hrx, hsame]
          exact ⟨List.prefix_refl _, List.prefix_refl _⟩
    | done => exact ⟨List.prefix_refl _, List.prefix_refl _⟩
  intro s s' hs
  exact ⟨(hdev s s' hs).1.map _, (hdev s s' hs).2.map _⟩

/-- A machine sends one packet, and its device reads it. -/
theorem Host.sends_one (hw : h.StartsIn w) {p : Packet} (hp : p.accepted = true) :
    ∃ u, h.client.Reaches h.env (([], Receiver.start), none, w) (([p], Receiver.start), none, u) ∧
      u.dev.1.transmitted = [⟨1, p.frame⟩] ∧ u.dev.2.published = [] := by
  obtain ⟨hq, reads, w₀, hdev, hinit⟩ := hw
  have hstart : w.dev = (TxDevice.start, RxDevice.start) := hinit.memory.2.trans hdev
  obtain ⟨htx, -⟩ := duplex_start hinit hq hdev
  have hsize : 1 < h.queueSize := lt_of_lt_of_le (by decide) hq
  have hcall : (sender h.buffers h.queueSize h.bar0).call [] (w.view Prod.fst) [p] _ _ :=
    ⟨p, hp, rfl, hsize, rfl, rfl⟩
  have hkeeps : ∀ (d : TxDevice) n address v, d.transmitted = [] →
      ((txEnv h.queueSize h.bar0).write d n address v).transmitted = [] := by
    intro d n address v hd
    simp only [txEnv]
    split
    · exact hd
    · exact hd
  have hnone : (w.view Prod.fst).dev.transmitted = [] := by
    simp only [World.view, hstart]
    rfl
  obtain ⟨_, v, hrun, ⟨⟨hinv, hidx⟩, hnotified⟩, hnone'⟩ :=
    (sender_verified h.buffers h.queueSize h.bar0).completes (fun _ _ _ => ⟨0, trivial⟩)
      txSpec_patient hkeeps htx.1 hcall id hnone
  obtain ⟨v', rfl, hrun', hkept⟩ := Client.Reaches.first (receiver h.queueSize h.bar0)
    (rxEnv h.queueSize) Receiver.start (fun _ _ _ _ => trivial) hrun
  have hposted : (v'.view Prod.fst).dev.transmitted.length
      < load (v'.view Prod.fst).mem (availIdx h.queueSize virtqTx) 2 := by
    rw [hnone', hidx]
    exact Nat.zero_lt_one
  have hstep := TxStep.consume (hnotified Nat.zero_lt_one) hposted
  rw [hinv.content hposted hidx rfl, hnone', hinv.begun] at hstep
  refine ⟨⟨v'.mem, (_, v'.dev.2), v'.out⟩, hrun'.tail (.env ⟨.inl ⟨hstep, rfl⟩, rfl⟩), rfl, ?_⟩
  refine hkept (fun d => d.published = []) (fun _ _ _ _ hd => hd) ?_
  rw [hstart]
  rfl

/-- The device of an initialised machine publishes the given bytes; the last step is the publication. -/
theorem Host.accepts_one (hw : h.StartsIn w) {content : List UInt8} (hmin : 10 ≤ content.length)
    (hmax : content.length ≤ 0x1000) :
    ∃ v v', h.client.Reaches h.env (([], Receiver.start), none, w) (([], Receiver.start), none, v) ∧
      Client.Step h.client h.env (([], Receiver.start), none, v) (([], Receiver.start), none, v') ∧
      v.dev.2.published = [] ∧ v'.dev.1 = v.dev.1 ∧ v'.dev.2.published = [⟨0, content⟩] := by
  obtain ⟨hq, reads, w₀, hdev, hinit⟩ := hw
  have hstart : w.dev = (TxDevice.start, RxDevice.start) := hinit.memory.2.trans hdev
  obtain ⟨-, hrx⟩ := duplex_start hinit hq hdev
  have hinv : RxInv h.buffers h.queueSize w.mem w.dev.2 := hrx.inv
  rw [hstart] at hinv
  obtain ⟨m₁, m₂, m₃, hconsume, hfill, henter, hpublish⟩ :=
    publish_content hinv (by decide) hmin hmax
  have hmove : ∀ {m m' : Mem} {d d' : RxDevice}, RxStep h.queueSize m d m' d' →
      Client.Step h.client h.env (([], Receiver.start), none, ⟨m, (w.dev.1, d), w.out⟩)
        (([], Receiver.start), none, ⟨m', (w.dev.1, d'), w.out⟩) :=
    fun hs => .env ⟨.inr ⟨hs, rfl⟩, rfl⟩
  have hw' : w = ⟨w.mem, (w.dev.1, RxDevice.start), w.out⟩ := by
    have hsnd : w.dev.2 = RxDevice.start := congrArg Prod.snd hstart
    rw [← hsnd]
  refine ⟨⟨m₂, (w.dev.1, ⟨1, [0], []⟩), w.out⟩, ⟨m₃, (w.dev.1, ⟨1, [], [⟨0, content⟩]⟩), w.out⟩, ?_,
    hmove hpublish, rfl, rfl, rfl⟩
  rw [hw']
  exact ((Relation.ReflTransGen.single (hmove hconsume)).tail (hmove hfill)).tail (hmove henter)

/-- One `receive_packet` call reports the one element there is. -/
theorem Host.receives_one (hw : h.StartsIn w) {v : World Out (TxDevice × RxDevice)}
    (hrun : h.client.Reaches h.env (([], Receiver.start), none, w) (([], Receiver.start), none, v))
    {e : Received} (hone : v.dev.2.published = [e]) :
    ∃ g u, h.client.Reaches h.env (([], Receiver.start), none, v) (([], g), none, u) ∧ g.head = 1 ∧
      u.dev.2.published = [e] := by
  obtain ⟨hq, reads, w₀, hdev, hinit⟩ := hw
  obtain ⟨htx, hrx⟩ := duplex_start hinit hq hdev
  obtain ⟨sending, receiving, hboth⟩ := duplex_reachable hinit.memory.1.queueSize_lt hq htx hrx hrun
  have hidle : RxIdle h.buffers h.queueSize w.out Receiver.start (v.view Prod.snd) := by
    have hrunning := hboth.running
    cases hrunning
    exact hboth.second
  have hnew : (v.view Prod.snd).dev.published.length ≠ 0 := by
    show v.dev.2.published.length ≠ 0
    rw [hone]
    exact Nat.one_ne_zero
  obtain ⟨receiveHead, u, hcall, hdone, hkept⟩ :=
    (receiver_verified h.buffers h.queueSize h.bar0 w.out).completes
      (P := fun d => d.published = [e]) (fun _ _ _ => ⟨0, trivial⟩) rxSpec_patient
      (fun _ _ _ _ hd => hd) hidle ⟨rfl, rfl, rfl⟩ hnew hone
  obtain ⟨u', rfl, hcall', -⟩ := Client.Reaches.second (sender h.buffers h.queueSize h.bar0)
    (txEnv h.queueSize h.bar0) [] (fun _ _ _ _ => trivial) hcall
  refine ⟨_, u', hcall', ?_, hkept⟩
  -- the call has reported something, and there is one element only
  have hle := hdone.head_le
  have hsome := (hdone.complete _ (List.mem_append_right _ (List.mem_singleton_self _))).some
  rw [hkept] at hle
  exact Nat.le_antisymm hle hsome

/-- A machine like those of the samples before. -/
def sampleHost : Host := { buffers := sampleBuffers, queueSize := 16, bar0 := 0xc000 }

theorem sampleHost_starts : ∃ w, sampleHost.StartsIn w := by
  obtain ⟨w, hinit⟩ := (cooperative_onesPorts 0xc000 (by decide : 16 < 0x10000)).initialises
    sampleBuffers (blankWorld (TxDevice.start, RxDevice.start))
  exact ⟨w, by decide, _, _, rfl, hinit⟩

/-- Two machines facing each other. -/
def samplePair : Lib.Links.System Bool HostState (List UInt8) := network (fun _ => sampleHost) not

/-- One of them sends a packet, and the other reports it. -/
theorem packet_crosses {w : World Out (TxDevice × RxDevice)} (hw : sampleHost.StartsIn w) :
    ∃ n, Lib.Links.Reaches samplePair (powerOn (fun _ => w)) n ∧ (n.host false).InTime ∧
      (n.host false).sent = [oneByte 0x41] ∧ (n.host true).receiveHead = 1 ∧ n.lost true = 0 := by
  have haccepted : (oneByte 0x41).accepted = true := by decide
  have hmin : 10 ≤ (oneByte 0x41).frame.length := by decide
  have hmax : (oneByte 0x41).frame.length ≤ 0x1000 := by decide
  obtain ⟨ua, hsend, htransmitted, hnothing⟩ := Host.sends_one hw haccepted
  obtain ⟨v, v', hbefore, hpublish, hnone, hsame, hone⟩ := Host.accepts_one hw hmin hmax
  obtain ⟨g, ub, hreceive, hhead, hstill⟩ := Host.receives_one hw (hbefore.tail hpublish) hone
  have hgrows : ∀ i, Lib.Links.Grows samplePair i := Host.grows (fun _ => sampleHost) not
  obtain ⟨hsilent, hdeaf⟩ := hw.silent
  have hemits : samplePair.emitted (([oneByte 0x41], Receiver.start), none, ua)
      = [ethernet (oneByte 0x41).frame] := by
    show ua.dev.1.transmitted.map _ = _
    rw [htransmitted]
    rfl
  have hlistens : ∀ g u, u.dev.2.published = [⟨0, (oneByte 0x41).frame⟩] →
      samplePair.accepted (([], g), none, u) = [ethernet (oneByte 0x41).frame] := by
    intro g u hu
    show u.dev.2.published.map _ = _
    rw [hu]
    rfl
  have hwaits : ∀ s : HostState, s.2.2.dev.2.published = [] → samplePair.accepted s = [] := by
    intro s hs
    show s.2.2.dev.2.published.map _ = _
    rw [hs]
    rfl
  obtain ⟨n₁, hn₁⟩ : ∃ n₁, n₁ = (powerOn (fun _ : Bool => w)).after samplePair false
    (([oneByte 0x41], Receiver.start), none, ua) := ⟨_, rfl⟩
  -- the sending machine
  have h₁ : Lib.Links.Reaches samplePair (powerOn (fun _ => w)) n₁ := by
    rw [hn₁]
    exact Lib.Links.Reaches.quiet (hgrows false) hsend ((hwaits _ hnothing).trans hdeaf.symm)
  have hwire₁ : n₁.wire true = [ethernet (oneByte 0x41).frame] := by
    have hdrop : n₁.wire true = (samplePair.emitted (([oneByte 0x41], Receiver.start), none, ua)).drop
        (HostState.emitted (([], Receiver.start), none, w)).length := by
      rw [hn₁]
      rfl
    rw [hdrop, hsilent, hemits]
    rfl
  have hhost₁ : n₁.host true = (([], Receiver.start), none, w) := by
    rw [hn₁]
    rfl
  -- the other one, up to the publication and then with the frame from the link
  have hfirst : Lib.Links.Reaches samplePair n₁
      (n₁.after samplePair true (([], Receiver.start), none, v)) := by
    refine Lib.Links.Reaches.quiet (hgrows true) ?_ ?_
    · rw [hhost₁]
      exact hbefore
    · rw [hhost₁]
      exact (hwaits _ hnone).trans hdeaf.symm
  obtain ⟨n₂, hn₂⟩ : ∃ n₂, n₂ = n₁.after samplePair true (([], Receiver.start), none, v) := ⟨_, rfl⟩
  rw [← hn₂] at hfirst
  have hhost₂ : n₂.host true = (([], Receiver.start), none, v) := by
    rw [hn₂, Lib.Links.Net.after_self]
  have hwire₂ : n₂.wire true = [ethernet (oneByte 0x41).frame] := by
    rw [← hwire₁, hn₂]
    rfl
  have hsecond : Lib.Links.Step samplePair n₂
      (n₂.handed true (([], Receiver.start), none, v') []) := by
    refine Lib.Links.Step.hand ?_ ?_ ?_ hwire₂
    · rw [hhost₂]
      exact hpublish
    · rw [hhost₂]
      show v'.dev.1.transmitted.map _ = v.dev.1.transmitted.map _
      rw [hsame]
    · rw [hhost₂, hlistens _ _ hone, hwaits _ hnone]
      rfl
  have hthird : Lib.Links.Reaches samplePair (n₂.handed true (([], Receiver.start), none, v') [])
      ((n₂.handed true (([], Receiver.start), none, v') []).after samplePair true
        (([], g), none, ub)) := by
    refine Lib.Links.Reaches.quiet (hgrows true) ?_ ?_
    · rw [Lib.Links.Net.handed_self]
      exact hreceive
    · rw [Lib.Links.Net.handed_self, hlistens _ _ hstill, hlistens _ _ hone]
  have hsender : ((n₂.handed true (([], Receiver.start), none, v') []).after samplePair true
      (([], g), none, ub)).host false = (([oneByte 0x41], Receiver.start), none, ua) := by
    rw [hn₂, hn₁]
    rfl
  refine ⟨_, ((h₁.trans hfirst).tail hsecond).trans hthird, ?_, ?_, ?_, ?_⟩
  · rw [hsender]
    intro k t ht
    have ht' : ua.dev.1.transmitted[k]? = some t := ht
    rw [htransmitted] at ht'
    obtain ⟨hk, rfl⟩ := List.getElem?_eq_some_iff.mp ht'
    have hzero : k = 0 := by simpa using hk
    subst hzero
    rfl
  · rw [hsender]
    rfl
  · rw [Lib.Links.Net.after_self]
    exact hhead
  · rw [hn₂, hn₁]
    rfl

end Run

/-- The theorem covers the run in which a packet crosses the link. -/
theorem network_delivers_sample : ∃ (w : World Out (TxDevice × RxDevice))
    (n : Lib.Links.Net Bool HostState (List UInt8)) (frames : List (List UInt8)),
    sampleHost.StartsIn w ∧ (n.host false).sent = [oneByte 0x41] ∧ (n.host true).receiveHead = 1 ∧
      Shown (n.host false).sent (n.lost true) w.out (n.host true) frames := by
  obtain ⟨w, hw⟩ := sampleHost_starts
  obtain ⟨n, hrun, htime, hsent, hhead, -⟩ := packet_crosses hw
  obtain ⟨frames, hshown⟩ := network_delivers (fun _ : Bool => sampleHost) not (fun _ => hw) hrun true
    htime
  exact ⟨w, n, frames, hw, hsent, hhead, hshown⟩

end Virtio
end SysproKernel

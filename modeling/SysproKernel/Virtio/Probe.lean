import Mathlib.Data.Nat.Bitwise
import SysproKernel.Virtio.Exposure
import SysproKernel.Virtio.Receive
import SysproKernel.Virtio.Send

/-!
# `Virtio.Probe` — `init_virtio`, from the PCI scan to the first packets

The scan of configuration space, the decoding of BAR0 and the whole of `init_virtio`, translated from
virtio.c. Configuration space is an arbitrary function; a read of the data port gives the word that the
last write to the address port selected. The question is which ports the routine touches.

The scan leaves 0:0.0 in its globals when it finds nothing, and the ASSERT behind it looks only at the
kind of BAR0 of whatever function they name. A port number has 16 bits and a BAR0 has 32, and the
routine cuts their sum down. `confined_iff` says when either is harm: if the function it goes on with has
an I/O BAR, it has to be a network device, and a register that does not fit into a port number has to
fall on an allowed port by accident. Every register is accessed in some run, hence the exact condition.
-/

namespace SysproKernel
namespace Virtio

open Lib.ByteMem Lib.Loop Lib.Driver Lib.Trace

/-! ## The routine -/

def configAddressAddr : Nat := 0xCF8
def configDataAddr : Nat := 0xCFC

def virtioNetVendorId : Nat := 0x1AF4
def virtioNetDeviceId : Nat := 0x1000

def busMax : Nat := 255
def devMax : Nat := 31
def funcMax : Nat := 0

/-- `1ull << 31 | (u32) bus_num << 16 | …`, as the 32-bit word that is written. -/
def configAddress (busNum devNum funcNum offset : UInt8) : Nat :=
  1 <<< 31 ||| busNum.toNat <<< 16 ||| (devNum.toNat &&& 0x1F) <<< 11 |||
    (funcNum.toNat &&& 0x7) <<< 8 ||| offset.toNat

def pciConfigRead32 (busNum devNum funcNum offset : UInt8) : Prog Out Nat := do
  ioWrite32 configAddressAddr (configAddress busNum devNum funcNum offset)
  ioRead32 configDataAddr

/-- The address of BAR0 and `is_io_space`. -/
def readBar0 (busNum devNum funcNum : UInt8) : Prog Out (Nat × Nat) := do
  let t ← pciConfigRead32 busNum devNum funcNum 0x10
  return (if t &&& 1 != 0 then t &&& 0xFFFFFFFC else t &&& 0xFFFFFFF0, t &&& 1)

/-- `virtio_net_bus_num`, `virtio_net_dev_num` and `virtio_net_func_num`. -/
structure NetFunction where
  bus : Nat
  dev : Nat
  func : Nat

/-- The body of the scan. -/
def probeFunction (bus dev func : Nat) (net : NetFunction) : Prog Out NetFunction := do
  let t ← pciConfigRead32 (UInt8.ofNat bus) (UInt8.ofNat dev) (UInt8.ofNat func) 0
  let devId := t >>> 16
  let vendorId := t &&& 0xFFFF
  if devId == virtioNetDeviceId && vendorId == virtioNetVendorId then
    puts "found virtio\n"
    puts "bus:"
    puth bus 2
    puts "\n"
    puts "dev:"
    puth dev 2
    puts "\n"
    puts "func:"
    puth func 2
    puts "\n"
    return { bus, dev, func }
  else
    return net

/-- The scan, from one value of the three globals to the next. -/
def findVirtioNet (net : NetFunction) : Prog Out NetFunction :=
  forLoop (busMax + 1) (fun bus net => forLoop (devMax + 1) (fun dev net =>
    forLoop (funcMax + 1) (fun func net => probeFunction bus dev func net) net) net) net

def getMacAddress (bar0 : Nat) : Prog Out (Nat → UInt8) :=
  forLoop 6 (fun i mac => do
    let byte ← ioRead8 (port bar0 (20 + i))
    return Function.update mac i (UInt8.ofNat byte)) (fun _ => 0)

/-- `if (i) puts(":");` -/
def putColon (i : Nat) : Prog Out Unit := if i != 0 then puts ":" else pure ()

def putMac (mac : Nat → UInt8) : Prog Out Unit :=
  forLoop 6 (fun i _ => do
    putColon i
    puth (mac i).toNat 2) ()

/-- The text of the first packet. -/
def broadcastText : String :=
  "This document describes the specifications of the \"virtio\" family of devices. These devices " ++
  "are found in virtual environments, yet by design they look like physical devices to the guest " ++
  "within the virtual machine - and this document treats them as such."

def broadcast (mac : Nat → UInt8) : Packet :=
  { data := fun i => (broadcastText.toUTF8.data.getD i 0)
    len := 128
    srcMac := mac
    dstMac := fun _ => 0xFF
    len_int := by decide }

/-- The part of `init_virtio` behind the ASSERT. -/
def startVirtioNet (B : Buffers) (bar0 : Nat) : Prog Out Unit := do
  let queueSize ← initVirtioNet B bar0
  let mac ← getMacAddress bar0
  puts "------------------\n"
  puts "MAC Address:"
  putMac mac
  puts "\n"
  puts "------------------\n"
  -- send a broadcast packet
  puts "Sending packet... "
  sendPacket B queueSize bar0 (broadcast mac)
  puts "ok\n"
  -- receive a packet
  puts "Receiving packet... \n"
  let _ ← receivePacket queueSize bar0 0
  return ()

/-- `init_virtio`. The globals the scan starts from are zero-initialised. -/
def initVirtio (B : Buffers) : Prog Out Unit := do
  let net ← findVirtioNet { bus := 0, dev := 0, func := 0 }
  let (bar0, isIoSpace) ←
    readBar0 (UInt8.ofNat net.bus) (UInt8.ofNat net.dev) (UInt8.ofNat net.func)
  ASSERT (isIoSpace != 0) "is_io_space"
  startVirtioNet B bar0

/-! ## Configuration space -/

/-- The words of configuration space, by bus, device, function and offset. -/
structure ConfigSpace where
  word : Nat → Nat → Nat → Nat → UInt32

/-- The word selected by the configuration address register. -/
def ConfigSpace.selected (C : ConfigSpace) (address : Nat) : Nat :=
  (C.word (address / 2 ^ 16 % 2 ^ 8) (address / 2 ^ 11 % 2 ^ 5) (address / 2 ^ 8 % 2 ^ 3)
    (address % 2 ^ 8 / 4 * 4)).toNat

/-- The machine: the data port answers from configuration space, every other port as it likes, and memory
    may change at any time. -/
def ConfigSpace.host (C : ConfigSpace) : Host Unit :=
  { step := fun _ _ _ _ _ => True
    answers := fun h _ n address v => n = 4 → address = configDataAddr →
      ∀ a, lastWritten configAddressAddr h = some a → v = C.selected a }

/-- Function 0 of this device is a virtio network device. -/
def ConfigSpace.NetDevice (C : ConfigSpace) (bus dev : Nat) : Prop :=
  bus ≤ busMax ∧ dev ≤ devMax ∧ (C.word bus dev 0 0).toNat % 2 ^ 16 = virtioNetVendorId ∧
    (C.word bus dev 0 0).toNat / 2 ^ 16 = virtioNetDeviceId

/-- Its BAR0 is an I/O-space BAR. -/
def ConfigSpace.IoBar (C : ConfigSpace) (bus dev : Nat) : Prop :=
  (C.word bus dev 0 0x10).toNat % 2 = 1

/-- The port its registers start at. -/
def ConfigSpace.bar0 (C : ConfigSpace) (bus dev : Nat) : Nat :=
  (C.word bus dev 0 0x10).toNat / 4 * 4

def ConfigPort (a : Nat) : Prop := a = configAddressAddr ∨ a = configDataAddr

/-- A register of a virtio network device with an I/O BAR: 20 bytes, then the MAC address. -/
def ConfigSpace.NetPort (C : ConfigSpace) (a : Nat) : Prop :=
  ∃ bus dev offset, C.NetDevice bus dev ∧ C.IoBar bus dev ∧ offset < 26 ∧
    a = C.bar0 bus dev + offset

/-- The port accesses of a history touch network devices only. -/
structure ConfigSpace.Confined (C : ConfigSpace) (h : List Event) : Prop where
  ports : PastIn (fun a => ConfigPort a ∨ C.NetPort a) h
  /-- without a network device, no register is written -/
  writes : (¬ ∃ bus dev, C.NetDevice bus dev ∧ C.IoBar bus dev) →
    ∀ n a v, Event.ioWrite n a v ∈ h → ConfigPort a

/-- The function the routine goes on with: the last network device in the order of the scan, or 0:0.0 if
    there is none. -/
def ConfigSpace.Used (C : ConfigSpace) (bus dev : Nat) : Prop :=
  (C.NetDevice bus dev ∧ ∀ bus' dev', C.NetDevice bus' dev' → 32 * bus' + dev' ≤ 32 * bus + dev) ∨
    (bus = 0 ∧ dev = 0 ∧ ∀ bus dev, ¬ C.NetDevice bus dev)

/-- There is at most one such function. -/
theorem ConfigSpace.Used.unique {C : ConfigSpace} {bus dev bus' dev' : Nat} (h : C.Used bus dev)
    (h' : C.Used bus' dev') : bus = bus' ∧ dev = dev' := by
  rcases h with ⟨hnet, hlast⟩ | ⟨rfl, rfl, hnone⟩
  · rcases h' with ⟨hnet', hlast'⟩ | ⟨-, -, hnone'⟩
    · have hle := hlast _ _ hnet'
      have hge := hlast' _ _ hnet
      have hdev := hnet.2.1
      have hdev' := hnet'.2.1
      unfold devMax at hdev hdev'
      omega
    · exact absurd hnet (hnone' _ _)
  · rcases h' with ⟨hnet', -⟩ | ⟨rfl, rfl, -⟩
    · exact absurd hnet' (hnone _ _)
    · exact ⟨rfl, rfl⟩

/-- The registers that the routine accesses, the last six being the MAC address. -/
def registers : List Nat :=
  [offsetDevFeats, offsetDriverFeats, offsetQueueAddr, offsetQueueSize, offsetQueueSel,
    offsetQueueNotify, offsetStatus, 20, 21, 22, 23, 24, 25]

/-- Those of the registers whose address does not fit into a port number are, cut down to 16 bits, a
    configuration port or a register of some network device. -/
def ConfigSpace.Covered (C : ConfigSpace) (bar0 : Nat) : Prop :=
  ∀ r ∈ registers, 2 ^ 16 ≤ bar0 + r → ConfigPort (port bar0 r) ∨ C.NetPort (port bar0 r)

/-! ## Reading configuration space -/

theorem configAddress_eq (busNum devNum funcNum offset : UInt8) :
    configAddress busNum devNum funcNum offset = 2 ^ 31 + busNum.toNat * 2 ^ 16 +
      devNum.toNat % 2 ^ 5 * 2 ^ 11 + funcNum.toNat % 2 ^ 3 * 2 ^ 8 + offset.toNat := by
  have hbus := busNum.toNat_lt
  have hoffset := offset.toNat_lt
  have hdev := Nat.mod_lt devNum.toNat (by decide : 0 < 2 ^ 5)
  have hfunc := Nat.mod_lt funcNum.toNat (by decide : 0 < 2 ^ 3)
  -- each field is below the lowest set bit of what stands before it
  have join : ∀ {x lo : Nat} (k hi : Nat), x = 2 ^ k * hi → lo < 2 ^ k → x ||| lo = x + lo := by
    rintro x lo k hi rfl hlo
    exact (Nat.two_pow_add_eq_or_of_lt hlo hi).symm
  unfold configAddress
  rw [show devNum.toNat &&& 0x1F = devNum.toNat % 2 ^ 5 from Nat.and_two_pow_sub_one_eq_mod _ 5,
    show funcNum.toNat &&& 0x7 = funcNum.toNat % 2 ^ 3 from Nat.and_two_pow_sub_one_eq_mod _ 3]
  simp only [Nat.shiftLeft_eq, Nat.one_mul]
  have hbus₁ : 2 ^ 31 ||| busNum.toNat * 2 ^ 16 = 2 ^ 31 + busNum.toNat * 2 ^ 16 :=
    join 31 1 (by omega) (by omega)
  have hdev₁ : 2 ^ 31 + busNum.toNat * 2 ^ 16 ||| devNum.toNat % 2 ^ 5 * 2 ^ 11 =
      2 ^ 31 + busNum.toNat * 2 ^ 16 + devNum.toNat % 2 ^ 5 * 2 ^ 11 :=
    join 16 (2 ^ 15 + busNum.toNat) (by omega) (by omega)
  rw [hbus₁, hdev₁]
  obtain ⟨high, hhigh⟩ : ∃ high, 2 ^ 31 + busNum.toNat * 2 ^ 16 + devNum.toNat % 2 ^ 5 * 2 ^ 11 =
      2 ^ 11 * high := ⟨2 ^ 20 + busNum.toNat * 2 ^ 5 + devNum.toNat % 2 ^ 5, by omega⟩
  rw [hhigh, join 11 high rfl (by omega), join 8 (2 ^ 3 * high + funcNum.toNat % 2 ^ 3) (by omega)
    (by omega)]

/-- The address register selects the word it was composed for. -/
theorem selected_configAddress {C : ConfigSpace} {busNum devNum funcNum offset : UInt8} :
    C.selected (configAddress busNum devNum funcNum offset) =
      (C.word busNum.toNat (devNum.toNat % 2 ^ 5) (funcNum.toNat % 2 ^ 3)
        (offset.toNat / 4 * 4)).toNat := by
  have hbus := busNum.toNat_lt
  have hoffset := offset.toNat_lt
  obtain ⟨address, haddress⟩ : ∃ a, configAddress busNum devNum funcNum offset = a := ⟨_, rfl⟩
  have heq := haddress.symm.trans (configAddress_eq busNum devNum funcNum offset)
  rw [haddress, ConfigSpace.selected]
  have h₁ : address / 2 ^ 16 % 2 ^ 8 = busNum.toNat := by omega
  have h₂ : address / 2 ^ 11 % 2 ^ 5 = devNum.toNat % 2 ^ 5 := by omega
  have h₃ : address / 2 ^ 8 % 2 ^ 3 = funcNum.toNat % 2 ^ 3 := by omega
  have h₄ : address % 2 ^ 8 / 4 * 4 = offset.toNat / 4 * 4 := by omega
  rw [h₁, h₂, h₃, h₄]

/-- `t & ~3`. -/
theorem and_not_three {t : Nat} (ht : t < 2 ^ 32) : t &&& 0xFFFFFFFC = t / 4 * 4 := by
  have hlow : (t &&& 0xFFFFFFFC) % 2 ^ 2 = 0 := by
    rw [Nat.and_mod_two_pow]
    exact Nat.and_zero _
  have hhigh : (t &&& 0xFFFFFFFC) >>> 2 = t / 4 := by
    rw [Nat.shiftRight_and_distrib, show 0xFFFFFFFC >>> 2 = 2 ^ 30 - 1 from rfl,
      Nat.and_two_pow_sub_one_eq_mod, Nat.shiftRight_eq_div_pow]
    omega
  rw [Nat.shiftRight_eq_div_pow] at hhigh
  omega

section Scan

variable {C : ConfigSpace} {P : Nat → Prop} {hP : ∀ a, ConfigPort a → P a} {blocked φ : Prop} {α : Type}

/-- Only configuration space has been accessed so far. -/
def probing (C : ConfigSpace) (hP : ∀ a, ConfigPort a → P a) (blocked φ : Prop) :
    Assertion C.host (portSpec Unit P blocked) :=
  { holds := fun s => φ ∧ PastIn ConfigPort s.past
    stable := by
      rintro s s' hs ⟨-⟩
      exact hs
    always := fun s hs => hs.2.mono hP }

/-- And an address has been selected. -/
def selecting (C : ConfigSpace) (hP : ∀ a, ConfigPort a → P a) (blocked φ : Prop) (address : Nat) :
    Assertion C.host (portSpec Unit P blocked) :=
  { holds := fun s => (φ ∧ PastIn ConfigPort s.past) ∧
      lastWritten configAddressAddr s.past = some address
    stable := by
      rintro s s' hs ⟨-⟩
      exact hs
    always := fun s hs => hs.1.2.mono hP }

/-- **A configuration read** gives the word of that function and offset. -/
theorem probing_read {busNum devNum funcNum offset : UInt8} {f : Nat → Prog Out α}
    {X : α → Assertion C.host (portSpec Unit P blocked)}
    (hf : Triple (selecting C hP blocked φ (configAddress busNum devNum funcNum offset))
      (f (C.word busNum.toNat (devNum.toNat % 2 ^ 5) (funcNum.toNat % 2 ^ 3)
        (offset.toNat / 4 * 4)).toNat) X) :
    Triple (probing C hP blocked φ) (pciConfigRead32 busNum devNum funcNum offset >>= f) X := by
  show Triple _ (ioWrite32 configAddressAddr (configAddress busNum devNum funcNum offset) >>=
    fun _ => ioRead32 configDataAddr >>= f) X
  refine Triple.bind
    (B := fun _ => selecting C hP blocked φ (configAddress busNum devNum funcNum offset)) ?_
    (fun _ => ?_)
  · refine Triple.ioWrite ?_
    rintro s ⟨hφ, hpast⟩
    exact ⟨⟨hφ, hpast.snoc (by rintro _ ⟨⟩; exact Or.inl rfl)⟩, lastWritten_write⟩
  · refine Triple.ioRead_known ?_ ?_ hf
    · rintro s u ⟨-, hselected⟩ hanswer
      rw [hanswer rfl rfl _ hselected, selected_configAddress]
      exact Nat.mod_eq_of_lt (UInt32.toNat_lt _)
    · rintro s ⟨⟨hφ, hpast⟩, hselected⟩
      exact ⟨⟨hφ, hpast.snoc (by rintro _ ⟨⟩; exact Or.inr rfl)⟩, lastWritten_read.trans hselected⟩

/-- The globals once the functions before `k` have been looked at, 32 to a bus. -/
def Scanned (C : ConfigSpace) (k : Nat) (net : NetFunction) : Prop :=
  (C.NetDevice net.bus net.dev ∧ net.func = 0 ∧ ∀ bus dev, 32 * bus + dev < k → C.NetDevice bus dev →
      32 * bus + dev ≤ 32 * net.bus + net.dev) ∨
    (net = ⟨0, 0, 0⟩ ∧ ∀ bus dev, 32 * bus + dev < k → ¬ C.NetDevice bus dev)

/-- **One function.** -/
theorem probeFunction_spec {bus dev : Nat} {net : NetFunction} (hbus : bus ≤ busMax)
    (hdev : dev ≤ devMax) :
    Triple (probing C hP blocked (Scanned C (32 * bus + dev) net)) (probeFunction bus dev 0 net)
      (fun net => probing C hP blocked (Scanned C (32 * bus + (dev + 1)) net)) := by
  unfold busMax at hbus
  unfold devMax at hdev
  have hbus' : (UInt8.ofNat bus).toNat = bus := by
    rw [UInt8.toNat_ofNat']
    omega
  have hdev' : (UInt8.ofNat dev).toNat % 2 ^ 5 = dev := by
    rw [UInt8.toNat_ofNat']
    omega
  apply probing_read
  rw [hbus', hdev']
  refine Triple.weaken (A := probing C hP blocked (Scanned C (32 * bus + dev) net)) ?_
    (fun _ hs => hs.1) (fun _ _ hs => hs)
  dsimp only
  split
  next hmatch =>
    have hnet : C.NetDevice bus dev := by
      simp only [Bool.and_eq_true, beq_iff_eq, Nat.shiftRight_eq_div_pow] at hmatch
      obtain ⟨hdevice, hvendor⟩ := hmatch
      rw [show 0xFFFF = 2 ^ 16 - 1 from rfl, Nat.and_two_pow_sub_one_eq_mod] at hvendor
      exact ⟨hbus, hdev, hvendor, hdevice⟩
    have hlast : Scanned C (32 * bus + (dev + 1)) ⟨bus, dev, 0⟩ :=
      Or.inl ⟨hnet, rfl, fun bus' dev' hlt _ => Nat.le_of_lt_succ hlt⟩
    refine print_silent.bind (fun _ => ?_)
    refine labelled_spec (fun _ _ hs => hs) ?_
    refine labelled_spec (fun _ _ hs => hs) ?_
    refine labelled_spec (fun _ _ hs => hs) ?_
    exact Triple.ret (fun _ hs => ⟨hlast, hs.2⟩)
  next hother =>
    -- the function just looked at is none
    have hnot : ∀ bus' dev', 32 * bus' + dev' < 32 * bus + (dev + 1) → C.NetDevice bus' dev' →
        32 * bus' + dev' < 32 * bus + dev := by
      rintro bus' dev' hlt ⟨-, hdev₂, hvendor, hdevice⟩
      by_contra hlast
      unfold devMax at hdev₂
      obtain rfl : bus' = bus := by omega
      obtain rfl : dev' = dev := by omega
      apply hother
      simp only [Bool.and_eq_true, beq_iff_eq, Nat.shiftRight_eq_div_pow]
      refine ⟨hdevice, ?_⟩
      rw [show 0xFFFF = 2 ^ 16 - 1 from rfl, Nat.and_two_pow_sub_one_eq_mod]
      exact hvendor
    refine Triple.ret ?_
    rintro s ⟨hscanned, hpast⟩
    refine ⟨?_, hpast⟩
    rcases hscanned with ⟨hfound, hfunc, hlast⟩ | ⟨hnone, hbefore⟩
    · exact Or.inl ⟨hfound, hfunc, fun bus' dev' hlt hnet =>
        hlast bus' dev' (hnot bus' dev' hlt hnet) hnet⟩
    · exact Or.inr ⟨hnone, fun bus' dev' hlt hnet =>
        hbefore bus' dev' (hnot bus' dev' hlt hnet) hnet⟩

/-- **The scan.** -/
theorem findVirtioNet_spec {net : NetFunction} :
    Triple (probing C hP blocked (Scanned C 0 net)) (findVirtioNet net)
      (fun net => probing C hP blocked (Scanned C (32 * (busMax + 1)) net)) := by
  refine Triple.forLoop (fun bus net => probing C hP blocked (Scanned C (32 * bus) net)) ?_
  intro bus hbus net
  refine Triple.forLoop (fun dev net => probing C hP blocked (Scanned C (32 * bus + dev) net)) ?_
  intro dev hdev net
  -- the loop over functions has one iteration
  have hone : Triple (probing C hP blocked (Scanned C (32 * bus + dev) net))
      (forLoop 1 (fun func net => probeFunction bus dev func net) net)
      (fun net => probing C hP blocked (Scanned C (32 * bus + (dev + 1)) net)) :=
    probeFunction_spec (Nat.le_of_lt_succ hbus) (Nat.le_of_lt_succ hdev)
  exact hone

theorem Scanned.used {net : NetFunction} (h : Scanned C (32 * (busMax + 1)) net) :
    C.Used net.bus net.dev ∧ net.func = 0 := by
  have hall : ∀ {bus dev}, C.NetDevice bus dev → 32 * bus + dev < 32 * (busMax + 1) := by
    rintro bus dev ⟨hbus, hdev, -⟩
    unfold busMax at hbus ⊢
    unfold devMax at hdev
    omega
  rcases h with ⟨hnet, hfunc, hlast⟩ | ⟨rfl, hnone⟩
  · exact ⟨Or.inl ⟨hnet, fun bus dev hnet' => hlast bus dev (hall hnet') hnet'⟩, hfunc⟩
  · exact ⟨Or.inr ⟨rfl, rfl, fun bus dev hnet => hnone bus dev (hall hnet) hnet⟩, rfl⟩

/-- What `read_bar0` returns for the function the scan ends at, and what it leaves in the address
    register. -/
structure Located (C : ConfigSpace) (bus dev : Nat) (r : Nat × Nat) (h : List Event) : Prop where
  used : C.Used bus dev
  isIoSpace : r.2 = (C.word bus dev 0 0x10).toNat % 2
  bar0 : C.IoBar bus dev → r.1 = C.bar0 bus dev
  past : PastIn ConfigPort h
  selected : ∃ address, lastWritten configAddressAddr h = some address ∧
    C.selected address = (C.word bus dev 0 0x10).toNat

/-- The function has been found. -/
def located (C : ConfigSpace) (hP : ∀ a, ConfigPort a → P a) (blocked : Prop) (r : Nat × Nat) :
    Assertion C.host (portSpec Unit P blocked) :=
  { holds := fun s => ∃ bus dev, Located C bus dev r s.past
    stable := by
      rintro s s' hs ⟨-⟩
      exact hs
    always := by
      rintro s ⟨bus, dev, hs⟩
      exact hs.past.mono hP }

/-- The part of `init_virtio` before the ASSERT. -/
def locate : Prog Out (Nat × Nat) := do
  let net ← findVirtioNet { bus := 0, dev := 0, func := 0 }
  readBar0 (UInt8.ofNat net.bus) (UInt8.ofNat net.dev) (UInt8.ofNat net.func)

theorem initVirtio_eq (B : Buffers) :
    initVirtio B = locate >>= fun r => ASSERT (r.2 != 0) "is_io_space" >>= fun _ =>
      startVirtioNet B r.1 := by
  unfold initVirtio locate
  rw [Prog.bind_assoc]

theorem readBar0_spec {bus dev : Nat} (hused : C.Used bus dev) :
    Triple (probing C hP blocked φ) (readBar0 (UInt8.ofNat bus) (UInt8.ofNat dev) (UInt8.ofNat 0))
      (located C hP blocked) := by
  have hrange : bus ≤ 255 ∧ dev ≤ 31 := by
    rcases hused with ⟨⟨hbus, hdev, -⟩, -⟩ | ⟨rfl, rfl, -⟩
    · exact ⟨hbus, hdev⟩
    · exact ⟨Nat.zero_le _, Nat.zero_le _⟩
  have hbus : (UInt8.ofNat bus).toNat = bus := by
    rw [UInt8.toNat_ofNat']
    omega
  have hdev : (UInt8.ofNat dev).toNat % 2 ^ 5 = dev := by
    rw [UInt8.toNat_ofNat']
    omega
  have hselected : C.selected (configAddress (UInt8.ofNat bus) (UInt8.ofNat dev) (UInt8.ofNat 0) 0x10) =
      (C.word bus dev 0 0x10).toNat := by
    rw [selected_configAddress, hbus, hdev]
    rfl
  apply probing_read
  rw [hbus, hdev]
  refine Triple.ret ?_
  rintro s ⟨⟨-, hpast⟩, hlast⟩
  refine ⟨bus, dev, hused, Nat.and_one_is_mod _, ?_, hpast, _, hlast, hselected⟩
  intro hio
  have hodd : ((C.word bus dev 0 0x10).toNat &&& 1 != 0) = true := by
    rw [Nat.and_one_is_mod, show _ % 2 = 1 from hio]
    rfl
  show (if _ then _ else _) = _
  exact (if_pos hodd).trans (and_not_three (UInt32.toNat_lt _))

/-- **The function found and its BAR0.** -/
theorem locate_spec : Triple (probing C hP blocked True) locate (located C hP blocked) := by
  have hscan : Triple (probing C hP blocked True) (findVirtioNet ⟨0, 0, 0⟩)
      (fun net => probing C hP blocked (Scanned C (32 * (busMax + 1)) net)) := by
    refine findVirtioNet_spec.weaken ?_ (fun _ _ hs => hs)
    rintro s ⟨-, hpast⟩
    exact ⟨Or.inr ⟨rfl, fun _ _ hlt => absurd hlt (Nat.not_lt_zero _)⟩, hpast⟩
  apply hscan.bind
  rintro ⟨bus, dev, func⟩
  refine Triple.assume _ (fun s hs => hs.1.used) ?_
  rintro ⟨hused, rfl⟩
  exact readBar0_spec hused

end Scan

/-! ## The ports of the rest -/

section Registers

variable {P : Nat → Prop} {B : Buffers} {queueSize bar0 : Nat}

theorem ASSERT_ports {cond : Bool} {text : String} : PortsIn P (ASSERT cond text) := by
  cases cond with
  | true => exact PortsIn.ret
  | false => exact PortsIn.print.bind (fun _ => PortsIn.hang)

theorem zeroVirtq_ports {q : Nat} : PortsIn P (zeroVirtq queueSize q) :=
  PortsIn.forLoop (fun _ _ _ => PortsIn.store)

theorem storeDesc_ports {q i : Nat} {desc : VirtqDesc} : PortsIn P (storeDesc q i desc) :=
  PortsIn.store.bind (fun _ => PortsIn.store.bind (fun _ => PortsIn.store.bind (fun _ => PortsIn.store)))

theorem negotiate_ports (hP : ∀ r ∈ registers, P (port bar0 r)) : PortsIn P (negotiate bar0) := by
  have hstatus : P (port bar0 offsetStatus) := hP _ (by decide)
  have hread : PortsIn P (ioRead8 (port bar0 offsetStatus)) := PortsIn.ioRead hstatus
  have hwrite : ∀ v, PortsIn P (ioWrite8 (port bar0 offsetStatus) v) := fun _ => PortsIn.ioWrite hstatus
  have hselect : ∀ v, PortsIn P (ioWrite16 (port bar0 offsetQueueSel) v) :=
    fun _ => PortsIn.ioWrite (hP _ (by decide))
  have hsize : PortsIn P (ioRead16 (port bar0 offsetQueueSize)) := PortsIn.ioRead (hP _ (by decide))
  have haddr : ∀ v, PortsIn P (ioWrite32 (port bar0 offsetQueueAddr) v) :=
    fun _ => PortsIn.ioWrite (hP _ (by decide))
  have hputs : ∀ text, PortsIn P (puts text) := fun _ => PortsIn.print
  refine hread.bind (fun _ => (hwrite _).bind (fun _ => ?_))
  refine hread.bind (fun _ => (hwrite _).bind (fun _ => ?_))
  refine PortsIn.bind (PortsIn.ioRead (hP offsetDevFeats (by decide))) (fun _ => ?_)
  refine (hputs _).bind (fun _ => PortsIn.print.bind (fun _ => (hputs _).bind (fun _ => ?_)))
  refine ASSERT_ports.bind (fun _ => ?_)
  refine PortsIn.bind (PortsIn.ioWrite (hP offsetDriverFeats (by decide))) (fun _ => ?_)
  refine hread.bind (fun _ => (hwrite _).bind (fun _ => hread.bind (fun _ => ?_)))
  refine (hputs _).bind (fun _ => PortsIn.print.bind (fun _ => (hputs _).bind (fun _ => ?_)))
  refine ASSERT_ports.bind (fun _ => ?_)
  -- the two queues
  refine (hselect _).bind (fun _ => hsize.bind (fun _ => ?_))
  refine (hputs _).bind (fun _ => PortsIn.print.bind (fun _ => (hputs _).bind (fun _ => ?_)))
  refine (haddr _).bind (fun _ => (hselect _).bind (fun _ => hsize.bind (fun _ => ?_)))
  exact ASSERT_ports.bind (fun _ => (haddr _).bind (fun _ => PortsIn.ret))

theorem offerAll_ports : PortsIn P (offerAll queueSize) := by
  refine zeroVirtq_ports.bind (fun _ => zeroVirtq_ports.bind (fun _ => ?_))
  refine PortsIn.forLoop (fun _ _ _ => ?_)
  exact PortsIn.load.bind (fun _ => PortsIn.store.bind (fun _ =>
    PortsIn.load.bind (fun _ => PortsIn.store)))

theorem finish_ports (hP : ∀ r ∈ registers, P (port bar0 r)) :
    PortsIn P (finish B bar0 queueSize) := by
  have hstatus : P (port bar0 offsetStatus) := hP _ (by decide)
  refine PortsIn.bind (PortsIn.ioWrite (hP offsetQueueNotify (by decide))) (fun _ => ?_)
  refine (PortsIn.forLoop (fun _ _ _ => storeDesc_ports)).bind (fun _ => ?_)
  refine PortsIn.bind (PortsIn.ioRead hstatus) (fun _ => ?_)
  refine PortsIn.bind (PortsIn.ioWrite hstatus) (fun _ => ?_)
  exact PortsIn.print.bind (fun _ => PortsIn.ret)

theorem initVirtioNet_ports (hP : ∀ r ∈ registers, P (port bar0 r)) :
    PortsIn P (initVirtioNet B bar0) := by
  rw [initVirtioNet_eq]
  exact (negotiate_ports hP).bind (fun _ => offerAll_ports.bind (fun _ => finish_ports hP))

theorem registers_lt : ∀ r ∈ registers, r < 26 := by decide

theorem mem_registers_mac : ∀ i < 6, 20 + i ∈ registers := by decide

theorem getMacAddress_ports (hP : ∀ r ∈ registers, P (port bar0 r)) :
    PortsIn P (getMacAddress bar0) := by
  refine PortsIn.forLoop (fun i hi _ => ?_)
  exact (PortsIn.ioRead (hP (20 + i) (mem_registers_mac i hi))).bind (fun _ => PortsIn.ret)

theorem putMac_ports {mac : Nat → UInt8} : PortsIn P (putMac mac) := by
  refine PortsIn.forLoop (fun i _ _ => ?_)
  refine PortsIn.bind ?_ (fun _ => PortsIn.print)
  unfold putColon
  split
  · exact PortsIn.print
  · exact PortsIn.ret

theorem sendPacket_ports {p : Packet} (hP : ∀ r ∈ registers, P (port bar0 r)) :
    PortsIn P (sendPacket B queueSize bar0 p) := by
  have hcopy : ∀ dst n src, PortsIn P (copyBytes dst n src) :=
    fun _ _ _ => PortsIn.forLoop (fun _ _ _ => PortsIn.store)
  refine ASSERT_ports.bind (fun _ => PortsIn.bind ?_ (fun _ => ?_))
  · refine PortsIn.store.bind (fun _ => PortsIn.store.bind (fun _ => PortsIn.store.bind (fun _ => ?_)))
    refine PortsIn.store.bind (fun _ => PortsIn.store.bind (fun _ => PortsIn.store.bind (fun _ => ?_)))
    refine (hcopy _ _ _).bind (fun _ => (hcopy _ _ _).bind (fun _ => PortsIn.store.bind (fun _ => ?_)))
    exact (hcopy _ _ _).bind (fun _ => storeDesc_ports)
  · exact PortsIn.load.bind (fun _ => PortsIn.store.bind (fun _ => PortsIn.store.bind (fun _ =>
      PortsIn.ioWrite (hP offsetQueueNotify (by decide)))))

theorem receivePacket_ports {receiveHead : Nat} :
    PortsIn P (receivePacket queueSize bar0 receiveHead) := by
  have hreport : ∀ i, PortsIn P (reportUsed queueSize i) := by
    intro i
    unfold reportUsed
    split
    · exact PortsIn.fault
    · have hdump : ∀ addr len, PortsIn P (dumpFrame addr len) := fun _ _ => PortsIn.forLoop
        (fun _ _ _ => PortsIn.load.bind (fun _ => PortsIn.print.bind (fun _ => PortsIn.print)))
      have hmore : ∀ len, PortsIn P (putMore len) := by
        intro len
        unfold putMore
        split
        · exact PortsIn.print
        · exact PortsIn.ret
      have hused : ∀ i, PortsIn P (readUsed queueSize virtqRx i) := fun _ => PortsIn.load.bind
        (fun _ => PortsIn.load.bind (fun _ => PortsIn.ret))
      have hdesc : ∀ i, PortsIn P (readDesc virtqRx i) := fun _ => PortsIn.load.bind (fun _ =>
        PortsIn.load.bind (fun _ => PortsIn.load.bind (fun _ => PortsIn.load.bind (fun _ =>
          PortsIn.ret))))
      refine (hused _).bind (fun used => (hdesc _).bind (fun desc => ?_))
      refine PortsIn.print.bind (fun _ => PortsIn.print.bind (fun _ => PortsIn.print.bind (fun _ => ?_)))
      refine PortsIn.print.bind (fun _ => (hdump _ _).bind (fun _ => ?_))
      exact (hmore _).bind (fun _ => PortsIn.print)
  refine PortsIn.await.bind (fun _ => PortsIn.load.bind (fun idx => ?_))
  exact (PortsIn.forLoop (fun j _ _ => hreport _)).bind (fun _ => PortsIn.ret)

/-- **Behind the ASSERT, every port access goes to a register of the device.** -/
theorem startVirtioNet_ports (hP : ∀ r ∈ registers, P (port bar0 r)) :
    PortsIn P (startVirtioNet B bar0) := by
  refine (initVirtioNet_ports hP).bind (fun queueSize => ?_)
  refine (getMacAddress_ports hP).bind (fun mac => ?_)
  refine PortsIn.print.bind (fun _ => PortsIn.print.bind (fun _ => putMac_ports.bind (fun _ => ?_)))
  refine PortsIn.print.bind (fun _ => PortsIn.print.bind (fun _ => PortsIn.print.bind (fun _ => ?_)))
  refine (sendPacket_ports hP).bind (fun _ => PortsIn.print.bind (fun _ => ?_))
  exact PortsIn.print.bind (fun _ => receivePacket_ports.bind (fun _ => PortsIn.ret))

end Registers

/-! ## Every register is accessed -/

section Accesses

variable {C : ConfigSpace} {bar0 : Nat} {L : List Nat} {φ ψ : List Event → Prop}

/-- The answers of a device that completes the handshake. -/
def ConfigSpace.obliging (C : ConfigSpace) : Host Unit :=
  { step := fun _ _ _ _ _ => False
    answers := fun h d n address v => C.host.answers h d n address v ∧ (n = 1 → v = statusFeaturesOk) ∧
      (n = 2 → v = 256) ∧ (n = 4 → address ≠ configDataAddr → v = virtioNetFMac) }

theorem ConfigSpace.obliging_within (C : ConfigSpace) : C.obliging.Within C.host :=
  ⟨fun _ _ _ _ _ h => h.elim, fun _ _ _ _ _ h => h.1⟩

/-- Every read is answered. -/
theorem ConfigSpace.answers (C : ConfigSpace) (h : List Event) (d : Unit) (n a : Nat) :
    ∃ v, C.host.answers h d n a v := by
  cases hlast : lastWritten configAddressAddr h with
  | none =>
      refine ⟨0, ?_⟩
      intro _ _ address haddress
      rw [hlast] at haddress
      cases haddress
  | some address =>
      refine ⟨C.selected address, ?_⟩
      intro _ _ address' haddress
      rw [hlast] at haddress
      cases haddress
      rfl

theorem ConfigSpace.obliging_answers (C : ConfigSpace) (h : List Event) (d : Unit) (n a : Nat) :
    ∃ v, C.obliging.answers h d n a v := by
  by_cases hn : n = 4
  · subst hn
    by_cases ha : a = configDataAddr
    · obtain ⟨v, hv⟩ := C.answers h d 4 a
      exact ⟨v, hv, fun hc => by omega, fun hc => by omega, fun _ hc => absurd ha hc⟩
    · exact ⟨virtioNetFMac, fun _ hc => absurd hc ha, fun hc => by omega, fun hc => by omega,
        fun _ _ => rfl⟩
  by_cases hn₁ : n = 1
  · exact ⟨statusFeaturesOk, fun hc => absurd hc hn, fun _ => rfl, fun hc => by omega,
      fun hc => absurd hc hn⟩
  · exact ⟨256, fun hc => absurd hc hn, fun hc => absurd hc hn₁, fun _ => rfl, fun hc => absurd hc hn⟩

/-- Nothing is asked of the run, but the routine does not stop. -/
def obligingSpec : Spec (State Unit) := { always := fun _ => True, blocked := fun _ => False }

/-- These registers have been accessed, and the history satisfies `φ`. -/
def accessed (C : ConfigSpace) (bar0 : Nat) (L : List Nat) (φ : List Event → Prop) :
    Assertion C.obliging obligingSpec :=
  { holds := fun s => (∀ r ∈ L, ∃ e ∈ s.past, e.port = some (port bar0 r)) ∧ φ s.past
    stable := by
      rintro s s' hs ⟨-⟩
      exact hs
    always := fun _ _ => trivial }

/-- A further access. -/
theorem accessed_snoc {s : State Unit} {e : Event} {r : Nat} (hs : (accessed C bar0 L φ).holds s)
    (he : e.port = some (port bar0 r)) (hψ : ψ (s.past ++ [e])) :
    (accessed C bar0 (r :: L) ψ).holds (s.log e) := by
  refine ⟨?_, hψ⟩
  intro r' hr'
  rcases List.mem_cons.mp hr' with rfl | hmem
  · exact ⟨e, List.mem_append_right _ (List.mem_singleton.mpr rfl), he⟩
  · obtain ⟨e', he', hport⟩ := hs.1 r' hmem
    exact ⟨e', List.mem_append_left _ he', hport⟩

/-- Memory accesses do not matter. -/
theorem accessed_mem {s : State Unit} {e : Event} (hs : (accessed C bar0 L (fun _ => True)).holds s) :
    (accessed C bar0 L (fun _ => True)).holds (s.log e) := by
  refine ⟨fun r hr => ?_, trivial⟩
  obtain ⟨e', he', hport⟩ := hs.1 r hr
  exact ⟨e', List.mem_append_left _ he', hport⟩

theorem accessed_ioRead {n r : Nat} {β : Type} {f : Nat → Prog Out β} (Q : Nat → Prop)
    {X : β → Assertion C.obliging obligingSpec}
    (hψ : ∀ h v, φ h → ψ (h ++ [.ioRead n (port bar0 r) v]))
    (hQ : ∀ h v, φ h → C.obliging.answers h () n (port bar0 r) v → Q (v % 256 ^ n))
    (hf : ∀ v, Q v → Triple (accessed C bar0 (r :: L) ψ) (f v) X) :
    Triple (accessed C bar0 L φ) (Prog.ioRead n (port bar0 r) >>= f) X :=
  Triple.ioRead_each (fun _ => accessed C bar0 (r :: L) ψ)
    (fun _ _ hs _ => accessed_snoc hs rfl (hψ _ _ hs.2)) (fun _ _ hs hv => hf _ (hQ _ _ hs.2 hv))

theorem accessed_ioWrite {n r v : Nat} (hψ : ∀ h, φ h → ψ (h ++ [.ioWrite n (port bar0 r) v])) :
    Triple (accessed C bar0 L φ) (Prog.ioWrite n (port bar0 r) v : Prog Out Unit)
      (fun _ => accessed C bar0 (r :: L) ψ) :=
  Triple.ioWrite (fun _ hs => accessed_snoc hs rfl (hψ _ hs.2))

/-- A read whose answer does not matter. -/
theorem accessed_skip {n r : Nat} {β : Type} {f : Nat → Prog Out β}
    {X : β → Assertion C.obliging obligingSpec}
    (hf : ∀ v, Triple (accessed C bar0 (r :: L) (fun _ => True)) (f v) X) :
    Triple (accessed C bar0 L (fun _ => True)) (Prog.ioRead n (port bar0 r) >>= f) X :=
  accessed_ioRead (fun _ => True) (fun _ _ _ => trivial) (fun _ _ _ _ => trivial) (fun v _ => hf v)

theorem accessed_write {n r v : Nat} :
    Triple (accessed C bar0 L (fun _ => True)) (Prog.ioWrite n (port bar0 r) v : Prog Out Unit)
      (fun _ => accessed C bar0 (r :: L) (fun _ => True)) :=
  accessed_ioWrite (fun _ _ => trivial)

theorem accessed_load {a n : Nat} :
    Triple (accessed C bar0 L (fun _ => True)) (Prog.load a n : Prog Out Nat)
      (fun _ => accessed C bar0 L (fun _ => True)) :=
  Triple.load trivial (fun _ hs => accessed_mem hs)

theorem accessed_store {a n v : Nat} :
    Triple (accessed C bar0 L (fun _ => True)) (Prog.store a n v : Prog Out Unit)
      (fun _ => accessed C bar0 L (fun _ => True)) :=
  Triple.store trivial (fun _ hs => accessed_mem hs)

/-- Loops over memory access no register. -/
theorem accessed_loop {k : Nat} {body : Nat → Unit → Prog Out Unit}
    (hbody : ∀ i, Triple (accessed C bar0 L (fun _ => True)) (body i ())
      (fun _ => accessed C bar0 L (fun _ => True))) :
    Triple (accessed C bar0 L (fun _ => True)) (forLoop k body ())
      (fun _ => accessed C bar0 L (fun _ => True)) :=
  Triple.forLoop (fun _ _ => accessed C bar0 L (fun _ => True)) (fun i _ _ => hbody i)

/-- If the feature word is read from the data port of configuration space, it will show MAC. -/
def Offering (C : ConfigSpace) (bar0 : Nat) (h : List Event) : Prop :=
  port bar0 offsetDevFeats = configDataAddr → ∃ address,
    lastWritten configAddressAddr h = some address ∧ C.selected address < 2 ^ 32 ∧
      C.selected address &&& virtioNetFMac ≠ 0

/-- No access to the status register changes that. -/
theorem Offering.status {h : List Event} {v : Nat} (hh : Offering C bar0 h) :
    Offering C bar0 (h ++ [.ioRead 1 (port bar0 offsetStatus) v]) ∧
      Offering C bar0 (h ++ [.ioWrite 1 (port bar0 offsetStatus) v]) := by
  constructor
  · intro hport
    rw [lastWritten_read]
    exact hh hport
  · intro hport
    rw [lastWritten_other]
    · exact hh hport
    · revert hport
      unfold port offsetDevFeats offsetStatus configDataAddr configAddressAddr
      omega

theorem negotiate_accesses :
    Triple (accessed C bar0 [] (Offering C bar0)) (negotiate bar0)
      (fun _ => accessed C bar0 [offsetDevFeats, offsetDriverFeats, offsetQueueAddr, offsetQueueSize,
        offsetQueueSel, offsetStatus] (fun _ => True)) := by
  refine accessed_ioRead (fun _ => True) (fun _ _ hh => hh.status.1) (fun _ _ _ _ => trivial) ?_
  intro _ _
  refine (accessed_ioWrite (fun _ hh => hh.status.2)).bind (fun _ => ?_)
  refine accessed_ioRead (fun _ => True) (fun _ _ hh => hh.status.1) (fun _ _ _ _ => trivial) ?_
  intro _ _
  refine (accessed_ioWrite (fun _ hh => hh.status.2)).bind (fun _ => ?_)
  refine accessed_ioRead (ψ := fun _ => True) (fun v => v &&& virtioNetFMac ≠ 0)
    (fun _ _ _ => trivial) ?_ ?_
  · rintro h v hoffering ⟨hanswer, -, -, hmac⟩
    -- the data port of configuration space answers for itself, the device for every other port
    by_cases hport : port bar0 offsetDevFeats = configDataAddr
    · obtain ⟨address, hlast, hlt, hselected⟩ := hoffering hport
      rw [hanswer rfl hport address hlast, show 256 ^ 4 = 2 ^ 32 from rfl, Nat.mod_eq_of_lt hlt]
      exact hselected
    · rw [hmac rfl hport]
      decide
  intro features hfeatures
  refine labelled_spec (fun _ _ hs => hs) ?_
  refine ASSERT_spec (fun _ _ hs => hs) (fun hfail _ => hfeatures (by simpa using hfail)) (fun _ => ?_)
  refine accessed_write.bind (fun _ => ?_)
  refine accessed_skip (fun _ => ?_)
  refine accessed_write.bind (fun _ => ?_)
  refine accessed_ioRead (ψ := fun _ => True) (fun v => v = statusFeaturesOk) (fun _ _ _ => trivial) ?_ ?_
  · rintro h v - ⟨-, hstatus, -⟩
    rw [hstatus rfl]
    decide
  rintro _ rfl
  refine labelled_spec (fun _ _ hs => hs) ?_
  refine ASSERT_spec (fun _ _ hs => hs) (fun hfail => absurd hfail (by decide)) (fun _ => ?_)
  have hsize : ∀ h v, True → C.obliging.answers h () 2 (port bar0 offsetQueueSize) v →
      v % 256 ^ 2 = 256 := by
    rintro h v - ⟨-, -, hsize, -⟩
    rw [hsize rfl]
    decide
  -- the two queues, of the same size
  refine accessed_write.bind (fun _ => ?_)
  refine accessed_ioRead (ψ := fun _ => True) (fun v => v = 256) (fun _ _ _ => trivial) hsize ?_
  rintro _ rfl
  refine labelled_spec (fun _ _ hs => hs) ?_
  refine accessed_write.bind (fun _ => ?_)
  refine accessed_write.bind (fun _ => ?_)
  refine accessed_ioRead (ψ := fun _ => True) (fun v => v = 256) (fun _ _ _ => trivial) hsize ?_
  rintro _ rfl
  refine ASSERT_spec (fun _ _ hs => hs) (fun hfail => absurd hfail (by decide)) (fun _ => ?_)
  refine accessed_write.bind (fun _ => ?_)
  exact Triple.ret (fun s hs => ⟨fun r hr => hs.1 r (by revert r; decide), trivial⟩)

theorem offerAll_accesses {queueSize : Nat} :
    Triple (accessed C bar0 L (fun _ => True)) (offerAll queueSize)
      (fun _ => accessed C bar0 L (fun _ => True)) := by
  refine (accessed_loop (fun _ => accessed_store)).bind (fun _ => ?_)
  refine (accessed_loop (fun _ => accessed_store)).bind (fun _ => ?_)
  exact accessed_loop (fun _ => accessed_load.bind (fun _ => accessed_store.bind (fun _ =>
    accessed_load.bind (fun _ => accessed_store))))

theorem finish_accesses {B : Buffers} {queueSize : Nat} :
    Triple (accessed C bar0 L (fun _ => True)) (finish B bar0 queueSize)
      (fun _ => accessed C bar0 (offsetQueueNotify :: L) (fun _ => True)) := by
  refine accessed_write.bind (fun _ => ?_)
  refine (accessed_loop (fun _ => ?_)).bind (fun _ => ?_)
  · exact accessed_store.bind (fun _ => accessed_store.bind (fun _ => accessed_store.bind (fun _ =>
      accessed_store)))
  refine accessed_skip (fun _ => ?_)
  refine accessed_write.bind (fun _ => ?_)
  refine print_silent.bind (fun _ => Triple.ret (fun s hs => ⟨fun r hr => hs.1 r ?_, trivial⟩))
  exact List.mem_cons_of_mem _ (List.mem_cons_of_mem _ hr)

/-- The bytes of the MAC address are read one by one. -/
theorem getMacAddress_accesses :
    Triple (accessed C bar0 L (fun _ => True)) (getMacAddress bar0)
      (fun _ => accessed C bar0 ((List.range 6).map (20 + ·) ++ L) (fun _ => True)) := by
  refine Triple.forLoop
    (fun i _ => accessed C bar0 ((List.range i).map (20 + ·) ++ L) (fun _ => True)) ?_
  intro i _ _
  refine accessed_skip (fun _ => ?_)
  refine Triple.ret (fun s hs => ⟨fun r hr => hs.1 r ?_, trivial⟩)
  rw [List.range_succ, List.map_append, List.append_assoc] at hr
  rcases List.mem_append.mp hr with hmem | hmem
  · exact List.mem_cons_of_mem _ (List.mem_append_left _ hmem)
  · rcases List.mem_cons.mp hmem with rfl | hmem
    · exact List.mem_cons_self
    · exact List.mem_cons_of_mem _ (List.mem_append_right _ hmem)

/-- **Each of the registers is accessed** in some run of the rest of the routine. -/
theorem registers_accessed {B : Buffers} {u : State Unit} (hu : Offering C bar0 u.past) :
    ∃ (p : Prog Out Unit) (s : State Unit), Interleaves C.host (startVirtioNet B bar0, u) (p, s) ∧
      ∀ r ∈ registers, ∃ e ∈ s.past, e.port = some (port bar0 r) := by
  have hinit : Triple (accessed C bar0 [] (Offering C bar0)) (initVirtioNet B bar0)
      (fun _ => accessed C bar0 (offsetQueueNotify :: [offsetDevFeats, offsetDriverFeats,
        offsetQueueAddr, offsetQueueSize, offsetQueueSel, offsetStatus]) (fun _ => True)) := by
    rw [initVirtioNet_eq]
    exact negotiate_accesses.bind (fun _ => offerAll_accesses.bind (fun _ => finish_accesses))
  obtain ⟨rest, hrest⟩ : ∃ rest : Nat → (Nat → UInt8) → Prog Out Unit,
      startVirtioNet B bar0 = initVirtioNet B bar0 >>= fun queueSize =>
        getMacAddress bar0 >>= rest queueSize := ⟨_, rfl⟩
  obtain ⟨queueSize, u₁, hrun₁, hpast₁⟩ :=
    (hinit.safe u ⟨fun _ hr => absurd hr List.not_mem_nil, hu⟩).returns
      (fun s => C.obliging_answers s.past s.dev)
      (Spec.patient_of_unblocked (fun _ => not_false) not_false) not_false
  obtain ⟨mac, u₂, hrun₂, hpast₂, -⟩ :=
    (getMacAddress_accesses.safe u₁ hpast₁).returns
      (fun s => C.obliging_answers s.past s.dev)
      (Spec.patient_of_unblocked (fun _ => not_false) not_false) not_false
  refine ⟨rest queueSize mac, u₂, ?_, fun r hr => hpast₂ r (by revert r; decide)⟩
  rw [hrest]
  exact C.obliging_within.interleaves (((Interleaves.of_run hrun₁).bind _).trans
    ((Interleaves.of_run hrun₂).bind (rest queueSize)))

end Accesses

/-! ## Main results -/

section Main

variable {C : ConfigSpace} {B : Buffers} {m : Mem} {bus dev : Nat}

/-- A history whose ports are allowed is confined. -/
theorem confined_of_ports {h : List Event}
    (hports : PastIn (fun a => ConfigPort a ∨ C.NetPort a) h) : C.Confined h := by
  refine ⟨hports, ?_⟩
  intro hnone n a v hmem
  rcases hports _ hmem a rfl with hconfig | ⟨bus, dev, _, hnet, hio, -⟩
  · exact hconfig
  · exact absurd ⟨bus, dev, hnet, hio⟩ hnone

theorem probing_start {P : Nat → Prop} {hP : ∀ a, ConfigPort a → P a} {blocked : Prop} :
    (probing C hP blocked True).holds ⟨m, (), []⟩ :=
  ⟨trivial, fun _ he => by cases he⟩

/-- The ASSERT passes exactly if the function found has an I/O BAR. -/
theorem Located.ioBar {r : Nat × Nat} {h : List Event} (hr : Located C bus dev r h) :
    (r.2 != 0) = true ↔ C.IoBar bus dev := by
  rw [hr.isIoSpace, bne_iff_ne, ConfigSpace.IoBar]
  omega

/-- A machine where the condition holds makes accesses to allowed ports only. -/
theorem initVirtio_ports (hgood : ∀ bus dev, C.Used bus dev → C.IoBar bus dev →
      C.NetDevice bus dev ∧ C.Covered (C.bar0 bus dev)) :
    Triple (probing C (fun _ => Or.inl) True True) (initVirtio B)
      (fun _ => Assertion.pastIn C.host (fun a => ConfigPort a ∨ C.NetPort a)) := by
  rw [initVirtio_eq]
  apply locate_spec.bind
  rintro ⟨bar0, isIoSpace⟩
  refine Triple.assume (∃ bus dev h, Located C bus dev (bar0, isIoSpace) h)
    (fun s ⟨bus, dev, hs⟩ => ⟨bus, dev, s.past, hs⟩) ?_
  rintro ⟨bus, dev, _, hloc⟩
  refine ASSERT_spec (fun _ _ hs => hs) (fun _ _ => trivial) (fun hpass => ?_)
  refine PortsIn.triple (startVirtioNet_ports ?_)
  have hio : C.IoBar bus dev := hloc.ioBar.mp hpass
  obtain ⟨hnet, hcovered⟩ := hgood bus dev hloc.used hio
  have hbar0 : bar0 = C.bar0 bus dev := hloc.bar0 hio
  subst hbar0
  intro r hr
  by_cases hfit : 2 ^ 16 ≤ C.bar0 bus dev + r
  · exact hcovered r hr hfit
  · exact Or.inr ⟨bus, dev, r, hnet, hio, registers_lt r hr, Nat.mod_eq_of_lt (by omega)⟩

/-- The word of a BAR0 that makes the feature register the data port of configuration space has the bit
    that stands for MAC. -/
theorem offering_bar0 {h : List Event} {address : Nat}
    (hlast : lastWritten configAddressAddr h = some address)
    (hselected : C.selected address = (C.word bus dev 0 0x10).toNat) :
    Offering C (C.bar0 bus dev) h := by
  intro hport
  have hlt := (C.word bus dev 0 0x10).toNat_lt
  refine ⟨address, hlast, by omega, ?_⟩
  rw [hselected, show virtioNetFMac = 2 ^ 5 from rfl, Nat.and_two_pow]
  have hbit : (C.word bus dev 0 0x10).toNat.testBit 5 = true := by
    rw [Nat.testBit_eq_decide_div_mod_eq]
    simp only [port, offsetDevFeats, configDataAddr, ConfigSpace.bar0] at hport
    simp only [decide_eq_true_eq]
    omega
  rw [hbit]
  decide

/-- **Behind the ASSERT all the registers are accessed**, whatever function they belong to. -/
theorem stray_accesses (hused : C.Used bus dev) (hio : C.IoBar bus dev) :
    ∃ (p : Prog Out Unit) (s : State Unit), Interleaves C.host (initVirtio B, ⟨m, (), []⟩) (p, s) ∧
      ∀ r ∈ registers, ∃ e ∈ s.past, e.port = some (port (C.bar0 bus dev) r) := by
  have hstart : (probing C (P := ConfigPort) (fun _ h => h) False True).holds ⟨m, (), []⟩ :=
    probing_start
  obtain ⟨⟨bar0, isIoSpace⟩, u, hrun, bus', dev', hloc⟩ :=
    (locate_spec.safe _ hstart).returns (fun s => C.answers s.past s.dev)
      (Spec.patient_of_unblocked (fun _ => not_false) not_false) not_false
  obtain ⟨rfl, rfl⟩ := hused.unique hloc.used
  have hbar : bar0 = C.bar0 bus dev := hloc.bar0 hio
  subst hbar
  have hrun' := (Interleaves.of_run hrun).bind (fun r => ASSERT (r.2 != 0) "is_io_space" >>= fun _ =>
    startVirtioNet B r.1)
  rw [← initVirtio_eq] at hrun'
  have hgo : (ASSERT (isIoSpace != 0) "is_io_space" >>= fun _ =>
      startVirtioNet B (C.bar0 bus dev)) = startVirtioNet B (C.bar0 bus dev) := by
    rw [show (isIoSpace != 0) = true from hloc.ioBar.mpr hio]
    rfl
  have hat : Interleaves C.host (initVirtio B, ⟨m, (), []⟩) (startVirtioNet B (C.bar0 bus dev), u) := by
    rw [← hgo]
    exact hrun'
  obtain ⟨address, hlast, hselected⟩ := hloc.selected
  obtain ⟨p, s, hrest, hall⟩ := registers_accessed (B := B) (offering_bar0 hlast hselected)
  exact ⟨p, s, hat.trans hrest, hall⟩

/-- The port of the status register is no configuration port. -/
theorem status_not_configPort : ¬ ConfigPort (port (C.bar0 bus dev) offsetStatus) := by
  unfold ConfigPort configAddressAddr configDataAddr port ConfigSpace.bar0 offsetStatus
  omega

/-- Where the accesses are confined, the function used is a network device and its registers are
    covered. -/
theorem covered_of_confined
    (h : ∀ (p : Prog Out Unit) (s : State Unit),
      Interleaves C.host (initVirtio B, ⟨m, (), []⟩) (p, s) → C.Confined s.past)
    (hused : C.Used bus dev) (hio : C.IoBar bus dev) :
    C.NetDevice bus dev ∧ C.Covered (C.bar0 bus dev) := by
  obtain ⟨p, s, hrun, hall⟩ := stray_accesses (B := B) (m := m) hused hio
  have hports : ∀ r ∈ registers, ConfigPort (port (C.bar0 bus dev) r) ∨
      C.NetPort (port (C.bar0 bus dev) r) := by
    intro r hr
    obtain ⟨e, he, hport⟩ := hall r hr
    exact (h p s hrun).ports e he _ hport
  refine ⟨?_, fun r hr _ => hports r hr⟩
  rcases hused with ⟨hnet, -⟩ | ⟨-, -, hnone⟩
  · exact hnet
  · rcases hports offsetStatus (by decide) with hconfig | ⟨bus', dev', _, hnet, -⟩
    · exact absurd hconfig status_not_configPort
    · exact absurd hnet (hnone bus' dev')

/-- **Which machines are safe.** Every port access of every run of `init_virtio` goes to configuration
    space or to a register of a virtio network device with an I/O BAR, exactly if the function the
    routine goes on with either has no I/O BAR or is a network device whose registers have 16-bit
    addresses, or ones that fall on an allowed port when they are cut down. -/
theorem confined_iff (C : ConfigSpace) (B : Buffers) (m : Mem) :
    (∀ (p : Prog Out Unit) (s : State Unit),
        Interleaves C.host (initVirtio B, ⟨m, (), []⟩) (p, s) → C.Confined s.past) ↔
      ∀ bus dev, C.Used bus dev → C.IoBar bus dev →
        C.NetDevice bus dev ∧ C.Covered (C.bar0 bus dev) := by
  constructor
  · intro h bus dev hused hio
    exact covered_of_confined h hused hio
  · intro hgood p s hr
    exact confined_of_ports (((initVirtio_ports hgood).safe ⟨m, (), []⟩ probing_start).interleaves hr).always

/-- A BAR0 whose registers all have 16-bit addresses. -/
theorem covered_of_fits {bar0 : Nat} (h : bar0 + 26 ≤ 2 ^ 16) : C.Covered bar0 := by
  intro r hr hwide
  have hoffset := registers_lt r hr
  omega

/-- **Network devices whose I/O BARs fit into 16 bits** are all that is accessed, if there is one. -/
theorem confined_of_fits (B : Buffers) (m : Mem) (hnet : C.NetDevice bus dev)
    (hfits : ∀ bus dev, C.NetDevice bus dev → C.bar0 bus dev + 26 ≤ 2 ^ 16) {p : Prog Out Unit}
    {s : State Unit} (hrun : Interleaves C.host (initVirtio B, ⟨m, (), []⟩) (p, s)) :
    C.Confined s.past := by
  have hgood : ∀ bus dev, C.Used bus dev → C.IoBar bus dev →
      C.NetDevice bus dev ∧ C.Covered (C.bar0 bus dev) := by
    rintro bus' dev' (⟨hused, -⟩ | ⟨-, -, hnone⟩) _
    · exact ⟨hused, covered_of_fits (hfits bus' dev' hused)⟩
    · exact absurd hnet (hnone bus dev)
  exact confined_of_ports (((initVirtio_ports hgood).safe ⟨m, (), []⟩ probing_start).interleaves hrun).always

/-- A machine with an empty bus: every word of configuration space reads as ones. -/
def emptyBus : ConfigSpace := { word := fun _ _ _ _ => 0xFFFFFFFF }

theorem emptyBus_none (bus dev : Nat) : ¬ emptyBus.NetDevice bus dev :=
  fun hnet => absurd hnet.2.2.1 (by decide : ¬ 0xFFFFFFFF % 2 ^ 16 = virtioNetVendorId)

/-- **Ports of no device are accessed where there is none.** -/
theorem empty_bus_accessed :
    ¬ ∀ (p : Prog Out Unit) (s : State Unit),
      Interleaves emptyBus.host (initVirtio sampleBuffers, ⟨fun _ => 0, (), []⟩) (p, s) →
      emptyBus.Confined s.past := by
  intro h
  have hused : emptyBus.Used 0 0 := Or.inr ⟨rfl, rfl, emptyBus_none⟩
  exact emptyBus_none 0 0 (covered_of_confined h hused rfl).1

end Main

end Virtio
end SysproKernel

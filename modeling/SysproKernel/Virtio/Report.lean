import SysproKernel.Lib.Observe
import SysproKernel.Lib.Reading
import SysproKernel.Terminal.Buffer
import SysproKernel.Terminal.Hex
import SysproKernel.Virtio.Receive

/-!
# `Virtio.Report` — what one call of `receive_packet` reads and prints

Between two moves of the device memory stands still, and `receive_packet` does nothing but load and print:
`receivePacket_observed` lists its actions. Two things are not as they should be.

`used.idx` counts modulo `2^16`, and the loop compares it as an `int` with the index of the first element.
A call during which the counter has wrapped reports nothing and loses its elements
(`used_counter_followed_iff`).

The dump ends after 256 bytes of the frame, and `...(more)` is printed when `used.len`, which counts the
ten bytes of the header too, is above 256. So it is also printed for frames of 247 to 256 bytes, all of
which have been printed (`dump_faithful_iff`). The text itself can always be read back.
-/

namespace SysproKernel
namespace Virtio

open Lib.ByteMem Lib.Loop Lib.Driver Lib.Observe Lib.Reading
open Terminal (HexBuf OutOfBuf callsChars callsChars_eq literal outText hexText hexValue newline)

/-! ## The actions of a call -/

/-- `virtq_used_elem used = VIRTQ_USED(q).ring[i];` -/
def usedLoads (queueSize q i : Nat) : List (Action Out) :=
  [.load (usedRing queueSize q i) 4, .load (usedRing queueSize q i + 4) 4]

/-- `virtq_desc desc = VIRTQ_DESC(q)[i];` -/
def descLoads (q i : Nat) : List (Action Out) :=
  [.load (virtqDesc q i) 8, .load (virtqDesc q i + 8) 4, .load (virtqDesc q i + 12) 2,
    .load (virtqDesc q i + 14) 2]

/-- One byte of the dump. -/
def byteActions (m : Mem) (addr i : Nat) : List (Action Out) :=
  [.load (addr + (i + sizeofVirtioNetHdr)) 1,
    .print (.puth (load m (addr + (i + sizeofVirtioNetHdr)) 1) 2), .print (.puts (separator i))]

/-- The report of the element in one slot of the used ring. -/
def reportActions (m : Mem) (queueSize slot : Nat) : List (Action Out) :=
  let used := loadUsed m queueSize virtqRx slot
  let desc := loadDesc m virtqRx used.id
  usedLoads queueSize virtqRx slot ++ descLoads virtqRx used.id ++
    [.print (.puts "length of ethernet frame: "),
      .print (.puth ((used.len + (2 ^ 64 - sizeofVirtioNetHdr)) % 2 ^ 64) 4), .print (.puts "\n"),
      .print (.puts "content:\n")] ++
    (List.range (shownLen used.len)).flatMap (byteActions m desc.addr) ++
    (if used.len > 0x100 then [.print (.puts "...(more)\n")] else []) ++ [.print (.puts "\n")]

variable {queueSize bar0 head n i : Nat} {m : Mem}

theorem readUsed_observed (m : Mem) (queueSize q i : Nat) :
    Observed m (readUsed queueSize q i) (loadUsed m queueSize q i) (usedLoads queueSize q i) := ⟨rfl⟩

theorem readDesc_observed (m : Mem) (q i : Nat) :
    Observed m (readDesc q i) (loadDesc m q i) (descLoads q i) := ⟨rfl⟩

theorem dumpFrame_observed (m : Mem) (addr len : Nat) :
    Observed m (dumpFrame addr len) () ((List.range (shownLen len)).flatMap (byteActions m addr)) :=
  Observed.forLoop (byteActions m addr) (fun _ _ => ⟨rfl⟩)

theorem putMore_observed (m : Mem) (len : Nat) :
    Observed m (putMore len) () (if len > 0x100 then [.print (.puts "...(more)\n")] else []) := by
  unfold putMore
  split
  · exact .print m _
  · exact .ret m ()

/-- **One report.** -/
theorem reportUsed_observed (hpos : queueSize ≠ 0) (m : Mem) (i : Nat) :
    Observed m (reportUsed queueSize i) () (reportActions m queueSize (i % queueSize)) := by
  unfold reportUsed reportActions
  rw [if_neg hpos]
  simp only [List.append_assoc]
  refine (readUsed_observed m queueSize virtqRx (i % queueSize)).bind ?_
  refine (readDesc_observed m virtqRx _).bind ?_
  -- the length
  refine Observed.bind (t := [_]) (.print m _) ?_
  refine Observed.bind (t := [_]) (.print m _) ?_
  refine Observed.bind (t := [_]) (.print m _) ?_
  -- the content
  refine Observed.bind (t := [_]) (.print m _) ?_
  refine (dumpFrame_observed m _ _).bind ?_
  exact (putMore_observed m _).bind (.print m _)

/-- The loads of `used.idx` before the loop. -/
def indexLoads (queueSize : Nat) : List (Action Out) :=
  [.load (usedIdx queueSize virtqRx) 2, .load (usedIdx queueSize virtqRx) 2]

/-- **One call**, once `used.idx` is not `receive_head`. -/
theorem receivePacket_observed (bar0 : Nat) (hpos : queueSize ≠ 0)
    (hready : load m (usedIdx queueSize virtqRx) 2 ≠ head) :
    Observed m (receivePacket queueSize bar0 head) (load m (usedIdx queueSize virtqRx) 2)
      (indexLoads queueSize ++ (List.range (load m (usedIdx queueSize virtqRx) 2 - head)).flatMap
        (fun j => reportActions m queueSize ((head + j) % queueSize))) := by
  have hloop : Observed m (forLoop (load m (usedIdx queueSize virtqRx) 2 - head)
      (fun j _ => reportUsed queueSize (head + j)) ()) () _ :=
    Observed.forLoop (fun j => reportActions m queueSize ((head + j) % queueSize))
      (fun j _ => reportUsed_observed hpos m (head + j))
  unfold receivePacket
  refine Observed.bind (t := [_]) (.await (by simpa using hready)) ?_
  refine Observed.bind (t := [_]) (.load m _ 2) ?_
  exact hloop.map (f := fun _ => load m (usedIdx queueSize virtqRx) 2)

/-! ## The free-running counter -/

/-- **A call that follows the counter** over the `n` elements behind `head`. -/
structure FollowsCounter (queueSize bar0 head n : Nat) (m : Mem) : Prop where
  /-- it reads and reports the `n` slots in order -/
  actions : observe m (receivePacket queueSize bar0 head) = some ((head + n) % 0x10000,
    indexLoads queueSize ++ (List.range n).flatMap
      (fun j => reportActions m queueSize ((head + j) % queueSize)))
  /-- in every run it prints the `n` reports, and `receive_head` becomes `used.idx` -/
  runs : ∀ (δ : Type) (E : Env δ), Still E → ∀ w head' u, w.mem = m →
    Interleaves E (receivePacket queueSize bar0 head, w) (.ret head', u) →
      head' = load m (usedIdx queueSize virtqRx) 2 ∧
        u.out = w.out ++ (List.range n).flatMap
          (fun j => printed (reportActions m queueSize ((head + j) % queueSize)))

/-- **When the counter is followed**: as long as it does not wrap. -/
theorem used_counter_followed_iff (bar0 : Nat) {queueSize head n : Nat} {m : Mem}
    (hhead : head < 0x10000) (hpos : 1 ≤ n) (hn : n ≤ queueSize) (hword : n < 0x10000)
    (hidx : load m (usedIdx queueSize virtqRx) 2 = (head + n) % 0x10000) :
    FollowsCounter queueSize bar0 head n m ↔ head + n < 0x10000 := by
  have hready : load m (usedIdx queueSize virtqRx) 2 ≠ head := by omega
  have hobserved := receivePacket_observed bar0 (by omega : queueSize ≠ 0) hready
  constructor
  · intro hfollows
    by_contra hwrapped
    -- the loop ends before it begins
    have hnone : load m (usedIdx queueSize virtqRx) 2 - head = 0 := by omega
    have hactions := hfollows.actions
    rw [hobserved.eq, hnone] at hactions
    have hsame := List.append_cancel_left (congrArg Prod.snd (Option.some.inj hactions))
    have hfirst := List.flatMap_eq_nil_iff.mp hsame.symm 0 (List.mem_range.mpr hpos)
    cases hfirst
  · intro hlt
    have hcount : load m (usedIdx queueSize virtqRx) 2 - head = n := by omega
    rw [hcount] at hobserved
    refine ⟨?_, ?_⟩
    · rw [← hidx]
      exact hobserved.eq
    · intro δ E hstill w head' u hmem hrun
      subst hmem
      obtain ⟨hret, hout⟩ := hobserved.interleaves hstill hrun
      refine ⟨hret, hout.trans ?_⟩
      rw [printed_append, printed_flatMap]
      rfl

/-- Index 65535 lies in the next to last slot of a queue of 256 entries. -/
theorem used_counter_followed_below : ∃ m : Mem, load m (usedIdx 256 virtqRx) 2 = 65535 ∧
    FollowsCounter 256 0xc000 65534 1 m := by
  have hidx : load (store (fun _ => 0) (usedIdx 256 virtqRx) 2 65535) (usedIdx 256 virtqRx) 2 = 65535 :=
    load_store_self _ _ 2 65535
  exact ⟨_, hidx, (used_counter_followed_iff 0xc000 (by decide) (by decide) (by decide) (by decide)
    hidx).mpr (by decide)⟩

/-- **The element before the wrap is lost**: `used.idx` is 0 behind it. -/
theorem used_counter_wrapped : ¬ ∀ queueSize head n m, head < 0x10000 → 1 ≤ n → n ≤ queueSize →
    n < 0x10000 → load m (usedIdx queueSize virtqRx) 2 = (head + n) % 0x10000 →
      FollowsCounter queueSize 0xc000 head n m := by
  intro hall
  have hidx : load (fun _ => 0) (usedIdx 256 virtqRx) 2 = 0 := load_zero (fun _ _ => rfl)
  have hactions := (hall 256 65535 1 (fun _ => 0) (by decide) (by decide) (by decide) (by decide)
    hidx).actions
  rw [(receivePacket_observed 0xc000 (by decide) (by rw [hidx]; decide)).eq, hidx] at hactions
  have hsame := List.append_cancel_left (congrArg Prod.snd (Option.some.inj hactions))
  cases hsame

/-! ## Reading the dump back -/

/-- A byte of the dump and what separates it from the next. -/
def readByte : Reader Int8 Nat := do
  let digits ← take 2
  let byte ← ofOption (hexValue digits)
  let _ ← take 1
  return byte

/-- The length and the bytes of the frame, up to the end of the dump. -/
def readDump : Reader Int8 (Nat × List Nat) := do
  expect (literal "length of ethernet frame: ")
  let digits ← takeUntil newline
  let length ← ofOption (hexValue digits)
  expect (literal "content:\n")
  let bytes ← each (fun _ => readByte) (min length 0x100)
  return (length, bytes)

/-- The report of slot `i` printed `out`, in some run with memory `m` beside a device that left it
    alone. -/
def Dumped (queueSize i : Nat) (m : Mem) (out : List Out) : Prop :=
  ∃ (δ : Type) (E : Env δ) (w u : World Out δ), Still E ∧ w.mem = m ∧
    Interleaves E (reportUsed queueSize i, w) (.ret (), u) ∧ u.out = w.out ++ out

/-- **A faithful dump.** -/
structure DumpFaithful (queueSize i : Nat) (m : Mem) : Prop where
  /-- the length and the first 256 bytes of the frame can be read back from the text -/
  decodes : ∀ out, Dumped queueSize i m out → ∀ buf, ∃ text buf',
    callsChars buf out = .ok (text, buf') ∧
    readDump.run' text = some ((loadUsed m queueSize virtqRx (i % queueSize)).len - sizeofVirtioNetHdr,
      (List.range (min ((loadUsed m queueSize virtqRx (i % queueSize)).len - sizeofVirtioNetHdr)
        0x100)).map fun k =>
          (m ((loadDesc m virtqRx (loadUsed m queueSize virtqRx (i % queueSize)).id).addr +
            (k + sizeofVirtioNetHdr))).toNat)
  /-- `...(more)` stands for bytes that are not shown -/
  more : ∀ out, Dumped queueSize i m out → (.puts "...(more)\n" ∈ out ↔
    0x100 < (loadUsed m queueSize virtqRx (i % queueSize)).len - sizeofVirtioNetHdr)

theorem hexText_no_newline (value digitsLen : Nat) : newline ∉ hexText value digitsLen := by
  have hall : ∀ d : Fin 16, Terminal.tohexchar d ≠ newline := by decide
  intro hmem
  obtain ⟨d, hd, heq⟩ := List.mem_map.mp hmem
  exact hall ⟨d, Terminal.padded_lt hd⟩ heq

theorem separator_length (i : Nat) : (literal (separator i)).length = 1 := by
  unfold separator
  split <;> rfl

theorem readByte_reads {byte : Nat} (h : byte < 256) (i : Nat) :
    Reads readByte (hexText byte 2 ++ literal (separator i)) byte := by
  have hlength : (hexText byte 2).length = 2 := by
    have hle := Terminal.hexDigits_length_le (k := 2) (by decide) h
    rw [Terminal.hexText_length]
    omega
  refine (Reads.take hlength).bind ?_
  have hvalue : Reads (ofOption (Terminal.hexValue (hexText byte 2)) : Reader Int8 Nat) [] byte :=
    .ofOption (Terminal.hexValue_hexText byte 2)
  exact hvalue.bind ((Reads.take (separator_length i)).map (f := fun _ => byte))

/-- What a report prints. -/
theorem printed_reportActions (m : Mem) (queueSize slot : Nat) :
    printed (reportActions m queueSize slot) =
      let used := loadUsed m queueSize virtqRx slot
      let desc := loadDesc m virtqRx used.id
      [.puts "length of ethernet frame: ",
        .puth ((used.len + (2 ^ 64 - sizeofVirtioNetHdr)) % 2 ^ 64) 4, .puts "\n", .puts "content:\n"] ++
      ((List.range (shownLen used.len)).flatMap (fun i =>
        [.puth (load m (desc.addr + (i + sizeofVirtioNetHdr)) 1) 2, .puts (separator i)]) ++
      ((if used.len > 0x100 then [.puts "...(more)\n"] else []) ++ [.puts "\n"])) := by
  have hmore : ∀ len : Nat, printed (if len > 0x100 then [.print (.puts "...(more)\n")] else [])
      = if len > 0x100 then [Out.puts "...(more)\n"] else [] := by
    intro len
    split <;> rfl
  simp only [reportActions, printed_append, printed_flatMap, hmore, List.append_assoc]
  rfl

/-- The text of the dump: the length, and the bytes one by one. -/
theorem readDump_reads (length : Nat) {bytes : Nat → Nat} (hbytes : ∀ k, bytes k < 256) :
    Reads readDump
      (literal "length of ethernet frame: " ++ ((hexText length 4 ++ [newline]) ++ ([] ++
        (literal "content:\n" ++ (List.range (min length 0x100)).flatMap
          (fun k => hexText (bytes k) 2 ++ literal (separator k))))))
      (length, (List.range (min length 0x100)).map bytes) := by
  refine (Reads.expect _).bind ?_
  refine (Reads.takeUntil (hexText_no_newline length 4)).bind ?_
  refine (Reads.ofOption (Terminal.hexValue_hexText length 4)).bind ?_
  refine (Reads.expect _).bind ?_
  exact (Reads.each (fun k _ => readByte_reads (hbytes k) k)).map (f := fun bytes => (length, bytes))

/-- **A report is read back**, whatever follows the dump. -/
theorem readDump_report {m : Mem} {queueSize slot : Nat}
    (hlen : sizeofVirtioNetHdr ≤ (loadUsed m queueSize virtqRx slot).len) :
    readDump.run' ((printed (reportActions m queueSize slot)).flatMap outText)
      = some ((loadUsed m queueSize virtqRx slot).len - sizeofVirtioNetHdr,
        (List.range (min ((loadUsed m queueSize virtqRx slot).len - sizeofVirtioNetHdr) 0x100)).map
          fun k => (m ((loadDesc m virtqRx (loadUsed m queueSize virtqRx slot).id).addr +
            (k + sizeofVirtioNetHdr))).toNat) := by
  have hword : (loadUsed m queueSize virtqRx slot).len < 256 ^ 4 := load_lt m _ 4
  have hnewline : literal "\n" = [newline] := by decide
  rw [printed_reportActions]
  generalize loadUsed m queueSize virtqRx slot = used at hlen hword ⊢
  have hlength : (used.len + (2 ^ 64 - sizeofVirtioNetHdr)) % 2 ^ 64
      = used.len - sizeofVirtioNetHdr := by
    simp only [sizeofVirtioNetHdr] at hlen ⊢
    omega
  have hreads := readDump_reads (used.len - sizeofVirtioNetHdr)
    (fun k => UInt8.toNat_lt (m ((loadDesc m virtqRx used.id).addr +
      (k + sizeofVirtioNetHdr))))
  have hrun := hreads.run (((if used.len > 0x100 then [Out.puts "...(more)\n"] else []) ++
    [Out.puts "\n"]).flatMap outText)
  simp only [List.flatMap_append, List.flatMap_assoc, List.flatMap_cons, List.flatMap_nil,
    List.append_nil, List.append_assoc, outText, hlength, hnewline, load_byte, shownLen,
    List.nil_append, StateT.run'] at hrun ⊢
  rw [hrun]
  rfl

/-- Every number printed fits into 64 bits. -/
theorem values_fit {m : Mem} {queueSize slot value digitsLen : Nat}
    (h : Out.puth value digitsLen ∈ printed (reportActions m queueSize slot)) : value < 2 ^ 64 := by
  rw [printed_reportActions] at h
  rcases List.mem_append.mp h with hhead | h
  · simp only [List.mem_cons, List.not_mem_nil, or_false, reduceCtorEq, false_or, Out.puth.injEq] at hhead
    omega
  · rcases List.mem_append.mp h with hbytes | hend
    · obtain ⟨k, -, hk⟩ := List.mem_flatMap.mp hbytes
      simp only [List.mem_cons, List.not_mem_nil, or_false, reduceCtorEq, Out.puth.injEq] at hk
      have hbyte := load_lt m ((loadDesc m virtqRx (loadUsed m queueSize virtqRx slot).id).addr +
        (k + sizeofVirtioNetHdr)) 1
      omega
    · split at hend <;> simp at hend

/-- When `...(more)` is printed. -/
theorem more_printed_iff (m : Mem) (queueSize slot : Nat) :
    Out.puts "...(more)\n" ∈ printed (reportActions m queueSize slot) ↔
      0x100 < (loadUsed m queueSize virtqRx slot).len := by
  rw [printed_reportActions]
  constructor
  · intro h
    rcases List.mem_append.mp h with hhead | h
    · simp at hhead
    · rcases List.mem_append.mp h with hbytes | hend
      · obtain ⟨k, -, hk⟩ := List.mem_flatMap.mp hbytes
        unfold separator at hk
        split at hk <;> simp at hk
      · by_contra hshort
        rw [if_neg hshort] at hend
        simp at hend
  · intro hlong
    refine List.mem_append_right _ (List.mem_append_right _ (List.mem_append_left _ ?_))
    rw [if_pos hlong]
    exact List.mem_singleton.mpr rfl

/-- What is dumped is what is observed. -/
theorem dumped_iff {queueSize i : Nat} {m : Mem} {out : List Out} (hpos : queueSize ≠ 0) :
    Dumped queueSize i m out ↔ out = printed (reportActions m queueSize (i % queueSize)) := by
  have hobserved := reportUsed_observed hpos m i
  constructor
  · rintro ⟨δ, E, w, u, hstill, rfl, hrun, hout⟩
    have hprinted := (hobserved.interleaves hstill hrun).2
    exact List.append_cancel_left (hout.symm.trans hprinted)
  · rintro rfl
    let E : Env Unit := Env.alone Unit (fun _ _ _ => True)
    have hrun : Returns E _ _ _ _ :=
      Observed.returns (w := { mem := m, dev := (), out := [] }) hobserved
    exact ⟨Unit, E, _, _, fun _ _ _ _ hmove => hmove.elim, rfl, .of_run hrun, rfl⟩

/-- **When the dump is faithful**: for frames of up to 246 bytes, and of more than 256. -/
theorem dump_faithful_iff {queueSize i : Nat} {m : Mem} (hpos : queueSize ≠ 0)
    (hlen : sizeofVirtioNetHdr ≤ (loadUsed m queueSize virtqRx (i % queueSize)).len) :
    DumpFaithful queueSize i m ↔
      ¬ (247 ≤ (loadUsed m queueSize virtqRx (i % queueSize)).len - sizeofVirtioNetHdr ∧
        (loadUsed m queueSize virtqRx (i % queueSize)).len - sizeofVirtioNetHdr ≤ 256) := by
  have hmore := more_printed_iff m queueSize (i % queueSize)
  simp only [sizeofVirtioNetHdr] at *
  constructor
  · intro hfaithful
    have hline := hfaithful.more _ ((dumped_iff hpos).mpr rfl)
    rw [hmore, sizeofVirtioNetHdr] at hline
    omega
  · intro hlength
    refine ⟨?_, ?_⟩
    · intro out hout buf
      rw [dumped_iff hpos] at hout
      subst hout
      obtain ⟨buf', hchars⟩ := callsChars_eq buf (fun _ _ => values_fit)
      exact ⟨_, buf', hchars, readDump_report hlen⟩
    · intro out hout
      rw [dumped_iff hpos] at hout
      rw [hout, hmore, sizeofVirtioNetHdr]
      omega

/-- A frame of 300 bytes. -/
theorem dump_faithful_300 : ∃ m : Mem,
    (loadUsed m 256 virtqRx 0).len - sizeofVirtioNetHdr = 300 ∧ DumpFaithful 256 0 m := by
  have hlen : (loadUsed (store (fun _ => 0) (usedRing 256 virtqRx 0 + 4) 4 310) 256 virtqRx
      (0 % 256)).len = 310 := load_store_self _ _ 4 310
  refine ⟨_, congrArg (· - sizeofVirtioNetHdr) hlen, (dump_faithful_iff (by decide) ?_).mpr ?_⟩
  · rw [hlen]
    decide
  · rw [hlen]
    decide

/-- **A frame of 247 bytes** is printed whole, and `...(more)` behind it. -/
theorem more_without_rest : ¬ ∀ queueSize i m, queueSize ≠ 0 →
    sizeofVirtioNetHdr ≤ (loadUsed m queueSize virtqRx (i % queueSize)).len →
      DumpFaithful queueSize i m := by
  intro hall
  have hlen : (loadUsed (store (fun _ => 0) (usedRing 256 virtqRx 0 + 4) 4 257) 256 virtqRx
      (0 % 256)).len = 257 := load_store_self _ _ 4 257
  have hline := (hall 256 0 _ (by decide) (by rw [hlen]; decide)).more _
    ((dumped_iff (by decide)).mpr rfl)
  rw [more_printed_iff, hlen] at hline
  revert hline
  decide

end Virtio
end SysproKernel

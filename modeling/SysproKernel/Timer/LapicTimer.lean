import SysproKernel.Console
import SysproKernel.Timer.PmTimer

/-!
# `Timer.LapicTimer` — the LAPIC timer (`lapic_timer.c`)

`measure_lapic_freq_khz` lets the timer count down for one second of the PM timer and keeps the frequency
in a global, which `lapic_periodic_exec` multiplies with the period. A call reads each register at most
once: `regs` answers these reads, and what a call writes is a list in order.

A frequency of 0 stands for "not measured", and nothing is armed then. The product is one of
`unsigned int`s, and nothing checks that it fits (`periodCorrect_iff`).
-/

namespace SysproKernel
namespace Timer

/-! ## The code -/

/-- The addresses in `lvt_timer`, `initial_count`, `current_count` and `divide_config`. -/
def lvtTimer : Nat := 0xfee00320
def initialCount : Nat := 0xfee00380
def currentCount : Nat := 0xfee00390
def divideConfig : Nat := 0xfee003e0

def modeOneshot : UInt32 := 0
def modePeriodic : UInt32 := 1

/-- `LAPIC_INTERRUPT_ID`. -/
def lapicInterruptId : Int32 := 140

/-- A write to a register of the LAPIC. -/
structure RegWrite where
  address : Nat
  value : UInt32
  deriving DecidableEq, Repr

/-- The globals `lapic_timer_freq_khz` and `reserved_callback`. -/
structure LapicGlobals where
  lapicTimerFreqKhz : UInt32
  reservedCallback : Nat
  deriving DecidableEq, Repr

/-- What a call does: the globals afterwards, its writes and what it prints. -/
structure LapicRun where
  globals : LapicGlobals
  writes : List RegWrite
  out : List Out
  deriving DecidableEq, Repr

def setLvlTimerValue (regs : Nat → UInt32) (mode : UInt32) (interruptId : Int32) : RegWrite :=
  let deliveryStatus := regs lvtTimer &&& ((1 : UInt32) <<< 12)
  if interruptId = -1 then
    { address := lvtTimer, value := deliveryStatus ||| ((1 : UInt32) <<< 16) ||| (mode <<< 17) }
  else
    { address := lvtTimer
      value := (interruptId &&& 0xFF).toUInt32 ||| deliveryStatus ||| (mode <<< 17) }

def setDivideConfig (regs : Nat → UInt32) (n : Int) : RegWrite :=
  let base := regs divideConfig &&& ~~~0b1011
  let base :=
    if n = 1 then base ||| 0b1011
    else if n = 2 then base ||| 0b0000
    else if n = 4 then base ||| 0b0001
    else base
  { address := divideConfig, value := base }

/-- The result is `none` while the wait for the PM timer has not ended. -/
def measureLapicFreqKhz (pm : PmTimer) (io : Nat → UInt16 → UInt32) (fuel : Nat) (regs : Nat → UInt32)
    (g : LapicGlobals) : Option (UInt32 × LapicRun) :=
  let initValue : UInt32 := 0x80000000
  let writes := [setLvlTimerValue regs modeOneshot (-1), setDivideConfig regs 1,
    { address := initialCount, value := initValue }]
  (pmTimerWaitMillisec pm io 1000 fuel).map fun _ =>
    let afterValue := regs currentCount
    if afterValue = 0 then (-1, { globals := g, writes, out := [.puts "lapic timer went zero\n"] })
    else
      let freq := (initValue - afterValue) / 1000
      (freq, { globals := { g with lapicTimerFreqKhz := freq }, writes, out := [] })

def lapicPeriodicExec (regs : Nat → UInt32) (g : LapicGlobals) (msec : UInt32) (callback : Nat) :
    LapicRun :=
  if g.lapicTimerFreqKhz = 0 then
    { globals := g, writes := [], out := [.puts "Call measure_lapic_freq_khz() beforehand\r\n"] }
  else
    { globals := { g with reservedCallback := callback }
      writes := [setLvlTimerValue regs modePeriodic lapicInterruptId, setDivideConfig regs 1,
        { address := initialCount, value := msec * g.lapicTimerFreqKhz }]
      out := [] }

/-! ## The period -/

/-- The initial counts among the writes. -/
def countsWritten (writes : List RegWrite) : List UInt32 :=
  (writes.filter fun w => w.address = initialCount).map RegWrite.value

/-- One initial count is written, and it is the true product; or nothing is armed. -/
def ArmedFor (freq : Nat) (msec : UInt32) (g : LapicGlobals) (r : LapicRun) : Prop :=
  (∃ count, countsWritten r.writes = [count] ∧ count.toNat = msec.toNat * freq ∧ count ≠ 0) ∨
    (r.globals = g ∧ r.writes = [])

/-- `lapic_periodic_exec` after a measurement from the globals `g`: a frequency measured gives the period
    asked for, and without one nothing changes. -/
structure PeriodCorrect (g : LapicGlobals) (measured : UInt32 × LapicRun) (msec : UInt32)
    (callback : Nat) : Prop where
  armed : measured.1 ≠ -1 → measured.1 ≠ 0 → ∀ regs,
    ArmedFor measured.1.toNat msec measured.2.globals
      (lapicPeriodicExec regs measured.2.globals msec callback)
  refused : g.lapicTimerFreqKhz = 0 → measured.1 = -1 ∨ measured.1 = 0 → ∀ regs,
    (lapicPeriodicExec regs measured.2.globals msec callback).globals = measured.2.globals ∧
      (lapicPeriodicExec regs measured.2.globals msec callback).writes = []

variable {pm : PmTimer} {io : Nat → UInt16 → UInt32} {fuel : Nat} {regs : Nat → UInt32}
  {g : LapicGlobals} {measured : UInt32 × LapicRun} {msec : UInt32} {callback : Nat}

/-- The frequency that the count left over stands for. -/
def leftOverFreq (afterValue : UInt32) : UInt32 := (0x80000000 - afterValue) / 1000

theorem leftOverFreq_ne_neg_one (afterValue : UInt32) : leftOverFreq afterValue ≠ -1 := by
  have hlt := (0x80000000 - afterValue).toNat_lt
  have hdiv : (leftOverFreq afterValue).toNat = (0x80000000 - afterValue).toNat / 1000 :=
    UInt32.toNat_div _ _
  intro heq
  rw [heq] at hdiv
  have hneg : (-1 : UInt32).toNat = 4294967295 := by decide
  omega

/-- **What a measurement does**: a timer that went to zero changes no global, any other count left over
    sets the frequency. -/
theorem measure_cases (hrun : measureLapicFreqKhz pm io fuel regs g = some measured) :
    (regs currentCount = 0 ∧ measured.1 = -1 ∧ measured.2.globals = g) ∨
    (regs currentCount ≠ 0 ∧ measured.1 = leftOverFreq (regs currentCount) ∧
      measured.2.globals = { g with lapicTimerFreqKhz := leftOverFreq (regs currentCount) }) := by
  unfold measureLapicFreqKhz at hrun
  obtain ⟨k, -, hmeasured⟩ := Option.map_eq_some_iff.mp hrun
  by_cases hzero : regs currentCount = 0
  · rw [if_pos hzero] at hmeasured
    subst hmeasured
    exact Or.inl ⟨hzero, rfl, rfl⟩
  · rw [if_neg hzero] at hmeasured
    subst hmeasured
    exact Or.inr ⟨hzero, rfl, rfl⟩

theorem periodicExec_unmeasured (regs : Nat → UInt32) (msec : UInt32) (callback : Nat)
    (h : g.lapicTimerFreqKhz = 0) :
    (lapicPeriodicExec regs g msec callback).globals = g ∧
      (lapicPeriodicExec regs g msec callback).writes = [] := by
  rw [lapicPeriodicExec, if_pos h]
  exact ⟨rfl, rfl⟩

theorem setLvlTimerValue_address (regs : Nat → UInt32) (mode : UInt32) (interruptId : Int32) :
    (setLvlTimerValue regs mode interruptId).address = lvtTimer := by
  unfold setLvlTimerValue
  split <;> rfl

theorem periodicExec_counts (regs : Nat → UInt32) (msec : UInt32) (callback : Nat)
    (h : g.lapicTimerFreqKhz ≠ 0) :
    countsWritten (lapicPeriodicExec regs g msec callback).writes = [msec * g.lapicTimerFreqKhz] := by
  have hlvt : ¬ lvtTimer = initialCount := by decide
  have hdivide : ¬ divideConfig = initialCount := by decide
  rw [lapicPeriodicExec, if_neg h]
  simp [countsWritten, setLvlTimerValue_address, setDivideConfig, hlvt, hdivide]

/-- The product of two `unsigned int`s is the true one exactly when that fits. -/
theorem toNat_mul_eq_iff (a b : UInt32) :
    (a * b).toNat = a.toNat * b.toNat ↔ a.toNat * b.toNat < 2 ^ 32 := by
  rw [UInt32.toNat_mul]
  constructor
  · intro h
    rw [← h]
    exact Nat.mod_lt _ (by decide)
  · exact Nat.mod_eq_of_lt

/-- With a frequency measured, the period is the one asked for exactly when the product fits. -/
theorem armedFor_iff (regs : Nat → UInt32) (callback : Nat) (hmsec : 1 ≤ msec)
    (hfreq : g.lapicTimerFreqKhz ≠ 0) :
    ArmedFor g.lapicTimerFreqKhz.toNat msec g (lapicPeriodicExec regs g msec callback) ↔
      msec.toNat * g.lapicTimerFreqKhz.toNat < 2 ^ 32 := by
  have hcounts := periodicExec_counts regs msec callback hfreq
  constructor
  · rintro (⟨count, hcount, hproduct, -⟩ | ⟨-, hnone⟩)
    · rw [hcounts, List.singleton_inj] at hcount
      subst hcount
      exact (toNat_mul_eq_iff _ _).mp hproduct
    · -- something is always written
      rw [hnone] at hcounts
      cases hcounts
  · intro hfits
    have hproduct := (toNat_mul_eq_iff _ _).mpr hfits
    refine Or.inl ⟨_, hcounts, hproduct, ?_⟩
    intro hzero
    rw [hzero] at hproduct
    have hmsec' : 0 < msec.toNat := UInt32.le_iff_toNat_le.mp hmsec
    have hfreq' : 0 < g.lapicTimerFreqKhz.toNat :=
      Nat.pos_of_ne_zero fun h => hfreq (UInt32.toNat_inj.mp h)
    have hpos := Nat.mul_pos hmsec' hfreq'
    rw [← hproduct] at hpos
    exact absurd hpos (Nat.lt_irrefl 0)

/-- Where nothing was measured, nothing is armed. -/
theorem refused_of_measure (hrun : measureLapicFreqKhz pm io fuel regs g = some measured)
    (hfresh : g.lapicTimerFreqKhz = 0) (hfailed : measured.1 = -1 ∨ measured.1 = 0) :
    measured.2.globals.lapicTimerFreqKhz = 0 := by
  rcases measure_cases hrun with ⟨-, -, hglobals⟩ | ⟨-, hret, hglobals⟩
  · rw [hglobals, hfresh]
  · rw [hglobals]
    rw [hret] at hfailed
    exact hfailed.resolve_left (leftOverFreq_ne_neg_one _)

theorem fits_of_periodCorrect (hmsec : 1 ≤ msec)
    (hrun : measureLapicFreqKhz pm io fuel regs g = some measured)
    (h : PeriodCorrect g measured msec callback) (hcount : regs currentCount ≠ 0) :
    msec.toNat * (leftOverFreq (regs currentCount)).toNat < 2 ^ 32 := by
  rcases measure_cases hrun with ⟨hzero, -⟩ | ⟨-, hret, hglobals⟩
  · exact absurd hzero hcount
  · by_cases hfreq : leftOverFreq (regs currentCount) = 0
    · rw [hfreq]
      exact Nat.two_pow_pos 32
    · have harmed := h.armed (by rw [hret]; exact leftOverFreq_ne_neg_one _) (by rwa [hret]) regs
      rw [hret, hglobals] at harmed
      exact (armedFor_iff regs callback hmsec hfreq).mp harmed

theorem periodCorrect_of_fits (hmsec : 1 ≤ msec)
    (hrun : measureLapicFreqKhz pm io fuel regs g = some measured)
    (h : regs currentCount ≠ 0 → msec.toNat * (leftOverFreq (regs currentCount)).toNat < 2 ^ 32) :
    PeriodCorrect g measured msec callback where
  armed hsuccess hfreq regs' := by
    rcases measure_cases hrun with ⟨-, hret, -⟩ | ⟨hcount, hret, hglobals⟩
    · exact absurd hret hsuccess
    · rw [hret] at hfreq ⊢
      rw [hglobals]
      exact (armedFor_iff regs' callback hmsec hfreq).mpr (h hcount)
  refused hfresh hfailed regs' :=
    periodicExec_unmeasured regs' msec callback (refused_of_measure hrun hfresh hfailed)

/-- A counter that only counts down from the initial value gives the right period up to two seconds. -/
theorem periodCorrect_two_seconds (hmsec : 1 ≤ msec) (hshort : msec ≤ 2000)
    (hrun : measureLapicFreqKhz pm io fuel regs g = some measured)
    (hdown : regs currentCount ≤ 0x80000000) : PeriodCorrect g measured msec callback := by
  refine periodCorrect_of_fits hmsec hrun fun _ => ?_
  have hfreq : (leftOverFreq (regs currentCount)).toNat ≤ 2147483 := by
    have hdiv : (leftOverFreq (regs currentCount)).toNat
        = (0x80000000 - regs currentCount).toNat / 1000 := UInt32.toNat_div _ _
    have hle : (0x80000000 - regs currentCount).toNat ≤ 0x80000000 := by
      rw [UInt32.toNat_sub_of_le _ _ hdown]
      exact Nat.sub_le _ _
    omega
  have hmsec' : msec.toNat ≤ 2000 := UInt32.le_iff_toNat_le.mp hshort
  exact Nat.lt_of_le_of_lt (Nat.mul_le_mul hmsec' hfreq) (by decide)

/-- **The period is the one asked for exactly when the product fits into 32 bits.** -/
theorem periodCorrect_iff (hmsec : 1 ≤ msec)
    (hrun : measureLapicFreqKhz pm io fuel regs g = some measured) :
    PeriodCorrect g measured msec callback ↔
      (regs currentCount ≠ 0 →
        msec.toNat * ((0x80000000 - regs currentCount) / 1000).toNat < 2 ^ 32) :=
  ⟨fits_of_periodCorrect hmsec hrun, periodCorrect_of_fits hmsec hrun⟩

/-- One second passes on the PM timer at the second read of its counter. -/
def oneSecond : Nat → UInt16 → UInt32 := fun k _ => if k = 0 then 0 else 3579545

theorem measure_one_second (regs : Nat → UInt32) (g : LapicGlobals) :
    ∃ measured, measureLapicFreqKhz ⟨0x608, false⟩ oneSecond 1 regs g = some measured := ⟨_, rfl⟩

/-- Registers with a given count left over. -/
def leftOver (afterValue : UInt32) : Nat → UInt32 := fun a => if a = currentCount then afterValue else 0

/-- A timer of 62.5 MHz and a period of one second. -/
theorem period_one_second :
    ∃ measured, measureLapicFreqKhz ⟨0x608, false⟩ oneSecond 1 (leftOver 2084983648) ⟨0, 0⟩ = some measured ∧
      (PeriodCorrect ⟨0, 0⟩ measured 1000 0x1000 ↔
        (leftOver 2084983648 currentCount ≠ 0 →
          (1000 : UInt32).toNat * ((0x80000000 - leftOver 2084983648 currentCount) / 1000).toNat < 2 ^ 32)) := by
  obtain ⟨measured, hrun⟩ := measure_one_second (leftOver 2084983648) ⟨0, 0⟩
  exact ⟨measured, hrun, periodCorrect_iff (by decide) hrun⟩

/-- A timer of 65 536 kHz, asked for a period of 65 536 ms, is armed with a count of 0. -/
theorem period_wraps_to_zero :
    ¬ ∀ (pm : PmTimer) (io : Nat → UInt16 → UInt32) (fuel : Nat) (regs : Nat → UInt32) (g : LapicGlobals)
      (measured : UInt32 × LapicRun) (msec : UInt32) (callback : Nat), 1 ≤ msec →
      measureLapicFreqKhz pm io fuel regs g = some measured →
      PeriodCorrect g measured msec callback := by
  intro h
  obtain ⟨measured, hrun⟩ := measure_one_second (leftOver 2081947648) ⟨0, 0⟩
  have hcorrect := h _ _ _ _ _ measured 65536 0x1000 (by decide) hrun
  have hfits := fits_of_periodCorrect (by decide) hrun hcorrect (by decide)
  revert hfits
  decide

end Timer
end SysproKernel

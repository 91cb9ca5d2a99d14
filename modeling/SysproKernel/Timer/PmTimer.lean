import SysproKernel.Lib.HalfPeriod
import Mathlib.Data.Nat.Find
import Mathlib.Data.Nat.Bitwise
import Mathlib.Tactic.Ring

/-!
# `Timer.PmTimer` — the polling wait on the ACPI PM timer (`pm_timer.c`)

`pm_timer_wait_millisec` reads a free-running 24- or 32-bit counter, computes the target value modulo the
counter's period, and polls until the *half state* goes from −1 to 1. The port is the environment: the
`k`-th read of the run is answered by `io k`.

`Sampled` says what the answers are: the start value plus the ticks elapsed, modulo the period, with
anything above a 24-bit counter's own bits. The loop then ends at the first sample at which the target is
`due`, because the half state is `Behind` of the distance to it. For a wait shorter than the period that is
when the wanted ticks have elapsed; a longer one loses its whole periods (`wait_long_enough_iff`).
-/

namespace SysproKernel
namespace Timer

open Lib.HalfPeriod

/-! ## The code -/

/-- The globals `pm_timer_blk` and `pm_timer_is_32`. -/
structure PmTimer where
  blk : UInt16
  is32 : Bool

def freqHz : UInt64 := 3579545

def getMask (pm : PmTimer) : UInt32 := if pm.is32 then 0xFFFFFFFF else 0xFFFFFF

def getHighestBit (pm : PmTimer) : UInt32 := if pm.is32 then 0x80000000 else 0x800000

/-- `io k port` answers the `k`-th port read of the run. -/
def readPmTimer (pm : PmTimer) (io : Nat → UInt16 → UInt32) (k : Nat) : UInt32 :=
  let curTimer := io k pm.blk
  curTimer &&& getMask pm

def getTimerHalfState (pm : PmTimer) (cur target : UInt32) : Int :=
  if (cur - target) &&& getMask pm &&& getHighestBit pm ≠ 0 then -1 else 1

/-- `while (1)`: the result is the number of the read that ended the loop, `none` when the fuel ran
    out first. -/
def waitLoop (pm : PmTimer) (io : Nat → UInt16 → UInt32) (t1 : UInt32) : Nat → Nat → Int → Option Nat
  | 0,        _, _ => none
  | fuel + 1, k, curState =>
      let cur := readPmTimer pm io k
      let nextState := getTimerHalfState pm cur t1
      if curState = -1 ∧ nextState = 1 then some k
      else waitLoop pm io t1 fuel (k + 1) nextState

def pmTimerWaitMillisec (pm : PmTimer) (io : Nat → UInt16 → UInt32) (msec : UInt32) (fuel : Nat) :
    Option Nat :=
  let t0 := readPmTimer pm io 0
  let t1 := (t0.toUInt64 + msec.toUInt64 * freqHz / 1000).toUInt32
  let t1 := t1 &&& getMask pm
  let curState := getTimerHalfState pm t0 t1
  waitLoop pm io t1 fuel 1 curState

/-! ## What the counter shows -/

/-- Half the period of the counter. -/
def half (pm : PmTimer) : Nat := if pm.is32 then 2 ^ 31 else 2 ^ 23

def period (pm : PmTimer) : Nat := 2 * half pm

/-- The ticks to wait for. -/
def ticks (msec : UInt32) : Nat := msec.toNat * 3579545 / 1000

/-- Read `k` shows the start value plus the `e k` ticks elapsed, on the counter's own bits; time does
    not go back, and two reads are at most half a period apart. -/
structure Sampled (pm : PmTimer) (io : Nat → UInt16 → UInt32) (t0 : Nat) (e : Nat → Nat) : Prop where
  start : e 0 = 0
  shows : ∀ k, (io k pm.blk).toNat % period pm = (t0 + e k) % period pm
  mono : ∀ k, e k ≤ e (k + 1)
  gap : ∀ k, e (k + 1) - e k ≤ half pm

/-- Such reads, for a time that passes every bound. -/
structure Polled (pm : PmTimer) (io : Nat → UInt16 → UInt32) (t0 : Nat) (e : Nat → Nat) : Prop
    extends Sampled pm io t0 e where
  unbounded : ∀ n, ∃ k, n ≤ e k

/-- The ticks after which the counter first comes to show the target value: those to wait for, less the
    whole periods. -/
def due (pm : PmTimer) (msec : UInt32) : Nat :=
  if ticks msec % period pm = 0 then period pm else ticks msec % period pm

variable {pm : PmTimer} {io : Nat → UInt16 → UInt32} {msec : UInt32} {t0 : Nat} {e : Nat → Nat}

theorem period_dvd (pm : PmTimer) : period pm ∣ 2 ^ 32 := by
  unfold period half
  split
  · exact ⟨1, rfl⟩
  · exact ⟨2 ^ 8, rfl⟩

/-- The mask keeps the value modulo the period. -/
theorem toNat_mask (pm : PmTimer) (v : UInt32) : (v &&& getMask pm).toNat = v.toNat % period pm := by
  unfold getMask period half
  rw [UInt32.toNat_and]
  split
  · exact Nat.and_two_pow_sub_one_eq_mod v.toNat 32
  · exact Nat.and_two_pow_sub_one_eq_mod v.toNat 24

/-- The highest bit of a masked value is set in the upper half of the period. -/
theorem highestBit_iff (pm : PmTimer) (v : UInt32) :
    v &&& getMask pm &&& getHighestBit pm ≠ 0 ↔ half pm ≤ v.toNat % period pm := by
  have hbit : ∀ i n : Nat, n < 2 ^ (i + 1) → (n &&& 2 ^ i ≠ 0 ↔ 2 ^ i ≤ n) := by
    intro i n hn
    rw [Nat.and_two_pow]
    constructor
    · intro hne
      apply Nat.ge_two_pow_of_testBit
      by_contra hclear
      rw [Bool.not_eq_true] at hclear
      exact hne (by simp [hclear])
    · intro hle
      simp [Nat.testBit_of_two_pow_le_and_two_pow_add_one_gt hle hn]
  have hlt : v.toNat % period pm < period pm := by
    apply Nat.mod_lt
    unfold period half
    split <;> decide
  rw [Ne, ← UInt32.toNat_inj, UInt32.toNat_and, toNat_mask]
  revert hlt
  unfold getHighestBit period half
  cases pm.is32 with
  | true => exact hbit 31 _
  | false => exact hbit 23 _

/-- Subtraction modulo `2 ^ 32` is subtraction modulo the period. -/
theorem toNat_sub_emod (pm : PmTimer) (a b : UInt32) :
    ((a - b).toNat : Int) % period pm = ((a.toNat : Int) - b.toNat) % period pm := by
  have hdvd : (period pm : Int) ∣ 2 ^ 32 := by
    have h := period_dvd pm
    exact_mod_cast h
  have hb := b.toNat_lt
  rw [UInt32.toNat_sub, Int.natCast_emod, Nat.cast_add, Nat.cast_sub (Nat.le_of_lt hb),
    Int.emod_emod_of_dvd _ (by exact_mod_cast hdvd)]
  have hsplit : ((2 ^ 32 : Nat) : Int) - b.toNat + a.toNat = (a.toNat - b.toNat) + 2 ^ 32 := by
    push_cast
    ring
  rw [hsplit, Int.add_emod, Int.emod_eq_zero_of_dvd hdvd, Int.add_zero, Int.emod_emod]

/-- The half state compares the residues of the two values. -/
theorem getTimerHalfState_eq (pm : PmTimer) (cur target : UInt32) :
    getTimerHalfState pm cur target
      = if Behind (half pm) ((cur.toNat : Int) - target.toNat) then -1 else 1 := by
  have hiff : cur - target &&& getMask pm &&& getHighestBit pm ≠ 0
      ↔ Behind (half pm) ((cur.toNat : Int) - target.toNat) := by
    rw [highestBit_iff]
    unfold Behind
    have hperiod : (2 * (half pm : Int)) = (period pm : Int) := by
      unfold period
      push_cast
      rfl
    rw [hperiod, ← toNat_sub_emod]
    norm_cast
  unfold getTimerHalfState
  simp only [hiff]

/-- The target: the product does not wrap, and the truncation keeps the value modulo the period. -/
theorem toNat_target (pm : PmTimer) (v msec : UInt32) :
    ((v.toUInt64 + msec.toUInt64 * freqHz / 1000).toUInt32 &&& getMask pm).toNat
      = (v.toNat + ticks msec) % period pm := by
  have hmsec := msec.toNat_lt
  have hv := v.toNat_lt
  have hfreq : freqHz.toNat = 3579545 := rfl
  have hprod : (msec.toUInt64 * freqHz).toNat = msec.toNat * 3579545 := by
    rw [UInt64.toNat_mul, UInt32.toNat_toUInt64, hfreq]
    exact Nat.mod_eq_of_lt (by omega)
  have hdiv : (msec.toUInt64 * freqHz / 1000).toNat = ticks msec := by
    rw [UInt64.toNat_div, hprod]
    rfl
  have hticks : ticks msec < 2 ^ 62 := by
    unfold ticks
    omega
  have hsum : (v.toNat + ticks msec) % 2 ^ 64 = v.toNat + ticks msec :=
    Nat.mod_eq_of_lt (by omega)
  rw [toNat_mask, UInt64.toNat_toUInt32, UInt64.toNat_add, hdiv, UInt32.toNat_toUInt64, hsum,
    Nat.mod_mod_of_dvd _ (period_dvd pm)]

/-! ## The wait -/

theorem half_pos (pm : PmTimer) : 0 < half pm := by
  unfold half
  split <;> decide

theorem due_le (pm : PmTimer) (msec : UInt32) : due pm msec ≤ period pm := by
  have hpos := half_pos pm
  have hlt : ticks msec % period pm < period pm := by
    apply Nat.mod_lt
    unfold period
    omega
  unfold due
  split
  · exact Nat.le_refl _
  · exact Nat.le_of_lt hlt

theorem due_pos (pm : PmTimer) (msec : UInt32) : 0 < due pm msec := by
  have hpos := half_pos pm
  unfold due period
  split <;> omega

theorem due_mod (pm : PmTimer) (msec : UInt32) :
    due pm msec % period pm = ticks msec % period pm := by
  unfold due
  split
  · rename_i hzero
    rw [hzero, Nat.mod_self]
  · exact Nat.mod_mod _ _

/-- A wait shorter than the period is due when its ticks have elapsed. -/
theorem due_eq_ticks (hD0 : 0 < ticks msec) (hD : ticks msec < period pm) : due pm msec = ticks msec := by
  unfold due
  rw [Nat.mod_eq_of_lt hD, if_neg (Nat.ne_of_gt hD0)]

/-- The half state of sample `k`. -/
theorem Sampled.halfState (hs : Sampled pm io t0 e) {t1 : UInt32}
    (ht1 : t1.toNat = (t0 + ticks msec) % period pm) (k : Nat) :
    getTimerHalfState pm (readPmTimer pm io k) t1
      = if Behind (half pm) ((e k : Int) - due pm msec) then -1 else 1 := by
  have hcur : (readPmTimer pm io k).toNat = (t0 + e k) % period pm := by
    unfold readPmTimer
    rw [toNat_mask, hs.shows k]
  have hdue : t1.toNat = (t0 + due pm msec) % period pm := by
    rw [ht1, Nat.add_mod, ← due_mod, ← Nat.add_mod]
  have hmod : (((readPmTimer pm io k).toNat : Int) - t1.toNat) % (2 * (half pm : Int))
      = ((e k : Int) - due pm msec) % (2 * (half pm : Int)) := by
    have hperiod : (2 * (half pm : Int)) = (period pm : Int) := by
      unfold period
      push_cast
      rfl
    rw [hcur, hdue, hperiod, Int.natCast_emod, Int.natCast_emod, ← Int.sub_emod]
    congr 1
    push_cast
    ring
  rw [getTimerHalfState_eq]
  simp only [Behind.congr hmod]

/-- **One poll.** As long as the target was not due at the previous sample, the loop leaves at this one
    if and only if it is due now. -/
theorem Sampled.leaves_iff (hs : Sampled pm io t0 e) {t1 : UInt32}
    (ht1 : t1.toNat = (t0 + ticks msec) % period pm) {k : Nat} (hbefore : e k < due pm msec) :
    (getTimerHalfState pm (readPmTimer pm io k) t1 = -1 ∧
      getTimerHalfState pm (readPmTimer pm io (k + 1)) t1 = 1) ↔ due pm msec ≤ e (k + 1) := by
  have hmono := hs.mono k
  have hgap := hs.gap k
  have hle := due_le pm msec
  have hedge : (Behind (half pm) ((e k : Int) - due pm msec) ∧
      ¬ Behind (half pm) ((e (k + 1) : Int) - due pm msec)) ↔ 0 ≤ (e (k + 1) : Int) - due pm msec := by
    apply edge_iff
    · unfold period at hle
      omega
    · omega
    · omega
    · omega
  rw [hs.halfState ht1, hs.halfState ht1]
  have hreached : 0 ≤ (e (k + 1) : Int) - due pm msec ↔ due pm msec ≤ e (k + 1) := by omega
  rw [← hreached, ← hedge]
  split <;> split <;> simp [*]

/-- **The loop.** From a sample before the target on, the loop ends at the first sample at which the
    target is due. -/
theorem Sampled.waitLoop (hs : Sampled pm io t0 e) {t1 : UInt32}
    (ht1 : t1.toNat = (t0 + ticks msec) % period pm) {last : Nat} (hlast : due pm msec ≤ e last)
    (hfirst : ∀ j < last, e j < due pm msec) (fuel k : Nat) (hk : k < last) :
    waitLoop pm io t1 fuel (k + 1) (getTimerHalfState pm (readPmTimer pm io k) t1)
      = if last ≤ k + fuel then some last else none := by
  induction fuel generalizing k with
  | zero =>
      rw [if_neg (by omega)]
      rfl
  | succ fuel ih =>
      have hleaves := hs.leaves_iff ht1 (hfirst k hk)
      unfold Timer.waitLoop
      rcases Nat.lt_or_ge (k + 1) last with hlt | hge
      · have hstays : ¬ due pm msec ≤ e (k + 1) := Nat.not_le.mpr (hfirst (k + 1) hlt)
        rw [if_neg (fun hedge => hstays (hleaves.mp hedge)), ih (k + 1) hlt]
        congr 1
        exact propext (by omega)
      · -- the next sample is the last one
        obtain rfl : last = k + 1 := by omega
        rw [if_pos (hleaves.mpr hlast), if_pos (by omega)]

/-- **A wait that returns** does so at a sample at which the target is due, and was not due at the sample
    before. -/
theorem Sampled.returned (hs : Sampled pm io t0 e) {t1 : UInt32}
    (ht1 : t1.toNat = (t0 + ticks msec) % period pm) {fuel k last : Nat} (hk : e k < due pm msec)
    (hret : Timer.waitLoop pm io t1 fuel (k + 1) (getTimerHalfState pm (readPmTimer pm io k) t1)
      = some last) :
    ∃ j, last = j + 1 ∧ e j < due pm msec ∧ due pm msec ≤ e last := by
  induction fuel generalizing k with
  | zero => cases hret
  | succ fuel ih =>
      have hleaves := hs.leaves_iff ht1 hk
      unfold Timer.waitLoop at hret
      by_cases hreached : due pm msec ≤ e (k + 1)
      · rw [if_pos (hleaves.mpr hreached)] at hret
        cases hret
        exact ⟨k, rfl, hk, hreached⟩
      · rw [if_neg (fun hedge => hreached (hleaves.mp hedge))] at hret
        exact ih (Nat.not_le.mp hreached) hret

/-- **The wait ends at exactly the right sample.** For a wait shorter than the counter's period, the
    loop returns at the first sample at which the ticks of `msec` have elapsed, and it does return. -/
theorem pm_timer_wait_returns_at_first_sample (pm : PmTimer) (io : Nat → UInt16 → UInt32)
    (msec : UInt32) (t0 : Nat) (e : Nat → Nat) (ht0 : t0 < period pm) (hD0 : 0 < ticks msec)
    (hD : ticks msec < period pm) (hp : Polled pm io t0 e) :
    ∃ k, ticks msec ≤ e k ∧ (∀ j < k, e j < ticks msec) ∧
      ∀ fuel, pmTimerWaitMillisec pm io msec fuel = if k ≤ fuel then some k else none := by
  have hs := hp.toSampled
  have hdue := due_eq_ticks hD0 hD
  have hreach : ∃ k, ticks msec ≤ e k := hp.unbounded (ticks msec)
  have hlast := Nat.find_spec hreach
  have hfirst : ∀ j < Nat.find hreach, e j < ticks msec :=
    fun j hj => not_le.mp (Nat.find_min hreach hj)
  have hpos : 0 < Nat.find hreach := by
    rw [Nat.find_pos, hp.start]
    omega
  refine ⟨Nat.find hreach, hlast, hfirst, ?_⟩
  intro fuel
  have hstart : (readPmTimer pm io 0).toNat = t0 := by
    unfold readPmTimer
    rw [toNat_mask, hp.shows 0, hp.start, Nat.add_zero, Nat.mod_eq_of_lt ht0]
  have ht1 := toNat_target pm (readPmTimer pm io 0) msec
  rw [hstart] at ht1
  have hloop := hs.waitLoop ht1 (hdue.le.trans hlast)
    (fun j hj => (hfirst j hj).trans_eq hdue.symm) fuel 0 hpos
  rw [Nat.zero_add, Nat.zero_add] at hloop
  exact hloop

/-- A 24-bit counter read once a tick, with set bits above its own, starting three ticks before its
    wrap: a wait of one millisecond. -/
theorem pm_timer_wait_across_the_wrap :
    ∃ k, ticks 1 ≤ k ∧ (∀ j < k, j < ticks 1) ∧
      ∀ fuel, pmTimerWaitMillisec ⟨0x608, false⟩
        (fun k _ => UInt32.ofNat (0xFFFFFD + k) ||| 0xFF000000) 1 fuel
          = if k ≤ fuel then some k else none := by
  apply pm_timer_wait_returns_at_first_sample ⟨0x608, false⟩
    (fun k _ => UInt32.ofNat (0xFFFFFD + k) ||| 0xFF000000) 1 0xFFFFFD (fun k => k)
  · decide
  · decide
  · decide
  · refine ⟨⟨rfl, ?_, fun k => Nat.le_succ k, ?_⟩, fun n => ⟨n, Nat.le_refl n⟩⟩
    · intro k
      show (UInt32.ofNat (0xFFFFFD + k) ||| 0xFF000000).toNat % 2 ^ 24 = (0xFFFFFD + k) % 2 ^ 24
      have hhigh : (0xFF000000 : UInt32).toNat % 2 ^ 24 = 0 := rfl
      rw [UInt32.toNat_or, Nat.or_mod_two_pow, hhigh, Nat.or_zero, UInt32.toNat_ofNat']
      exact Nat.mod_mod_of_dvd _ ⟨2 ^ 8, rfl⟩
    · intro k
      show k + 1 - k ≤ 2 ^ 23
      omega

/-! ## Long waits -/

/-- The longest wait whose ticks are fewer than the counter's period. -/
def longestWait (pm : PmTimer) : Nat := if pm.is32 then 1199864 else 4686

theorem ticks_lt_period_iff : ticks msec < period pm ↔ msec.toNat ≤ longestWait pm := by
  unfold ticks period half longestWait
  split <;> omega

/-- No wait takes exactly one period. -/
theorem ticks_ne_period (pm : PmTimer) (msec : UInt32) : ticks msec ≠ period pm := by
  unfold ticks period half
  split <;> omega

/-- **When the wait is long enough.** A wait that returns has let the ticks of `msec` elapse exactly if
    these are fewer than the counter's period: of a longer one, whole periods are lost. -/
theorem wait_long_enough_iff (pm : PmTimer) (io : Nat → UInt16 → UInt32) (msec : UInt32) (t0 : Nat)
    (e : Nat → Nat) (hs : Sampled pm io t0 e) {fuel k : Nat}
    (hret : pmTimerWaitMillisec pm io msec fuel = some k) :
    ticks msec ≤ e k ↔ msec.toNat ≤ longestWait pm := by
  have hstart : (readPmTimer pm io 0).toNat = t0 % period pm := by
    unfold readPmTimer
    rw [toNat_mask, hs.shows 0, hs.start, Nat.add_zero]
  have ht1 := toNat_target pm (readPmTimer pm io 0) msec
  rw [hstart, Nat.mod_add_mod] at ht1
  have hbefore : e 0 < due pm msec := hs.start.trans_lt (due_pos pm msec)
  obtain ⟨j, rfl, hj, hreached⟩ := hs.returned ht1 hbefore hret
  have hgap := hs.gap j
  have hhalf := half_pos pm
  have hperiod : period pm = 2 * half pm := rfl
  rw [← ticks_lt_period_iff]
  constructor
  · intro henough
    by_contra hlong
    have hne := ticks_ne_period pm msec
    have hsplit := Nat.div_add_mod (ticks msec) (period pm)
    -- at least one whole period comes on top of what was due
    have htotal : due pm msec + period pm ≤ ticks msec := by
      unfold due
      split
      · rename_i hzero
        have htwo : period pm * 2 ≤ period pm * (ticks msec / period pm) := by
          apply Nat.mul_le_mul_left
          by_contra hfew
          have hone : period pm * (ticks msec / period pm) ≤ period pm * 1 :=
            Nat.mul_le_mul_left _ (by omega)
          omega
        omega
      · have hone : period pm * 1 ≤ period pm * (ticks msec / period pm) :=
          Nat.mul_le_mul_left _ ((Nat.one_le_div_iff (by omega)).mpr (not_lt.mp hlong))
        omega
    omega
  · intro hshort
    rcases Nat.eq_zero_or_pos (ticks msec) with hzero | hpos
    · rw [hzero]
      exact Nat.zero_le _
    · rw [← due_eq_ticks hpos hshort]
      exact hreached

/-- A 24-bit counter that is read every `2 ^ 20` ticks. -/
def slowPolls (k : Nat) (_port : UInt16) : UInt32 := UInt32.ofNat (k * 2 ^ 20)

theorem slowPolls_sampled : Sampled ⟨0x608, false⟩ slowPolls 0 (fun k => k * 2 ^ 20) := by
  refine ⟨rfl, ?_, ?_, ?_⟩
  · intro k
    show (UInt32.ofNat (k * 2 ^ 20)).toNat % 2 ^ 24 = (0 + k * 2 ^ 20) % 2 ^ 24
    rw [UInt32.toNat_ofNat', Nat.zero_add]
    exact Nat.mod_mod_of_dvd _ ⟨2 ^ 8, rfl⟩
  · intro k
    omega
  · intro k
    show (k + 1) * 2 ^ 20 - k * 2 ^ 20 ≤ 2 ^ 23
    omega

/-- A wait of one second returns at the fourth sample, and is long enough. -/
theorem wait_one_second :
    ticks 1000 ≤ 4 * 2 ^ 20 ↔ (1000 : UInt32).toNat ≤ longestWait ⟨0x608, false⟩ := by
  have hret : pmTimerWaitMillisec ⟨0x608, false⟩ slowPolls 1000 4 = some 4 := by decide +kernel
  exact wait_long_enough_iff ⟨0x608, false⟩ slowPolls 1000 0 (fun k => k * 2 ^ 20) slowPolls_sampled
    hret

/-- **Five seconds are too long**: the wait returns after the second sample, about 0.6 seconds. -/
theorem wait_five_seconds_short :
    ¬ ∀ (io : Nat → UInt16 → UInt32) t0 e fuel k, Sampled ⟨0x608, false⟩ io t0 e →
      pmTimerWaitMillisec ⟨0x608, false⟩ io 5000 fuel = some k → ticks 5000 ≤ e k := by
  intro hall
  have hret : pmTimerWaitMillisec ⟨0x608, false⟩ slowPolls 5000 2 = some 2 := by decide +kernel
  have henough := hall slowPolls 0 (fun k => k * 2 ^ 20) 2 2 slowPolls_sampled hret
  exact absurd henough (by decide)

end Timer
end SysproKernel

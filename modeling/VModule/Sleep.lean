/-
**`CThread::Sleep` of `sutils/Thread.cpp`.**

A thread that sleeps on its own object waits for its condition variable, with a deadline that
`Condition::waitRelative` of `sutils/Condition.cpp` makes of a reading of the clock.  On the object
of another thread it calls `usleep`.  The milliseconds are multiplied as `unsigned int` in both
cases, before anything wider comes in.  The members of a `timespec` are 64 bits wide.

Main definitions:

* `VModule.Timespec`, `VModule.ClockReading` — times, and those that the clock gives;
* `VModule.Condition.waitRelative`, `VModule.CThread.sleep` — the functions;
* `VModule.Delay.Lasts` — what is asked for takes as long as it should.

Main results:

* `VModule.Condition.waitRelative_eq` — the deadline;
* `VModule.sleep_iff` — the delays that `Sleep` asks for rightly.
-/

import Mathlib.Algebra.Order.Ring.Int

set_option relaxedAutoImplicit false
set_option autoImplicit false

namespace VModule

/-! ### Times -/

/-- A `struct timespec`. -/
structure Timespec where
  tv_sec : ℤ
  tv_nsec : ℤ
  deriving DecidableEq

/-- The time in nanoseconds. -/
def Timespec.nanoseconds (ts : Timespec) : ℤ := ts.tv_sec * 1000000000 + ts.tv_nsec

/-- A time that the clock gives. -/
structure ClockReading where
  ts : Timespec
  nsec_nonneg : 0 ≤ ts.tv_nsec
  nsec_lt : ts.tv_nsec < 1000000000
  sec_ge : -9223372036854775808 ≤ ts.tv_sec
  sec_le : ts.tv_sec ≤ 9223372036854775807

/-- The addition of two `long`, which has no result where it overflows. -/
def addLong (a b : ℤ) : Option ℤ :=
  if -9223372036854775808 ≤ a + b ∧ a + b ≤ 9223372036854775807 then some (a + b) else none

/-! ### The functions -/

/-- The deadline that `Condition::waitRelative` passes on, with what the clock gives. -/
def Condition.waitRelative (now : Timespec) (reltime : ℤ) : Option Timespec := do
  let tv_sec ← addLong now.tv_sec (reltime.tdiv 1000000000)
  let tv_nsec ← addLong now.tv_nsec (reltime.tmod 1000000000)
  if tv_nsec ≥ 1000000000 then
    let tv_sec ← addLong tv_sec 1
    return ⟨tv_sec, tv_nsec - 1000000000⟩
  else
    return ⟨tv_sec, tv_nsec⟩

/-- What a thread asks for. -/
inductive Delay
  | timedwait (abstime : Timespec)
  | usleep (usec : BitVec 32)
  deriving DecidableEq

/-- `CThread::Sleep` on a thread object, called by the thread `self`. -/
def CThread.sleep {Tid : Type} [DecidableEq Tid] (m_ThreadId self : Tid) (now : Timespec)
    (milliseconds : BitVec 32) : Option Delay :=
  if self = m_ThreadId then
    (Condition.waitRelative now (milliseconds * 1000000).toNat).map .timedwait
  else
    some (.usleep (milliseconds * 1000))

/-- The delay is the one of so many milliseconds. -/
def Delay.Lasts (now : Timespec) (milliseconds : ℕ) : Delay → Prop
  | timedwait abstime => 0 ≤ abstime.tv_nsec ∧ abstime.tv_nsec < 1000000000 ∧
      abstime.nanoseconds = now.nanoseconds + milliseconds * 1000000
  | usleep usec => usec.toNat = milliseconds * 1000

/-! ### What is asked for -/

theorem addLong_of_le {a b : ℤ} (hge : -9223372036854775808 ≤ a + b)
    (hle : a + b ≤ 9223372036854775807) : addLong a b = some (a + b) := if_pos ⟨hge, hle⟩

theorem addLong_of_lt {a b : ℤ} (h : 9223372036854775807 < a + b) : addLong a b = none :=
  if_neg fun hle => absurd hle.2 (by omega)

/-- Two additions overflow where the sum does. -/
theorem addLong_add_one {a b : ℤ} (hge : -9223372036854775808 ≤ a + b) :
    ((addLong a b).bind fun c => addLong c 1) = addLong a (b + 1) := by
  by_cases hle : a + (b + 1) ≤ 9223372036854775807
  · rw [addLong_of_le hge (by omega), Option.bind_some, addLong_of_le (by omega) (by omega),
      addLong_of_le (by omega) hle, Int.add_assoc]
  · rw [addLong_of_lt (by omega) (a := a) (b := b + 1)]
    by_cases hfirst : a + b ≤ 9223372036854775807
    · rw [addLong_of_le hge hfirst, Option.bind_some, addLong_of_lt (by omega)]
    · rw [addLong_of_lt (by omega), Option.bind_none]

/-- **The deadline** is the time that it should be, unless the seconds overflow. -/
theorem Condition.waitRelative_eq (now : ClockReading) {reltime : ℤ} (h : 0 ≤ reltime) :
    waitRelative now.ts reltime =
      (addLong now.ts.tv_sec ((now.ts.tv_nsec + reltime) / 1000000000)).map fun tv_sec =>
        ⟨tv_sec, (now.ts.tv_nsec + reltime) % 1000000000⟩ := by
  obtain ⟨⟨sec, nsec⟩, hnonneg, hlt, hge, hle⟩ := now
  dsimp only at hnonneg hlt hge hle ⊢
  have hnsec : addLong nsec (reltime % 1000000000) = some (nsec + reltime % 1000000000) :=
    addLong_of_le (by omega) (by omega)
  rw [waitRelative, Int.tdiv_eq_ediv_of_nonneg h, Int.tmod_eq_emod_of_nonneg h]
  simp only [hnsec, Option.bind_eq_bind, Option.bind_some]
  by_cases hcarry : nsec + reltime % 1000000000 ≥ 1000000000
  · -- one second more
    have hdiv : (nsec + reltime) / 1000000000 = reltime / 1000000000 + 1 := by omega
    have hmod : (nsec + reltime) % 1000000000 = nsec + reltime % 1000000000 - 1000000000 := by omega
    rw [hdiv, hmod, ← addLong_add_one (by omega)]
    simp only [if_pos hcarry]
    cases addLong sec (reltime / 1000000000) with
    | none => rfl
    | some tv_sec =>
        rw [Option.bind_some, Option.bind_some]
        cases addLong tv_sec 1 <;> rfl
  · have hdiv : (nsec + reltime) / 1000000000 = reltime / 1000000000 := by omega
    have hmod : (nsec + reltime) % 1000000000 = nsec + reltime % 1000000000 := by omega
    rw [hdiv, hmod]
    simp only [if_neg hcarry]
    cases addLong sec (reltime / 1000000000) <;> rfl

/-- The product of two `unsigned int` is right where it fits. -/
theorem toNat_mul_eq_iff (a b : BitVec 32) :
    (a * b).toNat = a.toNat * b.toNat ↔ a.toNat * b.toNat < 4294967296 := by
  rw [BitVec.toNat_mul]
  constructor
  · intro h
    rw [← h]
    exact Nat.mod_lt _ (by decide)
  · exact fun h => Nat.mod_eq_of_lt h

/-- The deadline of a delay is right if the delay is, and if the seconds do not overflow. -/
theorem timedwait_lasts_iff (now : ClockReading) (reltime milliseconds : ℕ) :
    (∃ d, (Condition.waitRelative now.ts reltime).map Delay.timedwait = some d ∧
      d.Lasts now.ts milliseconds) ↔ reltime = milliseconds * 1000000 ∧
      now.ts.tv_sec + (now.ts.tv_nsec + reltime) / 1000000000 ≤ 9223372036854775807 := by
  obtain ⟨hnonneg, hge⟩ := And.intro now.nsec_nonneg now.sec_ge
  rw [Condition.waitRelative_eq now (Int.natCast_nonneg reltime)]
  by_cases hfits : now.ts.tv_sec + (now.ts.tv_nsec + reltime) / 1000000000 ≤ 9223372036854775807
  · rw [addLong_of_le (by omega) hfits, Option.map_some, Option.map_some]
    constructor
    · rintro ⟨d, hd, hlasts⟩
      obtain rfl := Option.some_inj.1 hd
      have htime := hlasts.2.2
      rw [Timespec.nanoseconds, Timespec.nanoseconds] at htime
      dsimp only at htime
      exact ⟨by omega, hfits⟩
    · rintro ⟨rfl, -⟩
      refine ⟨_, rfl, Int.emod_nonneg _ (by decide), Int.emod_lt_of_pos _ (by decide), ?_⟩
      rw [Timespec.nanoseconds, Timespec.nanoseconds]
      dsimp only
      omega
  · rw [addLong_of_lt (by omega)]
    exact iff_of_false (by simp) fun h => hfits h.2

/-- **Which delays `Sleep` asks for rightly.**  On its own object a thread waits until the time of
the clock and so many milliseconds more exactly if these are at most 4294 and the seconds do not
overflow; on another object it passes on as many microseconds exactly if there are at most 4294967
milliseconds. -/
theorem sleep_iff {Tid : Type} [DecidableEq Tid] (m_ThreadId self : Tid) (now : ClockReading)
    (milliseconds : BitVec 32) :
    (∃ d, CThread.sleep m_ThreadId self now.ts milliseconds = some d ∧
      d.Lasts now.ts milliseconds.toNat) ↔
      if self = m_ThreadId then milliseconds.toNat ≤ 4294 ∧
        now.ts.tv_sec + (now.ts.tv_nsec + milliseconds.toNat * 1000000) / 1000000000 ≤
          9223372036854775807
      else milliseconds.toNat ≤ 4294967 := by
  have hns := toNat_mul_eq_iff milliseconds 1000000
  have hus := toNat_mul_eq_iff milliseconds 1000
  rw [show (1000000 : BitVec 32).toNat = 1000000 from rfl] at hns
  rw [show (1000 : BitVec 32).toNat = 1000 from rfl] at hus
  rw [CThread.sleep]
  by_cases hself : self = m_ThreadId
  · rw [if_pos hself, if_pos hself, timedwait_lasts_iff, hns]
    constructor
    · rintro ⟨hlt, hfits⟩
      rw [hns.2 hlt] at hfits
      push_cast at hfits
      exact ⟨by omega, hfits⟩
    · rintro ⟨hle, hfits⟩
      have hlt : milliseconds.toNat * 1000000 < 4294967296 := by omega
      rw [hns.2 hlt]
      push_cast
      exact ⟨hlt, hfits⟩
  · rw [if_neg hself, if_neg hself]
    constructor
    · rintro ⟨d, hd, hlasts⟩
      obtain rfl := Option.some_inj.1 hd
      have hlt := hus.1 hlasts
      omega
    · intro hle
      exact ⟨_, rfl, hus.2 (by omega)⟩

/-- **Five seconds are 705 milliseconds**, of a thread on its own object. -/
theorem sleep_wraps : CThread.sleep () () ⟨0, 0⟩ 5000 = some (.timedwait ⟨0, 705032704⟩) ∧
    ¬ (Delay.timedwait ⟨0, 705032704⟩).Lasts ⟨0, 0⟩ 5000 := by
  refine ⟨rfl, fun hlasts => ?_⟩
  exact absurd hlasts.2.2 (by decide)

end VModule

/-
**The condition variable of `sutils/Condition.cpp` for Windows.**

There is a counter of waiting threads, a semaphore on which they sleep, and an internal mutex that
`signal` and `broadcast` hold throughout, because their callers need not hold the external one.
`broadcast` releases the semaphore once for each waiting thread and then waits for the auto-reset
event `waitersDone`.  The threads it has woken count themselves down, and the one that takes the
counter to zero sets the event.  Until then `broadcast` keeps the internal mutex, and the others are
held up there.

The steps of the machine are the synchronisation calls of the source; a section between
`EnterCriticalSection` and `LeaveCriticalSection` is one step.  A call that has to wait for a mutex
takes its step when it gets it.  `wait` is called without a time limit, and with the external mutex
held.  What is assumed of Windows: `SignalObjectAndWait` is atomic, and a semaphore that is released
goes to a thread that sleeps on it, if there is one.

Main definitions:

* `VModule.WinCondition.Pc`, `VModule.WinCondition.State` — where a thread is, and the state;
* `VModule.WinCondition.Release` — `ReleaseSemaphore`;
* `VModule.WinCondition.Step`, `VModule.WinCondition.machine` — the program;
* `VModule.WinCondition.Stuck` — a broadcast that nobody will finish.
-/

import VModule.Machine
import Mathlib.Logic.Function.Basic

set_option relaxedAutoImplicit false
set_option autoImplicit false

namespace VModule

namespace WinCondition

open Function

/-! ### States -/

/-- Where a thread is. -/
inductive Pc where
  /-- In none of the three functions. -/
  | outside
  /-- In `wait`, counted, and about to sleep. -/
  | entered
  /-- Asleep on the semaphore. -/
  | blocked
  /-- Awake, and still counted. -/
  | woken
  /-- Counted down as `lastWaiter`. -/
  | last
  /-- Waiting for the internal mutex. -/
  | internal
  /-- The internal mutex is to be released. -/
  | holding
  /-- Waiting for the external mutex. -/
  | external
  /-- In `signal`, with the internal mutex. -/
  | signalling
  /-- In `signal`, and `haveWaiters` is true. -/
  | haveWaiters
  /-- In `broadcast`, with the internal mutex. -/
  | broadcasting
  /-- Waiting for `waitersDone`. -/
  | awaitDone
  /-- `wasBroadcast` is to be reset. -/
  | allDone
  /-- At the end of `signal` or `broadcast`. -/
  | leaving
  deriving DecidableEq

namespace Pc

/-- Between the semaphore and the external mutex. -/
def isAwake : Pc → Bool
  | woken | last | internal | holding => true
  | _ => false

/-- With the internal mutex. -/
def isInside : Pc → Bool
  | holding | signalling | haveWaiters | broadcasting | awaitDone | allDone | leaving => true
  | _ => false

end Pc

/-- The external mutex, the members of `WinCondition`, and the threads. -/
structure State (Tid : Type) where
  mutex : Option Tid
  waitersCount : Int
  sema : ℕ
  waitersDone : Bool
  internalMutex : Option Tid
  wasBroadcast : Bool
  pc : Tid → Pc

variable {Tid : Type}

/-- After the constructor. -/
def start : State Tid where
  mutex := none
  waitersCount := 0
  sema := 0
  waitersDone := false
  internalMutex := none
  wasBroadcast := false
  pc _ := .outside

/-! ### Steps -/

/-- What a thread does. -/
inductive Action (Tid : Type) where
  | lock (t : Tid)
  | unlock (t : Tid)
  | enter (t : Tid)
  | sleep (t : Tid)
  | countDown (t : Tid)
  | setDone (t : Tid)
  | lockInternal (t : Tid)
  | unlockInternal (t : Tid)
  | lockExternal (t : Tid)
  | lockSignal (t : Tid)
  | readWaiters (t : Tid)
  | releaseOne (t : Tid)
  | lockBroadcast (t : Tid)
  | releaseAll (t : Tid)
  | getDone (t : Tid)
  | resetBroadcast (t : Tid)
  | leave (t : Tid)

variable [DecidableEq Tid]

/-- `Release pc sema n pc' sema'`: the semaphore is released `n` times.  Each time a sleeping thread
wakes up; if there is none, the count of the semaphore goes up. -/
inductive Release (pc : Tid → Pc) (sema : ℕ) : ℕ → (Tid → Pc) → ℕ → Prop
  | nil : Release pc sema 0 pc sema
  | hand {n : ℕ} {pc' : Tid → Pc} {sema' : ℕ} {t : Tid} : Release pc sema n pc' sema' →
      pc' t = .blocked → Release pc sema (n + 1) (update pc' t .woken) sema'
  | keep {n : ℕ} {pc' : Tid → Pc} {sema' : ℕ} : Release pc sema n pc' sema' →
      (∀ t, pc' t ≠ .blocked) → Release pc sema (n + 1) pc' (sema' + 1)

/-- One step. -/
inductive Step : State Tid → Action Tid → State Tid → Prop
  -- around the calls
  | lock {s : State Tid} {t : Tid} : s.pc t = .outside → s.mutex = none →
      Step s (.lock t) { s with mutex := some t }
  | unlock {s : State Tid} {t : Tid} : s.pc t = .outside → s.mutex = some t →
      Step s (.unlock t) { s with mutex := none }
  -- `wait`
  | enter {s : State Tid} {t : Tid} : s.pc t = .outside → s.mutex = some t →
      Step s (.enter t)
        { s with waitersCount := s.waitersCount + 1, pc := update s.pc t .entered }
  | sleepTakes {s : State Tid} {t : Tid} : s.pc t = .entered → 0 < s.sema →
      Step s (.sleep t)
        { s with mutex := none, sema := s.sema - 1, pc := update s.pc t .woken }
  | sleepBlocks {s : State Tid} {t : Tid} : s.pc t = .entered → s.sema = 0 →
      Step s (.sleep t) { s with mutex := none, pc := update s.pc t .blocked }
  | countDownLast {s : State Tid} {t : Tid} : s.pc t = .woken →
      s.wasBroadcast = true ∧ s.waitersCount - 1 = 0 →
      Step s (.countDown t)
        { s with waitersCount := s.waitersCount - 1, pc := update s.pc t .last }
  | countDown {s : State Tid} {t : Tid} : s.pc t = .woken →
      ¬ (s.wasBroadcast = true ∧ s.waitersCount - 1 = 0) →
      Step s (.countDown t)
        { s with waitersCount := s.waitersCount - 1, pc := update s.pc t .internal }
  | setDone {s : State Tid} {t : Tid} : s.pc t = .last →
      Step s (.setDone t) { s with waitersDone := true, pc := update s.pc t .internal }
  | lockInternal {s : State Tid} {t : Tid} : s.pc t = .internal → s.internalMutex = none →
      Step s (.lockInternal t)
        { s with internalMutex := some t, pc := update s.pc t .holding }
  | unlockInternal {s : State Tid} {t : Tid} : s.pc t = .holding →
      Step s (.unlockInternal t)
        { s with internalMutex := none, pc := update s.pc t .external }
  | lockExternal {s : State Tid} {t : Tid} : s.pc t = .external → s.mutex = none →
      Step s (.lockExternal t) { s with mutex := some t, pc := update s.pc t .outside }
  -- `signal`
  | lockSignal {s : State Tid} {t : Tid} : s.pc t = .outside → s.internalMutex = none →
      Step s (.lockSignal t)
        { s with internalMutex := some t, pc := update s.pc t .signalling }
  | readWaiters {s : State Tid} {t : Tid} : s.pc t = .signalling → 0 < s.waitersCount →
      Step s (.readWaiters t) { s with pc := update s.pc t .haveWaiters }
  | readNone {s : State Tid} {t : Tid} : s.pc t = .signalling → ¬ 0 < s.waitersCount →
      Step s (.readWaiters t) { s with pc := update s.pc t .leaving }
  | releaseOne {s : State Tid} {t : Tid} {pc : Tid → Pc} {sema : ℕ} : s.pc t = .haveWaiters →
      Release s.pc s.sema 1 pc sema →
      Step s (.releaseOne t) { s with sema := sema, pc := update pc t .leaving }
  -- `broadcast`
  | lockBroadcast {s : State Tid} {t : Tid} : s.pc t = .outside → s.internalMutex = none →
      Step s (.lockBroadcast t)
        { s with internalMutex := some t, pc := update s.pc t .broadcasting }
  | releaseAll {s : State Tid} {t : Tid} {pc : Tid → Pc} {sema : ℕ} : s.pc t = .broadcasting →
      0 < s.waitersCount → Release s.pc s.sema s.waitersCount.toNat pc sema →
      Step s (.releaseAll t)
        { s with wasBroadcast := true, sema := sema, pc := update pc t .awaitDone }
  | releaseNone {s : State Tid} {t : Tid} : s.pc t = .broadcasting → ¬ 0 < s.waitersCount →
      Step s (.releaseAll t) { s with pc := update s.pc t .leaving }
  | getDone {s : State Tid} {t : Tid} : s.pc t = .awaitDone → s.waitersDone = true →
      Step s (.getDone t) { s with waitersDone := false, pc := update s.pc t .allDone }
  | resetBroadcast {s : State Tid} {t : Tid} : s.pc t = .allDone →
      Step s (.resetBroadcast t)
        { s with wasBroadcast := false, pc := update s.pc t .leaving }
  | leave {s : State Tid} {t : Tid} : s.pc t = .leaving →
      Step s (.leave t) { s with internalMutex := none, pc := update s.pc t .outside }

/-- The program. -/
def machine (Tid : Type) [DecidableEq Tid] : Machine (State Tid) (Action Tid) where
  init s := s = start
  step := Step

/-! ### A broadcast that nobody will finish -/

/-- A broadcaster waits for `waitersDone`, which is not set, nobody can take the semaphore, and
everybody who has been woken waits for the internal mutex, which the broadcaster holds. -/
structure Stuck (s : State Tid) : Prop where
  broadcaster : ∃ b, s.pc b = .awaitDone
  unset : s.waitersDone = false
  sema : s.sema = 0
  woken : ∀ t, (s.pc t).isAwake = true → s.pc t = .internal

/-- While a broadcaster waits, the last of the threads that are awake and still counted finds the
counter at one. -/
def InTime (s : State Tid) (a : Action Tid) : Prop :=
  ∀ t, a = .countDown t → (∃ b, s.pc b = .awaitDone) → s.waitersDone = false → s.sema = 0 →
    (∀ u, u ≠ t → s.pc u ≠ .woken ∧ s.pc u ≠ .last) → s.waitersCount = 1

end WinCondition

end VModule

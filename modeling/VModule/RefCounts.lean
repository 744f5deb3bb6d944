/-
**The two counters of `sutils/RefBase.cpp`, one atomic operation at a time.**

One object derived from `RefBase`, with the lifetime it has by default, is shared by any number of
threads.  Each step of the machine is one atomic operation on `mStrong` or `mWeak`: an increment, a
decrement, an addition, a compare-and-swap, or a plain read.  The six functions are `incStrong`,
`decStrong`, `incWeak`, `decWeak`, `attemptIncStrong` and `attemptIncWeak`.  `onFirstRef` and
`onLastStrongRef` touch no reference.  As `mFlags` is zero, the branches for an extended lifetime
are not taken.  The counters are integers; `VModule.RefCounts.Counted.fits` says that they do not
overflow.

What the callers hold is part of the state: how many strong and how many weak references have been
acquired and not released yet.  Who holds which does not matter.  A reference is released when the
call that releases it begins, and acquired when the call that acquires it returns.  A caller of
`incStrong` copies a strong reference that is held, or makes the first one from the pointer that
`new` has returned; a caller of the other functions that acquire needs some reference.  Callers keep
what a call needs until it returns.  The machine lets them release it as soon as the call has
counted itself, so it has these runs and others.

Main definitions:

* `VModule.RefCounts.Pc`, `VModule.RefCounts.State` — where a thread is, and the state;
* `VModule.RefCounts.Step`, `VModule.RefCounts.machine` — the program;
* `VModule.RefCounts.Few` — fewer than `2 ^ 28` references.
-/

import Mathlib.Logic.Function.Basic
import VModule.Machine
import VModule.Tally

set_option relaxedAutoImplicit false
set_option autoImplicit false

namespace VModule

namespace RefCounts

open Function

/-! ### States -/

/-- `INITIAL_STRONG_VALUE`. -/
def initialStrongValue : Int := 2 ^ 28

/-- Where a thread is.  A compare-and-swap carries the value it expects, for which the test of its
loop has held. -/
inductive Pc where
  /-- In none of the functions. -/
  | outside
  /-- `incStrong`, before its `incWeak`; `first` if no reference is copied. -/
  | incStrongWeak (first : Bool)
  /-- `incStrong`, before it increments `mStrong`. -/
  | incStrong (first : Bool)
  /-- `incStrong` has found `INITIAL_STRONG_VALUE`, and will take it off. -/
  | incStrongAdd
  /-- `decStrong`, before it decrements `mStrong`. -/
  | decStrong
  /-- `decStrong` has found 1, and will call `onLastStrongRef` and delete the object. -/
  | lastStrong
  /-- In `~RefBase`, called by `decStrong`. -/
  | destructor
  /-- `decWeak`, before it decrements `mWeak`. -/
  | decWeak
  /-- `decWeak` has found 1, and will read `mStrong`. -/
  | lastWeak
  /-- In `~RefBase`, called by `decWeak`. -/
  | lastDestructor
  /-- `incWeak`. -/
  | incWeak
  /-- `attemptIncWeak`, before it reads `mWeak`. -/
  | attemptWeakRead
  /-- The loop of `attemptIncWeak`. -/
  | attemptWeakSwap (curCount : Int) (h : 0 < curCount)
  /-- `attemptIncStrong`, before its `incWeak`. -/
  | attemptWeak
  /-- `attemptIncStrong`, before it reads `mStrong`. -/
  | attemptRead
  /-- The first loop of `attemptIncStrong`. -/
  | attemptSwap (curCount : Int) (h : 0 < curCount ∧ curCount ≠ initialStrongValue)
  /-- The loop for an object that never had a strong reference. -/
  | promoteSwap (curCount : Int) (h : 0 < curCount)
  /-- That loop, before it reads `mStrong` again. -/
  | promoteRead
  /-- The branch that calls `onLastStrongRef` to give up an unneeded reference. -/
  | unneeded
  /-- The last loop, before it reads `mStrong`. -/
  | fixRead
  /-- The last loop. -/
  | fixSwap (curCount : Int) (h : initialStrongValue ≤ curCount)

/-- The object, its `weakref_impl`, the references and the threads. -/
structure State (Tid : Type) where
  mStrong : Int
  mWeak : Int
  /-- The strong references held. -/
  strong : ℕ
  /-- The weak references held. -/
  weak : ℕ
  /-- The pointer that `new` has returned has been used. -/
  created : Bool
  /-- Some strong reference has been acquired. -/
  acquired : Bool
  /-- How often the destructor of the object has been entered. -/
  deleted : ℕ
  /-- How often the `weakref_impl` has been deleted. -/
  implDeleted : ℕ
  pc : Tid → Pc

variable {Tid : Type}

/-- Nobody is in a function, and there are `strong` and `weak` references. -/
def start (created : Bool) (strong weak : ℕ) : State Tid where
  mStrong := if strong = 0 then initialStrongValue else strong
  mWeak := strong + weak
  strong := strong
  weak := weak
  created := created
  acquired := decide (0 < strong)
  deleted := 0
  implDeleted := 0
  pc _ := .outside

namespace Pc

/-- The call copies a strong reference that is held, and has not counted itself. -/
def needsStrong : Pc → Bool
  | incStrongWeak first => !first
  | incStrong first => !first
  | _ => false

/-- The call relies on a reference that is held, and has not counted itself. -/
def needsRef : Pc → Bool
  | incStrongWeak first => !first
  | incStrong first => !first
  | incWeak | attemptWeakRead | attemptWeakSwap _ _ | attemptWeak => true
  | _ => false

/-- The part of `mStrong` that is the call's own. -/
def strongRefs : Pc → ℕ
  | incStrongAdd | decStrong | unneeded | fixRead | fixSwap _ _ => 1
  | _ => 0

/-- The part of `mWeak` that is the call's own. -/
def weakRefs : Pc → ℕ
  | incStrong _ | incStrongAdd | decStrong | lastStrong | destructor | decWeak => 1
  | attemptRead | attemptSwap _ _ | promoteSwap _ _ | promoteRead | unneeded => 1
  | fixRead | fixSwap _ _ => 1
  | _ => 0

end Pc

/-- What would be held may cover the calls in progress. -/
def Covers (strong weak : ℕ) (pc : Tid → Pc) : Prop :=
  ∀ t, ((pc t).needsStrong = true → 0 < strong) ∧ ((pc t).needsRef = true → 0 < strong + weak)

/-! ### Steps -/

/-- A call begins, or a thread makes its next step. -/
inductive Action (Tid : Type) where
  | call (t : Tid)
  | go (t : Tid)

variable [DecidableEq Tid]

/-- One step. -/
inductive Step : State Tid → Action Tid → State Tid → Prop
  -- the calls
  | callFirst {s : State Tid} {t : Tid} : s.pc t = .outside → s.created = false →
      s.deleted = 0 →
      Step s (.call t) { s with created := true, pc := update s.pc t (.incStrongWeak true) }
  | callIncStrong {s : State Tid} {t : Tid} : s.pc t = .outside → 0 < s.strong →
      Step s (.call t) { s with pc := update s.pc t (.incStrongWeak false) }
  | callDecStrong {s : State Tid} {t : Tid} : s.pc t = .outside → 0 < s.strong →
      Covers (s.strong - 1) s.weak s.pc →
      Step s (.call t) { s with strong := s.strong - 1, pc := update s.pc t .decStrong }
  | callIncWeak {s : State Tid} {t : Tid} : s.pc t = .outside → 0 < s.strong + s.weak →
      Step s (.call t) { s with pc := update s.pc t .incWeak }
  | callDecWeak {s : State Tid} {t : Tid} : s.pc t = .outside → 0 < s.weak →
      Covers s.strong (s.weak - 1) s.pc →
      Step s (.call t) { s with weak := s.weak - 1, pc := update s.pc t .decWeak }
  | callAttemptWeak {s : State Tid} {t : Tid} : s.pc t = .outside → 0 < s.strong + s.weak →
      Step s (.call t) { s with pc := update s.pc t .attemptWeakRead }
  | callAttemptStrong {s : State Tid} {t : Tid} : s.pc t = .outside → 0 < s.strong + s.weak →
      Step s (.call t) { s with pc := update s.pc t .attemptWeak }
  -- `incStrong`
  | incStrongWeak {s : State Tid} {t : Tid} {first : Bool} : s.pc t = .incStrongWeak first →
      Step s (.go t) { s with mWeak := s.mWeak + 1, pc := update s.pc t (.incStrong first) }
  | incStrong {s : State Tid} {t : Tid} {first : Bool} : s.pc t = .incStrong first →
      s.mStrong ≠ initialStrongValue →
      Step s (.go t)
        { s with mStrong := s.mStrong + 1, strong := s.strong + 1, acquired := true,
                 pc := update s.pc t .outside }
  | incStrongFirst {s : State Tid} {t : Tid} {first : Bool} : s.pc t = .incStrong first →
      s.mStrong = initialStrongValue →
      Step s (.go t) { s with mStrong := s.mStrong + 1, pc := update s.pc t .incStrongAdd }
  | incStrongAdd {s : State Tid} {t : Tid} : s.pc t = .incStrongAdd →
      Step s (.go t)
        { s with mStrong := s.mStrong + -initialStrongValue, strong := s.strong + 1,
                 acquired := true, pc := update s.pc t .outside }
  -- `decStrong` and `~RefBase`
  | decStrong {s : State Tid} {t : Tid} : s.pc t = .decStrong → s.mStrong ≠ 1 →
      Step s (.go t) { s with mStrong := s.mStrong - 1, pc := update s.pc t .decWeak }
  | decStrongLast {s : State Tid} {t : Tid} : s.pc t = .decStrong → s.mStrong = 1 →
      Step s (.go t) { s with mStrong := s.mStrong - 1, pc := update s.pc t .lastStrong }
  | lastStrong {s : State Tid} {t : Tid} : s.pc t = .lastStrong →
      Step s (.go t) { s with deleted := s.deleted + 1, pc := update s.pc t .destructor }
  | destructorNever {s : State Tid} {t : Tid} : s.pc t = .destructor →
      s.mStrong = initialStrongValue →
      Step s (.go t) { s with implDeleted := s.implDeleted + 1, pc := update s.pc t .decWeak }
  | destructor {s : State Tid} {t : Tid} : s.pc t = .destructor →
      s.mStrong ≠ initialStrongValue →
      Step s (.go t) { s with pc := update s.pc t .decWeak }
  -- `decWeak`, at the end of other functions too
  | decWeak {s : State Tid} {t : Tid} : s.pc t = .decWeak → s.mWeak ≠ 1 →
      Step s (.go t) { s with mWeak := s.mWeak - 1, pc := update s.pc t .outside }
  | decWeakLast {s : State Tid} {t : Tid} : s.pc t = .decWeak → s.mWeak = 1 →
      Step s (.go t) { s with mWeak := s.mWeak - 1, pc := update s.pc t .lastWeak }
  | lastWeakNever {s : State Tid} {t : Tid} : s.pc t = .lastWeak →
      s.mStrong = initialStrongValue →
      Step s (.go t) { s with deleted := s.deleted + 1, pc := update s.pc t .lastDestructor }
  | lastWeak {s : State Tid} {t : Tid} : s.pc t = .lastWeak → s.mStrong ≠ initialStrongValue →
      Step s (.go t) { s with implDeleted := s.implDeleted + 1, pc := update s.pc t .outside }
  | lastDestructorNever {s : State Tid} {t : Tid} : s.pc t = .lastDestructor →
      s.mStrong = initialStrongValue →
      Step s (.go t) { s with implDeleted := s.implDeleted + 1, pc := update s.pc t .outside }
  | lastDestructor {s : State Tid} {t : Tid} : s.pc t = .lastDestructor →
      s.mStrong ≠ initialStrongValue →
      Step s (.go t) { s with pc := update s.pc t .outside }
  -- `incWeak`
  | incWeak {s : State Tid} {t : Tid} : s.pc t = .incWeak →
      Step s (.go t)
        { s with mWeak := s.mWeak + 1, weak := s.weak + 1, pc := update s.pc t .outside }
  -- `attemptIncWeak`
  | attemptWeakRead {s : State Tid} {t : Tid} : s.pc t = .attemptWeakRead →
      (h : 0 < s.mWeak) →
      Step s (.go t) { s with pc := update s.pc t (.attemptWeakSwap s.mWeak h) }
  | attemptWeakNone {s : State Tid} {t : Tid} : s.pc t = .attemptWeakRead → ¬ 0 < s.mWeak →
      Step s (.go t) { s with pc := update s.pc t .outside }
  | attemptWeakSwap {s : State Tid} {t : Tid} {c : Int} {h : 0 < c} :
      s.pc t = .attemptWeakSwap c h → s.mWeak = c →
      Step s (.go t)
        { s with mWeak := c + 1, weak := s.weak + 1, pc := update s.pc t .outside }
  | attemptWeakAgain {s : State Tid} {t : Tid} {c : Int} {h : 0 < c} :
      s.pc t = .attemptWeakSwap c h → s.mWeak ≠ c →
      Step s (.go t) { s with pc := update s.pc t .attemptWeakRead }
  -- `attemptIncStrong`
  | attemptWeak {s : State Tid} {t : Tid} : s.pc t = .attemptWeak →
      Step s (.go t) { s with mWeak := s.mWeak + 1, pc := update s.pc t .attemptRead }
  | attemptRead {s : State Tid} {t : Tid} : s.pc t = .attemptRead →
      (h : 0 < s.mStrong ∧ s.mStrong ≠ initialStrongValue) →
      Step s (.go t) { s with pc := update s.pc t (.attemptSwap s.mStrong h) }
  | attemptNever {s : State Tid} {t : Tid} : s.pc t = .attemptRead →
      s.mStrong = initialStrongValue → (h : 0 < s.mStrong) →
      Step s (.go t) { s with pc := update s.pc t (.promoteSwap s.mStrong h) }
  | attemptNone {s : State Tid} {t : Tid} : s.pc t = .attemptRead → s.mStrong ≤ 0 →
      Step s (.go t) { s with pc := update s.pc t .decWeak }
  | attemptSwap {s : State Tid} {t : Tid} {c : Int} {h : 0 < c ∧ c ≠ initialStrongValue} :
      s.pc t = .attemptSwap c h → s.mStrong = c →
      Step s (.go t) { s with mStrong := c + 1, pc := update s.pc t .fixRead }
  | attemptAgain {s : State Tid} {t : Tid} {c : Int} {h : 0 < c ∧ c ≠ initialStrongValue} :
      s.pc t = .attemptSwap c h → s.mStrong ≠ c →
      Step s (.go t) { s with pc := update s.pc t .attemptRead }
  | promoteSwap {s : State Tid} {t : Tid} {c : Int} {h : 0 < c} :
      s.pc t = .promoteSwap c h → s.mStrong = c → ¬ (c > 0 ∧ c < initialStrongValue) →
      Step s (.go t) { s with mStrong := c + 1, pc := update s.pc t .fixRead }
  | promoteUnneeded {s : State Tid} {t : Tid} {c : Int} {h : 0 < c} :
      s.pc t = .promoteSwap c h → s.mStrong = c → c > 0 ∧ c < initialStrongValue →
      Step s (.go t) { s with mStrong := c + 1, pc := update s.pc t .unneeded }
  | promoteAgain {s : State Tid} {t : Tid} {c : Int} {h : 0 < c} :
      s.pc t = .promoteSwap c h → s.mStrong ≠ c →
      Step s (.go t) { s with pc := update s.pc t .promoteRead }
  | promoteRead {s : State Tid} {t : Tid} : s.pc t = .promoteRead → (h : 0 < s.mStrong) →
      Step s (.go t) { s with pc := update s.pc t (.promoteSwap s.mStrong h) }
  | promoteNone {s : State Tid} {t : Tid} : s.pc t = .promoteRead → s.mStrong ≤ 0 →
      Step s (.go t) { s with pc := update s.pc t .decWeak }
  | unneeded {s : State Tid} {t : Tid} : s.pc t = .unneeded →
      Step s (.go t) { s with pc := update s.pc t .fixRead }
  | fixRead {s : State Tid} {t : Tid} : s.pc t = .fixRead →
      (h : initialStrongValue ≤ s.mStrong) →
      Step s (.go t) { s with pc := update s.pc t (.fixSwap s.mStrong h) }
  | fixNone {s : State Tid} {t : Tid} : s.pc t = .fixRead → s.mStrong < initialStrongValue →
      Step s (.go t)
        { s with strong := s.strong + 1, acquired := true, pc := update s.pc t .outside }
  | fixSwap {s : State Tid} {t : Tid} {c : Int} {h : initialStrongValue ≤ c} :
      s.pc t = .fixSwap c h → s.mStrong = c →
      Step s (.go t)
        { s with mStrong := c - initialStrongValue, strong := s.strong + 1, acquired := true,
                 pc := update s.pc t .outside }
  | fixAgain {s : State Tid} {t : Tid} {c : Int} {h : initialStrongValue ≤ c} :
      s.pc t = .fixSwap c h → s.mStrong ≠ c →
      Step s (.go t) { s with pc := update s.pc t .fixRead }

/-- The program, for an object with any references, or none. -/
def machine (Tid : Type) [DecidableEq Tid] : Machine (State Tid) (Action Tid) where
  init s := ∃ created strong weak, s = start created strong weak
  step := Step

/-- The references: those held, and those that are the own ones of a call in progress. -/
noncomputable def State.references {Tid : Type} (s : State Tid) : ℕ :=
  s.strong + s.weak + tally Pc.weakRefs s.pc

/-- There are fewer than `2 ^ 28` references. -/
def Few {Tid : Type} (s : State Tid) (_ : Action Tid) : Prop := s.references < 2 ^ 28

end RefCounts

end VModule

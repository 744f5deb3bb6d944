/-
**A thread object, its callers and its threads.**

`CThread` (`sutils/Thread.cpp`) runs `threadLoop` of a derived class in a thread of its own, as
often as `run` is called.  The object is kept alive by strong references (`sutils/RefBase.cpp`): the
callers', `mHoldSelf` while a thread starts, and the local `strong` of `_threadLoop`, which is given
up and taken again after every iteration:

```
_threadLoop:  strong(mHoldSelf); weak(strong); mHoldSelf.clear();
              do {
                first time:  mStatus = readyToRun(); result = (mStatus == NO_ERROR);
                             if (result && !exitPending()) result = threadLoop();
                later:       result = threadLoop();
                lock mLock:  if (!result || mExitPending) {
                               mExitPending = true; mRunning = false; m_ThreadId = -1;
                               mExitedCondition.broadcast(); break;
                             }
                strong.clear(); strong = weak.promote();
              } while (strong != 0);
```

The machine below has one step for each section of `mLock`, for each atomic operation on the strong
count and for each other access to the object, and the public functions may be called by every
thread that holds a strong reference, the object's own threads included.  The section of `run` is
several steps long, because the thread it creates runs before the section ends.

The strong count is a natural number: its first reference has been taken, so that
`INITIAL_STRONG_VALUE` is off the count, and it stays far below that value.

Main definitions:

* `VModule.CThread.Loop`, `VModule.CThread.Call` — where a thread stands in `_threadLoop`, and in a
  public function;
* `VModule.CThread.State`, `VModule.CThread.Step` — the states and the steps;
* `VModule.CThread.machine` — the machine of an object whose creator holds the first reference.
-/

import Mathlib.Logic.Function.Basic
import VModule.Errors
import VModule.Machine

set_option relaxedAutoImplicit false
set_option autoImplicit false

namespace VModule

namespace CThread

open Function

/-! ### Where a thread stands -/

/-- A thread in `_threadLoop`. -/
inductive Loop where
  /-- Not in `_threadLoop`. -/
  | outside
  | entered
  /-- `strong` is a copy of `mHoldSelf`. -/
  | copied
  /-- In `mHoldSelf.clear()`: the count is decremented, the pointer not yet null. -/
  | cleared
  | readyToRun
  /-- Before the test of `exitPending()`. -/
  | exitPending
  /-- Before the call of `threadLoop()`. -/
  | call
  | threadLoop
  | lock (result : Bool)
  /-- Before `strong.clear()`. -/
  | clear
  /-- In `weak.promote()`, before the count is read. -/
  | promote
  /-- In `weak.promote()`, with the count that was read. -/
  | compare (curCount : ℕ)
  /-- The result of `promote()` holds a reference. -/
  | promoted
  /-- Both that result and `strong` hold a reference. -/
  | assigned
  /-- The promotion has failed, and the thread returns. -/
  | gone
  /-- Behind the `break`. -/
  | unwind
  /-- `strong` is a copy of a null pointer. -/
  | orphan
  deriving DecidableEq

namespace Loop

/-- The thread of a run that has not passed its exit section. -/
def isRun : Loop → Bool
  | .outside => false
  | .unwind => false
  | _ => true

/-- The strong references of a thread in `_threadLoop`. -/
def refs : Loop → ℕ
  | .outside => 0
  | .entered => 0
  | .promote => 0
  | .compare _ => 0
  | .gone => 0
  | .orphan => 0
  | .assigned => 2
  | _ => 1

/-- In code of the derived class, or outside `_threadLoop`. -/
def user : Loop → Bool
  | .outside => true
  | .readyToRun => true
  | .threadLoop => true
  | _ => false

/-- Inside `readyToRun()` or `threadLoop()`. -/
def inside : Loop → Bool
  | .readyToRun => true
  | .threadLoop => true
  | _ => false

/-- Inside the object, or about to read or write one of its members. -/
def touches : Loop → Bool
  | .outside => false
  | .promote => false
  | .compare _ => false
  | .gone => false
  | _ => true

end Loop

variable {Tid : Type}

/-- A call of `run` that holds `mLock`. -/
inductive Stage (Tid : Type) where
  /-- Before `createRawThread`. -/
  | create
  /-- The thread is created, and its id not yet stored. -/
  | created (thread : Tid)
  /-- `createRawThread` has failed, and `mHoldSelf` is to be cleared. -/
  | failed
  /-- In `mHoldSelf.clear()`. -/
  | cleared
  deriving DecidableEq

/-- A thread in a public function; the waits are those of `requestExitAndWait`, or of `join`. -/
inductive Call (Tid : Type) where
  | outside
  | run (stage : Stage Tid)
  /-- Blocked on `mExitedCondition` and not notified. -/
  | waiting (exit : Bool)
  /-- No longer blocked, about to take `mLock` again. -/
  | woken (exit : Bool)
  deriving DecidableEq

namespace Call

def stage : Call Tid → Option (Stage Tid)
  | .run st => some st
  | _ => none

/-- In `requestExitAndWait`, past the assignment to `mExitPending`. -/
def exits : Call Tid → Bool
  | .waiting exit => exit
  | .woken exit => exit
  | _ => false

/-- What `broadcast` does to a thread. -/
def notify : Call Tid → Call Tid
  | .waiting exit => .woken exit
  | c => c

end Call

/-- The member `mHoldSelf`. -/
inductive HoldSelf where
  | null
  | held
  /-- The reference is given up, the pointer not yet null. -/
  | cleared
  deriving DecidableEq

/-! ### States and actions -/

/-- The state of a `CThread` and of all threads.  The last three fields record the past: how many
runs were begun, which of them a thread works for, and how often each has started `threadLoop`. -/
structure State (Tid : Type) where
  mLock : Option Tid
  mThreadId : Option Tid
  mStatus : Int
  mExitPending : Bool
  mRunning : Bool
  mHoldSelf : HoldSelf
  mStrong : ℕ
  loop : Tid → Loop
  call : Tid → Call Tid
  /-- The strong references a thread holds outside `_threadLoop`. -/
  held : Tid → ℕ
  /-- The thread has taken the count to zero, and runs the destructor. -/
  deleting : Tid → Bool
  destroyed : ℕ
  runs : ℕ
  number : Tid → ℕ
  starts : ℕ → ℕ

/-- The steps by name.  A call that returns in the step carries the value. -/
inductive Action (Tid : Type) where
  | run (t : Tid) (returned : Option Status)
  | create (t : Tid) (thread : Option Tid)
  | clearHold (t : Tid)
  | runDone (t : Tid) (returned : Status)
  | requestExit (t : Tid)
  | requestExitAndWait (t : Tid) (returned : Option Int)
  | join (t : Tid) (returned : Option Int)
  | isRunning (t : Tid) (returned : Bool)
  | spurious (t : Tid)
  | resume (t : Tid) (returned : Option Int)
  | share (t u : Tid)
  | drop (t : Tid)
  | delete (t : Tid)
  | copyHold (t : Tid)
  | clearSelf (t : Tid)
  | nullSelf (t : Tid)
  | readyToRun (t : Tid) (returned : Int)
  | exitPending (t : Tid) (returned : Bool)
  | threadLoop (t : Tid)
  | loopReturns (t : Tid) (result : Bool)
  | lock (t : Tid)
  | clearStrong (t : Tid)
  | readCount (t : Tid)
  | compareCount (t : Tid)
  | assign (t : Tid)
  | dropResult (t : Tid)
  | unwind (t : Tid)
  deriving DecidableEq

variable [DecidableEq Tid]

namespace State

/-- The thread runs code of its own, and not code of the object or of its pointers. -/
def user (s : State Tid) (t : Tid) : Prop :=
  s.call t = .outside ∧ s.deleting t = false ∧ (s.loop t).user = true

/-- The thread may call a public function: it holds a strong reference. -/
def mayCall (s : State Tid) (t : Tid) : Prop :=
  s.user t ∧ 0 < s.held t + (s.loop t).refs

/-- `decStrong`: whoever takes the count to zero has to delete the object. -/
def decStrong (s : State Tid) (t : Tid) : State Tid :=
  { s with
    mStrong := s.mStrong - 1
    deleting := if s.mStrong = 1 then update s.deleting t true else s.deleting }

end State

/-! ### Steps -/

inductive Step : State Tid → Action Tid → State Tid → Prop
  -- `run`
  | runRefused {s : State Tid} {t : Tid} : s.mayCall t → s.mLock = none → s.mRunning = true →
      Step s (.run t (some .invalidOperation)) s
  | run {s : State Tid} {t : Tid} : s.mayCall t → s.mLock = none → s.mRunning = false →
      Step s (.run t none)
        { s with
          mLock := some t
          mStatus := Status.noError.code
          mExitPending := false
          mThreadId := none
          mStrong := if s.mHoldSelf = .null then s.mStrong + 1 else s.mStrong
          mHoldSelf := .held
          mRunning := true
          call := update s.call t (.run .create) }
  | create {s : State Tid} {t u : Tid} : s.call t = .run .create → s.loop u = .outside →
      s.call u = .outside → s.deleting u = false →
      Step s (.create t (some u))
        { s with
          call := update s.call t (.run (.created u))
          loop := update s.loop u .entered
          number := update s.number u s.runs
          runs := s.runs + 1 }
  | createFails {s : State Tid} {t : Tid} : s.call t = .run .create →
      Step s (.create t none)
        { s with
          mStatus := Status.unknownError.code
          mRunning := false
          mThreadId := none
          call := update s.call t (.run .failed) }
  | clearHold {s : State Tid} {t : Tid} : s.call t = .run .failed → s.mHoldSelf ≠ .null →
      Step s (.clearHold t)
        { s.decStrong t with
          mHoldSelf := .cleared
          call := update s.call t (.run .cleared) }
  | clearHoldNull {s : State Tid} {t : Tid} : s.call t = .run .failed → s.mHoldSelf = .null →
      Step s (.clearHold t) { s with call := update s.call t (.run .cleared) }
  | runDone {s : State Tid} {t u : Tid} : s.call t = .run (.created u) →
      Step s (.runDone t .noError)
        { s with mThreadId := some u, mLock := none, call := update s.call t .outside }
  | runFailed {s : State Tid} {t : Tid} : s.call t = .run .cleared → s.deleting t = false →
      Step s (.runDone t .unknownError)
        { s with mHoldSelf := .null, mLock := none, call := update s.call t .outside }
  -- `requestExit`, `requestExitAndWait`, `join`, `isRunning`
  | requestExit {s : State Tid} {t : Tid} : s.mayCall t → s.mLock = none →
      Step s (.requestExit t) { s with mExitPending := true }
  | exitWouldBlock {s : State Tid} {t : Tid} : s.mayCall t → s.mLock = none →
      s.mThreadId = some t →
      Step s (.requestExitAndWait t (some Status.wouldBlock.code)) s
  | exitWaits {s : State Tid} {t : Tid} : s.mayCall t → s.mLock = none → s.mThreadId ≠ some t →
      s.mRunning = true →
      Step s (.requestExitAndWait t none)
        { s with mExitPending := true, call := update s.call t (.waiting true) }
  -- nothing is running: the flag is set and cleared again in one section
  | exitReturns {s : State Tid} {t : Tid} : s.mayCall t → s.mLock = none → s.mThreadId ≠ some t →
      s.mRunning = false →
      Step s (.requestExitAndWait t (some s.mStatus)) { s with mExitPending := false }
  | joinWouldBlock {s : State Tid} {t : Tid} : s.mayCall t → s.mLock = none →
      s.mThreadId = some t →
      Step s (.join t (some Status.wouldBlock.code)) s
  | joinWaits {s : State Tid} {t : Tid} : s.mayCall t → s.mLock = none → s.mThreadId ≠ some t →
      s.mRunning = true →
      Step s (.join t none) { s with call := update s.call t (.waiting false) }
  | joinReturns {s : State Tid} {t : Tid} : s.mayCall t → s.mLock = none → s.mThreadId ≠ some t →
      s.mRunning = false → Step s (.join t (some s.mStatus)) s
  | isRunning {s : State Tid} {t : Tid} : s.mayCall t → s.mLock = none →
      Step s (.isRunning t s.mRunning) s
  | spurious {s : State Tid} {t : Tid} {exit : Bool} : s.call t = .waiting exit →
      Step s (.spurious t) { s with call := update s.call t (.woken exit) }
  | resumeWaits {s : State Tid} {t : Tid} {exit : Bool} : s.call t = .woken exit →
      s.mLock = none → s.mRunning = true →
      Step s (.resume t none) { s with call := update s.call t (.waiting exit) }
  | resumeReturns {s : State Tid} {t : Tid} {exit : Bool} : s.call t = .woken exit →
      s.mLock = none → s.mRunning = false →
      Step s (.resume t (some s.mStatus))
        { s with
          mExitPending := if exit = true then false else s.mExitPending
          call := update s.call t .outside }
  -- strong references of the callers
  | share {s : State Tid} {t u : Tid} : s.mayCall t →
      Step s (.share t u)
        { s with mStrong := s.mStrong + 1, held := update s.held u (s.held u + 1) }
  | drop {s : State Tid} {t : Tid} : s.user t → 0 < s.held t →
      Step s (.drop t) { s.decStrong t with held := update s.held t (s.held t - 1) }
  | delete {s : State Tid} {t : Tid} : s.deleting t = true →
      Step s (.delete t)
        { s with deleting := update s.deleting t false, destroyed := s.destroyed + 1 }
  -- `_threadLoop`
  | copyHold {s : State Tid} {t : Tid} : s.loop t = .entered → s.mHoldSelf ≠ .null →
      Step s (.copyHold t)
        { s with mStrong := s.mStrong + 1, loop := update s.loop t .copied }
  | copyNull {s : State Tid} {t : Tid} : s.loop t = .entered → s.mHoldSelf = .null →
      Step s (.copyHold t) { s with loop := update s.loop t .orphan }
  | clearSelf {s : State Tid} {t : Tid} : s.loop t = .copied → s.mHoldSelf ≠ .null →
      Step s (.clearSelf t)
        { s.decStrong t with mHoldSelf := .cleared, loop := update s.loop t .cleared }
  | clearNull {s : State Tid} {t : Tid} : s.loop t = .copied → s.mHoldSelf = .null →
      Step s (.clearSelf t) { s with loop := update s.loop t .readyToRun }
  | nullSelf {s : State Tid} {t : Tid} : s.loop t = .cleared → s.deleting t = false →
      Step s (.nullSelf t) { s with mHoldSelf := .null, loop := update s.loop t .readyToRun }
  | readyToRun {s : State Tid} {t : Tid} {status : Int} : s.loop t = .readyToRun →
      s.call t = .outside → s.deleting t = false →
      Step s (.readyToRun t status)
        { s with
          mStatus := status
          loop := update s.loop t
            (if status = Status.noError.code then .exitPending else .lock false) }
  | exitPending {s : State Tid} {t : Tid} : s.loop t = .exitPending → s.mLock = none →
      Step s (.exitPending t s.mExitPending)
        { s with loop := update s.loop t (if s.mExitPending = true then .lock true else .call) }
  | threadLoop {s : State Tid} {t : Tid} : s.loop t = .call → s.deleting t = false →
      Step s (.threadLoop t)
        { s with
          loop := update s.loop t .threadLoop
          starts := update s.starts (s.number t) (s.starts (s.number t) + 1) }
  | loopReturns {s : State Tid} {t : Tid} {result : Bool} : s.loop t = .threadLoop →
      s.call t = .outside → s.deleting t = false →
      Step s (.loopReturns t result) { s with loop := update s.loop t (.lock result) }
  | lockExit {s : State Tid} {t : Tid} {result : Bool} : s.loop t = .lock result →
      s.mLock = none → result = false ∨ s.mExitPending = true →
      Step s (.lock t)
        { s with
          mExitPending := true
          mRunning := false
          mThreadId := none
          call := fun c => (s.call c).notify
          loop := update s.loop t .unwind }
  | lockStay {s : State Tid} {t : Tid} : s.loop t = .lock true → s.mLock = none →
      s.mExitPending = false →
      Step s (.lock t) { s with loop := update s.loop t .clear }
  | clearStrong {s : State Tid} {t : Tid} : s.loop t = .clear →
      Step s (.clearStrong t) { s.decStrong t with loop := update s.loop t .promote }
  | readCount {s : State Tid} {t : Tid} : s.loop t = .promote → s.deleting t = false →
      Step s (.readCount t)
        { s with
          loop := update s.loop t (if s.mStrong = 0 then .gone else .compare s.mStrong) }
  | compareCount {s : State Tid} {t : Tid} : s.loop t = .compare s.mStrong →
      Step s (.compareCount t)
        { s with mStrong := s.mStrong + 1, loop := update s.loop t .promoted }
  -- the count has changed, and is read again
  | compareFails {s : State Tid} {t : Tid} {curCount : ℕ} : s.loop t = .compare curCount →
      s.mStrong ≠ curCount →
      Step s (.compareCount t) { s with loop := update s.loop t .promote }
  | assign {s : State Tid} {t : Tid} : s.loop t = .promoted →
      Step s (.assign t)
        { s with mStrong := s.mStrong + 1, loop := update s.loop t .assigned }
  | dropResult {s : State Tid} {t : Tid} : s.loop t = .assigned →
      Step s (.dropResult t) { s.decStrong t with loop := update s.loop t .call }
  | unwind {s : State Tid} {t : Tid} : s.loop t = .unwind →
      Step s (.unwind t) { s.decStrong t with loop := update s.loop t .outside }

/-- A new object with one strong reference, held by thread `t`. -/
def start (t : Tid) : State Tid where
  mLock := none
  mThreadId := none
  mStatus := Status.noError.code
  mExitPending := false
  mRunning := false
  mHoldSelf := .null
  mStrong := 1
  loop _ := .outside
  call _ := .outside
  held := update (fun _ => 0) t 1
  deleting _ := false
  destroyed := 0
  runs := 0
  number _ := 0
  starts _ := 0

/-- The machine of a `CThread` that thread `t` has created. -/
def machine (t : Tid) : Machine (State Tid) (Action Tid) where
  init s := s = start t
  step := Step

end CThread

end VModule

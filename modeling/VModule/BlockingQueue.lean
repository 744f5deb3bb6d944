/-
**Blocking queues: the mutex, the condition variable and the queue behind them.**

`VmBlockingQueue` (`sutils/VmBlockingQueue.cpp`) and `CBlockingQueue<T>`
(`include/sutils/Queue.hpp`) have the same three member functions, over an `MQUEUE` and over a
`CQueue<T>`.  This module embeds them once, over any verified queue, as a machine whose steps are
the mutex sections and the condition variable operations of the threads that call them:

```
DeQueue(d):  lock; if (length == 0) { wait; if (timed out) return NULL }; pop; unlock
EnQueue(i):  lock; push(i); unlock; signal
ExitQueue(): broadcast
```

A mutex section runs without interruption.  `wait` gives the mutex back and blocks in one step;
`signal` notifies exactly one blocked waiter when there is one; a waiter may wake up spuriously,
or by its timeout if it has one, unless it was notified first.  A woken waiter has to take the
mutex again, and other threads may take it before.

Main definitions:

* `VModule.BlockingQueue.Pc` — where a thread stands;
* `VModule.BlockingQueue.Step` — the steps, and `VModule.BlockingQueue.machine`;
* `VModule.vmBlockingQueue`, `VModule.cBlockingQueue` — the two classes of the source;
* `VModule.BlockingQueue.waitForever` — the machine in which nobody calls `ExitQueue` and every
  `DeQueue` has the default duration.
-/

import Mathlib.Data.List.ReduceOption
import Mathlib.Logic.Function.Basic
import VModule.Fifo
import VModule.Machine
import VModule.VmQueue

set_option relaxedAutoImplicit false
set_option autoImplicit false

namespace VModule

namespace BlockingQueue

open Function

/-! ### States and actions -/

/-- Where a thread stands.  A duration of `-1` means waiting without a timeout. -/
inductive Pc where
  /-- Not in a call, or not yet holding the mutex in it. -/
  | idle
  /-- In `EnQueue`, after the mutex section and before the signal. -/
  | signalling
  /-- In `DeQueue`, blocked on `waitCond` and not notified. -/
  | waiting (waitDuration : Int)
  /-- In `DeQueue`, no longer blocked, about to take the mutex again. -/
  | woken (waitDuration : Int) (timedOut : Bool)
  deriving DecidableEq

namespace Pc

def isSignalling : Pc → Bool
  | .signalling => true
  | _ => false

def isWaiting : Pc → Bool
  | .waiting _ => true
  | _ => false

/-- Woken by a notification or spuriously, so that the queue will be looked at. -/
def isWoken : Pc → Bool
  | .woken _ false => true
  | _ => false

/-- What `broadcast` does to a thread. -/
def notify : Pc → Pc
  | .waiting d => .woken d false
  | p => p

theorem isWaiting_notify (p : Pc) : p.notify.isWaiting = false := by
  cases p <;> rfl

end Pc

variable {ι Tid : Type}

/-- The state of a blocking queue and of the threads that use it.  The last two fields record
the past: the items pushed, and what each `DeQueue` returned, in the order of the mutex sections. -/
structure State (F : Fifo ι) (Tid : Type) where
  queue : F.Mem
  pc : Tid → Pc
  pushed : List ι
  returned : List (Option ι)

/-- The steps by name.  A `DeQueue` that returns does so in the step that decides its value. -/
inductive Action (Tid ι : Type) where
  /-- The mutex section of `EnQueue`. -/
  | enQueue (t : Tid) (i : ι)
  /-- The signal of `EnQueue`, with the waiter it notifies. -/
  | signal (t : Tid) (notified : Option Tid)
  /-- The mutex section of `DeQueue` up to the wait. -/
  | wait (t : Tid) (waitDuration : Int)
  /-- The mutex section of a `DeQueue` that does not wait. -/
  | take (t : Tid) (waitDuration : Int) (result : Option ι)
  | spurious (t : Tid)
  | timeout (t : Tid)
  /-- The mutex section of `DeQueue` after the wait. -/
  | resume (t : Tid) (result : Option ι)
  | exitQueue

variable {F : Fifo ι} [DecidableEq Tid]

/-! ### Steps -/

inductive Step : State F Tid → Action Tid ι → State F Tid → Prop
  | enQueue {s : State F Tid} {t : Tid} {i : ι} {m : F.Mem} : s.pc t = .idle →
      F.Free s.queue i → F.push s.queue i = some m →
      Step s (.enQueue t i)
        { s with queue := m, pc := update s.pc t .signalling, pushed := s.pushed ++ [i] }
  | signal {s : State F Tid} {t c : Tid} {d : Int} : s.pc t = .signalling → s.pc c = .waiting d →
      Step s (.signal t (some c))
        { s with pc := update (update s.pc c (.woken d false)) t .idle }
  | signalNobody {s : State F Tid} {t : Tid} : s.pc t = .signalling →
      (∀ c, (s.pc c).isWaiting = false) →
      Step s (.signal t none) { s with pc := update s.pc t .idle }
  | wait {s : State F Tid} {t : Tid} {d : Int} : s.pc t = .idle → F.length s.queue = 0 →
      Step s (.wait t d) { s with pc := update s.pc t (.waiting d) }
  | take {s : State F Tid} {t : Tid} {d : Int} {m : F.Mem} {r : Option ι} : s.pc t = .idle →
      F.length s.queue ≠ 0 → F.pop s.queue = some (m, r) →
      Step s (.take t d r) { s with queue := m, returned := s.returned ++ [r] }
  | spurious {s : State F Tid} {t : Tid} {d : Int} : s.pc t = .waiting d →
      Step s (.spurious t) { s with pc := update s.pc t (.woken d false) }
  | timeout {s : State F Tid} {t : Tid} {d : Int} : s.pc t = .waiting d → d ≠ -1 →
      Step s (.timeout t) { s with pc := update s.pc t (.woken d true) }
  -- `if (res == TIMED_OUT) return NULL`
  | resumeTimedOut {s : State F Tid} {t : Tid} {d : Int} : s.pc t = .woken d true →
      Step s (.resume t none)
        { s with pc := update s.pc t .idle, returned := s.returned ++ [none] }
  -- the wait is not repeated: the queue is popped whatever its length is now
  | resume {s : State F Tid} {t : Tid} {d : Int} {m : F.Mem} {r : Option ι} :
      s.pc t = .woken d false → F.pop s.queue = some (m, r) →
      Step s (.resume t r)
        { s with queue := m, pc := update s.pc t .idle, returned := s.returned ++ [r] }
  | exitQueue {s : State F Tid} : Step s .exitQueue { s with pc := fun t => (s.pc t).notify }

/-- An empty queue that nobody uses yet. -/
def start (F : Fifo ι) (Tid : Type) : State F Tid where
  queue := F.empty
  pc _ := .idle
  pushed := []
  returned := []

/-- The machine of a blocking queue over `F`, used by threads from `Tid`. -/
def machine (F : Fifo ι) (Tid : Type) [DecidableEq Tid] : Machine (State F Tid) (Action Tid ι) where
  init s := s = start F Tid
  step := Step

/-- Nobody calls `ExitQueue`, and every `DeQueue` is called with the default duration. -/
def Action.WaitsForever : Action Tid ι → Prop
  | .exitQueue => False
  | .wait _ d => d = -1
  | .take _ d _ => d = -1
  | _ => True

/-- The machine of a blocking queue whose consumers wait forever. -/
def waitForever (F : Fifo ι) (Tid : Type) [DecidableEq Tid] :
    Machine (State F Tid) (Action Tid ι) :=
  (machine F Tid).restrict fun _ a => a.WaitsForever

end BlockingQueue

/-- `VmBlockingQueue`: a blocking queue over an `MQUEUE`. -/
def vmBlockingQueue (ι Tid : Type) [DecidableEq ι] [DecidableEq Tid] :=
  BlockingQueue.machine (mqueueFifo ι) Tid

/-- `CBlockingQueue<T>`: a blocking queue over a `CQueue<T>`. -/
def cBlockingQueue (ι Tid : Type) [DecidableEq ι] [DecidableEq Tid] :=
  BlockingQueue.machine (cqueueFifo ι) Tid

end VModule

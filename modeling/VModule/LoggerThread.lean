/-
**The logger thread and its callers.**

`LoggerThread` (`sutils/LoggerThread.cpp`) takes messages from any thread, queues a copy of each in
a `VmBlockingQueue`, and prints and writes them from a thread of its own:

```
sendDebugMessage(s):  allocate an item; copy s into it; mBlockingQueue.EnQueue(item)
_threadLoop:          while (mRunning) {
                        item = mBlockingQueue.DeQueue();
                        if (item) { print; write; free it } else continue;
                      }
                      m_ThreadId = -1
start():              if (mRunning) return INVALID_OPERATION;
                      m_ThreadId = -1; mRunning = true; createRawThread(...)
stop():               mRunning = false; mBlockingQueue.ExitQueue()
```

The machine below has one step for each access to a shared variable, and takes the steps of the
queue from `VModule/BlockingQueue.lean`.  The calls of `start` and `stop` come one after the other,
from one caller; everything else is interleaved freely.  An item is an address; memory that is not
allocated has no contents.  The variant modelled is the one for POSIX systems, where writing to
a file that is open succeeds.

Main definitions:

* `VModule.cstr`, `VModule.fwrite`, `VModule.LoggerThread.writeStringToLog`,
  `VModule.LoggerThread.printDebugString` — strings and files;
* `VModule.LoggerThread.Pc`, `VModule.LoggerThread.Caller` — where a thread, and the caller of
  `start` and `stop`, stand;
* `VModule.LoggerThread.Step` — the steps;
* `VModule.LoggerThread.fresh`, `VModule.LoggerThread.constructed` — the object before and after the
  `start()` in its constructor;
* `VModule.LoggerThread.machine`, `VModule.LoggerThread.oneStop` — the machine, and the one
  in which the constructed object is stopped once.

Main results:

* `VModule.LoggerThread.writeStringToLog_eq` — what a line of the log looks like;
* `VModule.LoggerThread.leads_constructed` — the constructor may arrive in its final state.
-/

import VModule.BlockingQueue
import VModule.Errors

set_option relaxedAutoImplicit false
set_option autoImplicit false

namespace VModule

open Function

/-! ### Strings and files -/

abbrev Bytes := List UInt8

/-- The string a `char*` points at: the bytes before the first NUL. -/
def cstr (b : Bytes) : Bytes := b.takeWhile (· != 0)

/-- Copying a C string with its NUL, and reading it back. -/
theorem cstr_cstr_append (b : Bytes) : cstr (cstr b ++ [0]) = cstr b := by
  induction b with
  | nil => rfl
  | cons x b ih =>
      unfold cstr at ih ⊢
      by_cases hx : x = 0
      · simp [hx]
      · simp [hx, ih]

/-- `fwrite(data, size, 1, file) == 1`: an element of no bytes is never counted as written. -/
def fwrite (file data : Bytes) : Bytes × Bool := (file ++ data, !data.isEmpty)

namespace LoggerThread

/-- `WriteStringToLog`: `mFile` has no value while no file is open. -/
def writeStringToLog (mFile : Option Bytes) (logString : Bytes) : Option Bytes × Bool :=
  match mFile with
  | none => (none, false)
  | some file =>
      match fwrite file logString with
      | (file, false) => (some file, false)
      | (file, true) =>
          match fwrite file [10] with
          | (file, ret) => (some file, ret)

/-- The bytes that `WriteStringToLog` adds for a message. -/
def logLine (logString : Bytes) : Bytes :=
  if logString = [] then [] else logString ++ [10]

/-- A message is followed by a line feed; an empty one leaves nothing and is reported as failed. -/
theorem writeStringToLog_eq (file logString : Bytes) :
    writeStringToLog (some file) logString =
      (some (file ++ logLine logString), !logString.isEmpty) := by
  cases logString with
  | nil => simp [writeStringToLog, fwrite, logLine]
  | cons b bs => simp [writeStringToLog, fwrite, logLine]

/-- `PrintDebugString`: `printf("%s\n", ...)`. -/
def printDebugString (stdout debugString : Bytes) : Bytes := stdout ++ cstr debugString ++ [10]

/-! ### States and actions -/

variable {ι Tid : Type}

/-- Where a thread stands. -/
inductive Pc (ι : Type) where
  | outside
  /-- In `sendDebugMessage`, the item filled with the message and not yet in the queue. -/
  | filled (item : ι) (message : Bytes)
  /-- In `EnQueue`, after the push; the message was the `k`-th one enqueued, from `0`. -/
  | enQueuing (k : ℕ)
  /-- In `_threadLoop`, before `mRunning` is tested for the first time. -/
  | entry
  /-- At the test of `mRunning`, after an iteration. -/
  | test
  | deQueue
  | popped (item : ι)
  | printed (item : ι) (loginfo : Bytes)
  | written (item : ι)
  /-- Behind the loop, before `m_ThreadId` is reset. -/
  | left
  deriving DecidableEq

namespace Pc

def isSending : Pc ι → Bool
  | .filled _ _ => true
  | .enQueuing _ => true
  | _ => false

/-- Inside the `while` loop of `_threadLoop`. -/
def inLoop : Pc ι → Bool
  | .test => true
  | .deQueue => true
  | .popped _ => true
  | .printed _ _ => true
  | .written _ => true
  | _ => false

/-- In `_threadLoop`, and not behind its loop. -/
def notLeft : Pc ι → Bool
  | .entry => true
  | p => p.inLoop

/-- Where `DeQueue` brings the thread: a null pointer is met with `continue`. -/
def afterPop : Option ι → Pc ι
  | none => .test
  | some i => .popped i

end Pc

/-- Where the caller of `start` and `stop` stands. -/
inductive Caller (Tid : Type) where
  | idle
  /-- In `start`, past the test of `mRunning`. -/
  | starting
  /-- In `start`, `m_ThreadId` reset. -/
  | reset
  /-- In `start`, `mRunning` set. -/
  | raised
  /-- In `createRawThread`, the thread created and its id not yet stored. -/
  | created (t : Tid)
  /-- In `start`, after `createRawThread` has failed. -/
  | failed
  /-- In `start`, `mRunning` set back. -/
  | lowered
  /-- In `stop`, `mRunning` cleared and the broadcast still to come. -/
  | stopping
  deriving DecidableEq

namespace Caller

def inStart : Caller Tid → Bool
  | .idle => false
  | .stopping => false
  | _ => true

/-- In `start`, past the test of `mRunning` and with no thread created yet. -/
def opens : Caller Tid → Bool
  | .starting => true
  | .reset => true
  | .raised => true
  | _ => false

end Caller

/-- The state of a `LoggerThread` and of the threads that use it.  The last four fields record the
past: the messages put into the queue, the messages given to `WriteStringToLog`, whether `stop` has
returned, and which messages had been sent, with `sendDebugMessage` returned, when it was called. -/
structure State (ι Tid : Type) [DecidableEq ι] where
  mRunning : Bool
  mThreadId : Option Tid
  mFile : Option Bytes
  mBlockingQueue : BlockingQueue.State (mqueueFifo ι) Tid
  stdout : Bytes
  /-- The allocated items, with the bytes their `Object` points at. -/
  item : ι → Option (Option Bytes)
  pc : Tid → Pc ι
  caller : Caller Tid
  enqueued : List Bytes
  written : List Bytes
  stopped : Bool
  sentBeforeStop : List ℕ

inductive Action (Tid ι : Type) where
  | send (t : Tid) (i : ι) (logString : Bytes)
  | enQueue (t : Tid) (i : ι)
  | signal (t : Tid) (notified : Option Tid)
  | test (t : Tid)
  | wait (t : Tid)
  | take (t : Tid) (result : Option ι)
  | spurious (t : Tid)
  | resume (t : Tid) (result : Option ι)
  | print (t : Tid)
  | write (t : Tid)
  | free (t : Tid)
  | finish (t : Tid)
  /-- `start` reads `mRunning`; when it is set, `start` returns the value given. -/
  | start (returned : Option Bool)
  | resetId
  | raise
  | create (t : Option Tid)
  | storeId (returned : Bool)
  | lower
  | failed (returned : Bool)
  | stop
  | broadcast
  deriving DecidableEq

variable [DecidableEq ι] [DecidableEq Tid]

/-! ### Steps -/

inductive Step : State ι Tid → Action Tid ι → State ι Tid → Prop
  -- `sendDebugMessage`
  | send {s : State ι Tid} {t : Tid} {i : ι} {logString : Bytes} : s.pc t = .outside →
      s.item i = none →
      Step s (.send t i logString)
        { s with
          item := update s.item i (some (some (cstr logString ++ [0])))
          pc := update s.pc t (.filled i (cstr logString)) }
  | enQueue {s : State ι Tid} {t : Tid} {i : ι} {message : Bytes} {q} :
      s.pc t = .filled i message → BlockingQueue.Step s.mBlockingQueue (.enQueue t i) q →
      Step s (.enQueue t i)
        { s with
          mBlockingQueue := q
          pc := update s.pc t (.enQueuing s.enqueued.length)
          enqueued := s.enqueued ++ [message] }
  | signal {s : State ι Tid} {t : Tid} {c : Option Tid} {k : ℕ} {q} : s.pc t = .enQueuing k →
      BlockingQueue.Step s.mBlockingQueue (.signal t c) q →
      Step s (.signal t c)
        { s with
          mBlockingQueue := q
          pc := update s.pc t .outside
          sentBeforeStop :=
            if s.caller = .stopping ∨ s.stopped = true then s.sentBeforeStop
            else s.sentBeforeStop ++ [k] }
  -- `_threadLoop`
  | enter {s : State ι Tid} {t : Tid} : s.pc t = .entry ∨ s.pc t = .test → s.mRunning = true →
      Step s (.test t) { s with pc := update s.pc t .deQueue }
  | leave {s : State ι Tid} {t : Tid} : s.pc t = .entry ∨ s.pc t = .test → s.mRunning = false →
      Step s (.test t) { s with pc := update s.pc t .left }
  | wait {s : State ι Tid} {t : Tid} {q} : s.pc t = .deQueue →
      BlockingQueue.Step s.mBlockingQueue (.wait t (-1)) q →
      Step s (.wait t) { s with mBlockingQueue := q }
  | take {s : State ι Tid} {t : Tid} {r : Option ι} {q} : s.pc t = .deQueue →
      BlockingQueue.Step s.mBlockingQueue (.take t (-1) r) q →
      Step s (.take t r) { s with mBlockingQueue := q, pc := update s.pc t (.afterPop r) }
  | spurious {s : State ι Tid} {t : Tid} {q} :
      BlockingQueue.Step s.mBlockingQueue (.spurious t) q →
      Step s (.spurious t) { s with mBlockingQueue := q }
  | resume {s : State ι Tid} {t : Tid} {r : Option ι} {q} : s.pc t = .deQueue →
      BlockingQueue.Step s.mBlockingQueue (.resume t r) q →
      Step s (.resume t r) { s with mBlockingQueue := q, pc := update s.pc t (.afterPop r) }
  | print {s : State ι Tid} {t : Tid} {i : ι} {object : Bytes} : s.pc t = .popped i →
      s.item i = some (some object) →
      Step s (.print t)
        { s with
          stdout := printDebugString s.stdout (cstr object)
          pc := update s.pc t (.printed i (cstr object)) }
  -- an item without a message is freed at once
  | printNothing {s : State ι Tid} {t : Tid} {i : ι} : s.pc t = .popped i →
      s.item i = some none →
      Step s (.print t) { s with pc := update s.pc t (.written i) }
  | write {s : State ι Tid} {t : Tid} {i : ι} {loginfo : Bytes} : s.pc t = .printed i loginfo →
      Step s (.write t)
        { s with
          mFile := (writeStringToLog s.mFile loginfo).1
          pc := update s.pc t (.written i)
          written := s.written ++ [loginfo] }
  | free {s : State ι Tid} {t : Tid} {i : ι} : s.pc t = .written i → s.item i ≠ none →
      Step s (.free t) { s with item := update s.item i none, pc := update s.pc t .test }
  | finish {s : State ι Tid} {t : Tid} : s.pc t = .left →
      Step s (.finish t) { s with mThreadId := none, pc := update s.pc t .outside }
  -- `start`
  | startRefused {s : State ι Tid} : s.caller = .idle → s.mRunning = true →
      Step s (.start (some Status.invalidOperation.toBool)) s
  | start {s : State ι Tid} : s.caller = .idle → s.mRunning = false →
      Step s (.start none) { s with caller := .starting }
  | resetId {s : State ι Tid} : s.caller = .starting →
      Step s .resetId { s with mThreadId := none, caller := .reset }
  | raise {s : State ι Tid} : s.caller = .reset →
      Step s .raise { s with mRunning := true, caller := .raised }
  | create {s : State ι Tid} {t : Tid} : s.caller = .raised → s.pc t = .outside →
      Step s (.create (some t)) { s with pc := update s.pc t .entry, caller := .created t }
  | createFails {s : State ι Tid} : s.caller = .raised →
      Step s (.create none) { s with caller := .failed }
  | storeId {s : State ι Tid} {t : Tid} : s.caller = .created t →
      Step s (.storeId Status.noError.toBool) { s with mThreadId := some t, caller := .idle }
  | lower {s : State ι Tid} : s.caller = .failed →
      Step s .lower { s with mRunning := false, caller := .lowered }
  | failed {s : State ι Tid} : s.caller = .lowered →
      Step s (.failed Status.unknownError.toBool) { s with mThreadId := none, caller := .idle }
  -- `stop`
  | stop {s : State ι Tid} : s.caller = .idle →
      Step s .stop { s with mRunning := false, caller := .stopping }
  | broadcast {s : State ι Tid} {q} : s.caller = .stopping →
      BlockingQueue.Step s.mBlockingQueue .exitQueue q →
      Step s .broadcast { s with mBlockingQueue := q, caller := .idle, stopped := true }

/-- The object before the `start()` in its constructor. -/
def fresh (ι Tid : Type) [DecidableEq ι] (mFile : Option Bytes) : State ι Tid where
  mRunning := false
  mThreadId := none
  mFile := mFile
  mBlockingQueue := BlockingQueue.start (mqueueFifo ι) Tid
  stdout := []
  item _ := none
  pc _ := .outside
  caller := .idle
  enqueued := []
  written := []
  stopped := false
  sentBeforeStop := []

/-- The object after a constructor that has created thread `t`. -/
def constructed (ι : Type) {Tid : Type} [DecidableEq ι] [DecidableEq Tid] (mFile : Option Bytes)
    (t : Tid) : State ι Tid :=
  { fresh ι Tid mFile with
    mRunning := true
    mThreadId := some t
    pc := update (fun _ => .outside) t .entry }

/-- The machine of a `LoggerThread`. -/
def machine (ι Tid : Type) [DecidableEq ι] [DecidableEq Tid] (mFile : Option Bytes) :
    Machine (State ι Tid) (Action Tid ι) where
  init s := s = fresh ι Tid mFile
  step := Step

/-- The constructor's call of `start`. -/
theorem leads_constructed (mFile : Option Bytes) (t : Tid) :
    (machine ι Tid mFile).Leads (fresh ι Tid mFile) (constructed ι mFile t) := by
  have h₀ : (machine ι Tid mFile).Run (fresh ι Tid mFile) [] (fresh ι Tid mFile) := .nil
  have h₁ := h₀.snoc (Step.start rfl rfl)
  have h₂ := h₁.snoc (Step.resetId rfl)
  have h₃ := h₂.snoc (Step.raise rfl)
  have h₄ := h₃.snoc (Step.create (t := t) rfl rfl)
  have h₅ := h₄.snoc (Step.storeId (t := t) rfl)
  exact ⟨_, h₅⟩

/-- Not a step of `start`, and not a second call of `stop`. -/
def Once (s : State ι Tid) : Action Tid ι → Prop
  | .start _ => False
  | .stop => s.stopped = false
  | _ => True

/-- The machine of a constructed `LoggerThread` that is never started again and stopped once. -/
def oneStop (ι : Type) {Tid : Type} [DecidableEq ι] [DecidableEq Tid] (mFile : Option Bytes)
    (t : Tid) : Machine (State ι Tid) (Action Tid ι) where
  init s := s = constructed ι mFile t
  step s a s' := Step s a s' ∧ Once s a

end LoggerThread

end VModule

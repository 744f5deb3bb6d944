/-
**A `CSerialPort` in several threads, `hardware/serial/SerialPort.cpp`.**

`ReadByte`, `WriteData` and `InitPort` make their system calls with `m_critical` locked, but look at
`m_file` before they lock it, and evaluate it again as an argument of each call.  `ClosePort` does
not lock the mutex; it is called by the destructor alone.  Whoever calls a function holds a
reference to the port, so that the destructor begins when no thread is in one of the functions, and
none is called after it.

One step is one access to `m_file`, one system call, or one call of the mutex.  `InitPort` locks the
mutex in `openPort`, which calls `open` and twice `fcntl`, and once more for the calls that set up
the port; a call may be followed by another one before the mutex is unlocked.  The read task, which
calls `ReadByte`, is one of the threads; its `select` is given `m_file` as a number, and is not
modelled.  Neither is what is read or written, nor that the destructor waits for the read task.

No call of the port ever goes to another file.  But `InitPort` looks at `m_file` without the lock: a
second thread that comes in before the first one has opened the port opens it again, and the first
descriptor is lost.

Main definitions:

* `VModule.SerialThreads.Pc`, `VModule.SerialThreads.State` — where a thread is, and the state;
* `VModule.SerialThreads.Step`, `VModule.SerialThreads.machine` — the functions, and what the rest
  of the process does with its files;
* `VModule.SerialThreads.Phase` — the life of a port;
* `VModule.SerialThreads.Lost` — a descriptor of the port that is not in `m_file`;
* `VModule.SerialThreads.OpensOnce` — `openPort` finds no file open.

Main results:

* `VModule.SerialThreads.phase_invariant` — the life of a port, in every run;
* `VModule.SerialThreads.lost_run` — what is lost in a run;
* `VModule.port_calls_directed` — **every call of the port is on a file of its own**;
* `VModule.port_closed_iff` — **when the destructor closes the port**.
-/

import VModule.Machine
import Mathlib.Logic.Function.Basic

set_option relaxedAutoImplicit false
set_option autoImplicit false

namespace VModule

namespace SerialThreads

open Function

/-! ### States -/

/-- Where a thread is, with what it has got from `m_file`. -/
inductive Pc where
  /-- In none of the functions. -/
  | outside
  /-- Waiting for `m_critical`, to make a call. -/
  | waiting
  /-- With `m_critical`, before an argument is evaluated. -/
  | inside
  /-- The argument of `read`, `write` or another call is evaluated. -/
  | calling (fd : Option ℕ)
  /-- `m_critical` is to be unlocked. -/
  | unlocking
  /-- In `InitPort`, and `m_file` was not valid. -/
  | initializing
  /-- In `openPort`, with `m_critical`. -/
  | opening
  /-- In `openPort`, with some calls of `fcntl` to come. -/
  | opened (calls : ℕ)
  /-- The argument of a call of `fcntl` is evaluated. -/
  | flagging (calls : ℕ) (fd : Option ℕ)
  /-- In the destructor, before `ClosePort`. -/
  | destroying
  /-- In `ClosePort`, and `m_file` was valid. -/
  | closing
  /-- The argument of `close` is evaluated. -/
  | aboutToClose (fd : Option ℕ)
  /-- `m_file` is to be set to `INVALID_HANDLE_VALUE`. -/
  | clearing
  deriving DecidableEq

namespace Pc

/-- The descriptor that a thread has evaluated and not used yet. -/
def taken : Pc → Option ℕ
  | calling fd | flagging _ fd | aboutToClose fd => fd
  | _ => none

def inDestructor : Pc → Bool
  | destroying | closing | aboutToClose _ | clearing => true
  | _ => false

end Pc

/-- Whose file a descriptor is open for. -/
inductive Owner where
  | port
  | other
  deriving DecidableEq

/-- `m_file` and `m_critical`, the descriptors of the process, the threads, and whether the
destructor has been called. -/
structure State (Tid : Type) where
  mFile : Option ℕ
  mCritical : Option Tid
  files : ℕ → Option Owner
  pc : Tid → Pc
  destroyed : Bool

variable {Tid : Type}

/-- A port that has been constructed. -/
structure Constructed (s : State Tid) : Prop where
  mFile : s.mFile = none
  mCritical : s.mCritical = none
  files : ∀ n, s.files n ≠ some .port
  pc : ∀ t, s.pc t = .outside
  destroyed : s.destroyed = false

/-! ### Steps -/

/-- What a thread does, or the rest of the process. -/
inductive Action (Tid : Type) where
  | check (t : Tid)
  | lock (t : Tid)
  | evaluate (t : Tid)
  | call (t : Tid)
  | unlock (t : Tid)
  | checkInit (t : Tid)
  | lockInit (t : Tid)
  | openPort (t : Tid)
  | evaluateFlags (t : Tid)
  | fcntl (t : Tid)
  | unlockInit (t : Tid)
  | destroy (t : Tid)
  | checkClose (t : Tid)
  | evaluateClose (t : Tid)
  | close (t : Tid)
  | clear (t : Tid)
  | openOther (n : ℕ)
  | closeOther (n : ℕ)
  deriving DecidableEq

variable [DecidableEq Tid]

/-- One step. -/
inductive Step : State Tid → Action Tid → State Tid → Prop
  -- `ReadByte` and `WriteData`
  | check {s : State Tid} {t : Tid} : s.destroyed = false → s.pc t = .outside → s.mFile ≠ none →
      Step s (.check t) { s with pc := update s.pc t .waiting }
  | checkInvalid {s : State Tid} {t : Tid} : s.destroyed = false → s.pc t = .outside →
      s.mFile = none → Step s (.check t) s
  | lock {s : State Tid} {t : Tid} : s.pc t = .waiting → s.mCritical = none →
      Step s (.lock t) { s with mCritical := some t, pc := update s.pc t .inside }
  | evaluate {s : State Tid} {t : Tid} : s.pc t = .inside →
      Step s (.evaluate t) { s with pc := update s.pc t (.calling s.mFile) }
  | call {s : State Tid} {t : Tid} {fd : Option ℕ} : s.pc t = .calling fd →
      Step s (.call t) { s with pc := update s.pc t .unlocking }
  | callAgain {s : State Tid} {t : Tid} {fd : Option ℕ} : s.pc t = .calling fd →
      Step s (.call t) { s with pc := update s.pc t .inside }
  | unlock {s : State Tid} {t : Tid} : s.pc t = .unlocking →
      Step s (.unlock t) { s with mCritical := none, pc := update s.pc t .outside }
  -- `InitPort`
  | checkInit {s : State Tid} {t : Tid} : s.destroyed = false → s.pc t = .outside →
      s.mFile = none → Step s (.checkInit t) { s with pc := update s.pc t .initializing }
  | checkInitValid {s : State Tid} {t : Tid} : s.destroyed = false → s.pc t = .outside →
      s.mFile ≠ none → Step s (.checkInit t) s
  | lockInit {s : State Tid} {t : Tid} : s.pc t = .initializing → s.mCritical = none →
      Step s (.lockInit t) { s with mCritical := some t, pc := update s.pc t .opening }
  | openPort {s : State Tid} {t : Tid} {n : ℕ} : s.pc t = .opening → s.files n = none →
      Step s (.openPort t)
        { s with
          mFile := some n
          files := update s.files n (some .port)
          pc := update s.pc t (.opened 2) }
  | openFails {s : State Tid} {t : Tid} : s.pc t = .opening →
      Step s (.openPort t) { s with mFile := none, pc := update s.pc t .unlocking }
  | evaluateFlags {s : State Tid} {t : Tid} {calls : ℕ} : s.pc t = .opened (calls + 1) →
      Step s (.evaluateFlags t) { s with pc := update s.pc t (.flagging calls s.mFile) }
  | fcntl {s : State Tid} {t : Tid} {calls : ℕ} {fd : Option ℕ} : s.pc t = .flagging calls fd →
      Step s (.fcntl t) { s with pc := update s.pc t (.opened calls) }
  | unlockInit {s : State Tid} {t : Tid} : s.pc t = .opened 0 →
      Step s (.unlockInit t) { s with mCritical := none, pc := update s.pc t .waiting }
  -- `~CSerialPort` and `ClosePort`
  | destroy {s : State Tid} {t : Tid} : s.destroyed = false → (∀ u, s.pc u = .outside) →
      Step s (.destroy t) { s with destroyed := true, pc := update s.pc t .destroying }
  | checkClose {s : State Tid} {t : Tid} : s.pc t = .destroying → s.mFile ≠ none →
      Step s (.checkClose t) { s with pc := update s.pc t .closing }
  | checkCloseInvalid {s : State Tid} {t : Tid} : s.pc t = .destroying → s.mFile = none →
      Step s (.checkClose t) { s with pc := update s.pc t .outside }
  | evaluateClose {s : State Tid} {t : Tid} : s.pc t = .closing →
      Step s (.evaluateClose t) { s with pc := update s.pc t (.aboutToClose s.mFile) }
  | close {s : State Tid} {t : Tid} {n : ℕ} : s.pc t = .aboutToClose (some n) →
      Step s (.close t) { s with files := update s.files n none, pc := update s.pc t .clearing }
  | closeInvalid {s : State Tid} {t : Tid} : s.pc t = .aboutToClose none →
      Step s (.close t) { s with pc := update s.pc t .clearing }
  | clear {s : State Tid} {t : Tid} : s.pc t = .clearing →
      Step s (.clear t) { s with mFile := none, pc := update s.pc t .outside }
  -- the rest of the process
  | openOther {s : State Tid} {n : ℕ} : s.files n = none →
      Step s (.openOther n) { s with files := update s.files n (some .other) }
  | closeOther {s : State Tid} {n : ℕ} : s.files n = some .other →
      Step s (.closeOther n) { s with files := update s.files n none }

/-- The port, used by any number of threads. -/
def machine (Tid : Type) [DecidableEq Tid] : Machine (State Tid) (Action Tid) where
  init := Constructed
  step := Step

/-! ### The life of a port -/

/-- What has been taken is open for the port. -/
def Directed (s : State Tid) : Prop := ∀ t n, (s.pc t).taken = some n → s.files n = some .port

/-- What `m_file` has is open for the port. -/
def Valid (s : State Tid) : Prop := ∀ n, s.mFile = some n → s.files n = some .port

/-- Before the destructor. -/
structure Alive (s : State Tid) : Prop where
  destroyed : s.destroyed = false
  pc : ∀ t, (s.pc t).inDestructor = false
  valid : Valid s
  directed : Directed s

/-- Thread `t` is in the destructor, in one of some places. -/
structure Closing (s : State Tid) (t : Tid) (places : Pc → Prop) : Prop where
  destroyed : s.destroyed = true
  others : ∀ u, u ≠ t → s.pc u = .outside
  pc : places (s.pc t)

/-- Before the descriptor is closed. -/
def BeforeClose (mFile : Option ℕ) (p : Pc) : Prop :=
  p = .destroying ∨ p = .closing ∨ p = .aboutToClose mFile

/-- A port is used, then it is destroyed by one thread, which closes what is in `m_file` and then
forgets it, and then it is gone. -/
inductive Phase (s : State Tid) : Prop
  | alive : Alive s → Phase s
  | closing (t : Tid) : Closing s t (BeforeClose s.mFile) → Valid s → Phase s
  | clearing (t : Tid) : Closing s t (· = .clearing) →
      (∀ n, s.mFile = some n → s.files n ≠ some .port) → Phase s
  | gone : s.destroyed = true → (∀ t, s.pc t = .outside) → s.mFile = none → Phase s

variable {s s' : State Tid} {a : Action Tid} {t : Tid}

omit [DecidableEq Tid] in
/-- Who is in one of the functions uses a port that has not been destroyed. -/
theorem Phase.alive_of_pc (h : Phase s) (hout : s.pc t ≠ .outside)
    (ht : (s.pc t).inDestructor = false) : Alive s := by
  have hno : ∀ {u : Tid} {places : Pc → Prop}, Closing s u places →
      (∀ p, places p → p.inDestructor = true) → False := by
    intro u places hclosing hplaces
    rcases eq_or_ne t u with rfl | hne
    · rw [hplaces _ hclosing.pc] at ht
      cases ht
    · exact hout (hclosing.others t hne)
  cases h with
  | alive h => exact h
  | closing u h _ =>
      refine (hno h fun p hp => ?_).elim
      rcases hp with rfl | rfl | rfl <;> rfl
  | clearing u h _ =>
      refine (hno h fun p hp => ?_).elim
      rw [hp]
      rfl
  | gone _ h _ => exact absurd (h t) hout

omit [DecidableEq Tid] in
theorem Phase.alive_of_destroyed (h : Phase s) (hs : s.destroyed = false) : Alive s := by
  cases h with
  | alive h => exact h
  | closing u h _ => cases hs.symm.trans h.destroyed
  | clearing u h _ => cases hs.symm.trans h.destroyed
  | gone h _ _ => cases hs.symm.trans h

omit [DecidableEq Tid] in
/-- Whoever is in the destructor is there alone. -/
theorem Phase.of_inDestructor (h : Phase s) (ht : (s.pc t).inDestructor = true) :
    (Closing s t (BeforeClose s.mFile) ∧ Valid s) ∨
      (Closing s t (· = .clearing) ∧ ∀ n, s.mFile = some n → s.files n ≠ some .port) := by
  have hself : ∀ {u : Tid} {places : Pc → Prop}, Closing s u places → t = u := by
    intro u places hclosing
    by_contra hne
    rw [hclosing.others t hne] at ht
    cases ht
  cases h with
  | alive h =>
      rw [h.pc t] at ht
      cases ht
  | closing u h hvalid =>
      obtain rfl := hself h
      exact .inl ⟨h, hvalid⟩
  | clearing u h hclosed =>
      obtain rfl := hself h
      exact .inr ⟨h, hclosed⟩
  | gone _ h _ =>
      rw [h t] at ht
      cases ht

omit [DecidableEq Tid] in
theorem Closing.mFile_of_aboutToClose {fd : Option ℕ} (h : Closing s t (BeforeClose s.mFile))
    (ht : s.pc t = .aboutToClose fd) : s.mFile = fd := by
  rcases h.pc with hpc | hpc | hpc
  · cases ht.symm.trans hpc
  · cases ht.symm.trans hpc
  · exact (Pc.aboutToClose.inj (ht.symm.trans hpc)).symm

omit [DecidableEq Tid] in
theorem Phase.directed (h : Phase s) : Directed s := by
  intro u n htaken
  cases h with
  | alive h => exact h.directed u n htaken
  | closing t h hvalid =>
      rcases eq_or_ne u t with rfl | hne
      · rcases h.pc with hpc | hpc | hpc
        · rw [hpc] at htaken
          cases htaken
        · rw [hpc] at htaken
          cases htaken
        · rw [hpc] at htaken
          exact hvalid n htaken
      · rw [h.others u hne] at htaken
        cases htaken
  | clearing t h _ =>
      rcases eq_or_ne u t with rfl | hne
      · rw [h.pc] at htaken
        cases htaken
      · rw [h.others u hne] at htaken
        cases htaken
  | gone _ h _ =>
      rw [h u] at htaken
      cases htaken

/-- A thread goes on that is not in the destructor. -/
theorem Alive.walk {p : Pc} (h : Alive s) (hdestroyed : s'.destroyed = s.destroyed)
    (hpc : s'.pc = update s.pc t p) (hp : p.inDestructor = false)
    (hfiles : ∀ n, s.files n = some .port → s'.files n = some .port) (hvalid : Valid s')
    (htaken : ∀ n, p.taken = some n → s'.files n = some .port) : Alive s' := by
  refine ⟨hdestroyed.trans h.destroyed, fun u => ?_, hvalid, fun u n hn => ?_⟩
  · rw [hpc]
    rcases eq_or_ne u t with rfl | hne
    · rw [update_self, hp]
    · rw [update_of_ne hne, h.pc u]
  · rw [hpc] at hn
    rcases eq_or_ne u t with rfl | hne
    · rw [update_self] at hn
      exact htaken n hn
    · rw [update_of_ne hne] at hn
      exact hfiles n (h.directed u n hn)

/-- A thread goes on without a look at `m_file`. -/
theorem Alive.pass {p : Pc} (h : Alive s) (hdestroyed : s'.destroyed = s.destroyed)
    (hpc : s'.pc = update s.pc t p) (hfiles : s'.files = s.files) (hmFile : s'.mFile = s.mFile)
    (hp : p.inDestructor = false) (hnone : p.taken = none) : Phase s' := by
  refine .alive (h.walk hdestroyed hpc hp (fun n hn => hfiles ▸ hn) (fun n hn => ?_) ?_)
  · rw [hfiles]
    exact h.valid n (hmFile ▸ hn)
  · intro n hn
    rw [hnone] at hn
    cases hn

/-- The thread in the destructor goes on. -/
theorem Closing.walk {places places' : Pc → Prop} {p : Pc} (h : Closing s t places)
    (hdestroyed : s'.destroyed = s.destroyed) (hpc : s'.pc = update s.pc t p) (hp : places' p) :
    Closing s' t places' := by
  refine ⟨hdestroyed.trans h.destroyed, fun u hne => ?_, ?_⟩
  · rw [hpc, update_of_ne hne, h.others u hne]
  · rw [hpc, update_self]
    exact hp

/-- The thread in the destructor leaves it. -/
theorem Closing.leave {places : Pc → Prop} (h : Closing s t places)
    (hdestroyed : s'.destroyed = s.destroyed) (hpc : s'.pc = update s.pc t .outside)
    (hmFile : s'.mFile = none) : Phase s' := by
  refine .gone (hdestroyed.trans h.destroyed) (fun u => ?_) hmFile
  rw [hpc]
  rcases eq_or_ne u t with rfl | hne
  · rw [update_self]
  · rw [update_of_ne hne, h.others u hne]

omit [DecidableEq Tid] in
/-- What the rest of the process does with a descriptor that is not open for the port. -/
theorem Phase.files {m : ℕ} {o : Option Owner} (h : Phase s) (hm : s.files m ≠ some .port)
    (ho : o ≠ some .port) : Phase { s with files := update s.files m o } := by
  have hkept : ∀ {n}, s.files n = some .port → update s.files m o n = some .port := by
    intro n hn
    have hne : n ≠ m := by
      rintro rfl
      exact hm hn
    rw [update_of_ne hne, hn]
  cases h with
  | alive h =>
      exact .alive ⟨h.destroyed, h.pc, fun n hn => hkept (h.valid n hn),
        fun u n hn => hkept (h.directed u n hn)⟩
  | closing t h hvalid =>
      exact .closing t ⟨h.destroyed, h.others, h.pc⟩ fun n hn => hkept (hvalid n hn)
  | clearing t h hclosed =>
      refine .clearing t ⟨h.destroyed, h.others, h.pc⟩ fun n hn hport => hclosed n hn ?_
      replace hport : update s.files m o n = some .port := hport
      rcases eq_or_ne n m with rfl | hne
      · rw [update_self] at hport
        exact absurd hport ho
      · rwa [update_of_ne hne] at hport
  | gone hdestroyed hout hmFile => exact .gone hdestroyed hout hmFile

/-- **One step** in the life of a port. -/
theorem Phase.step (h : Phase s) (hstep : Step s a s') : Phase s' := by
  cases hstep with
  | checkInvalid | checkInitValid => exact h
  | check hs _ | checkInit hs _ =>
      exact (h.alive_of_destroyed hs).pass rfl rfl rfl rfl rfl rfl
  | lock ht | call ht | callAgain ht | unlock ht | lockInit ht | fcntl ht | unlockInit ht =>
      exact (h.alive_of_pc (by rw [ht]; simp) (by rw [ht]; rfl)).pass rfl rfl rfl rfl rfl rfl
  | evaluate ht | evaluateFlags ht =>
      have halive := h.alive_of_pc (by rw [ht]; simp) (by rw [ht]; rfl)
      exact .alive (halive.walk rfl rfl rfl (fun _ hn => hn) halive.valid halive.valid)
  | @openPort t m ht hfree =>
      have halive := h.alive_of_pc (by rw [ht]; simp) (by rw [ht]; rfl)
      refine .alive (halive.walk rfl rfl rfl (fun n hn => ?_) (fun n hn => ?_) fun n hn => ?_)
      · have hne : n ≠ m := by
          rintro rfl
          cases hfree.symm.trans hn
        exact (update_of_ne hne _ _).trans hn
      · obtain rfl := Option.some_inj.1 hn
        exact update_self _ _ _
      · cases hn
  | openFails ht =>
      have halive := h.alive_of_pc (by rw [ht]; simp) (by rw [ht]; rfl)
      exact .alive (halive.walk rfl rfl rfl (fun _ hn => hn) (fun n hn => by cases hn)
        fun n hn => by cases hn)
  | @destroy t hs hout =>
      refine .closing t ⟨rfl, fun u hne => ?_, ?_⟩ (h.alive_of_destroyed hs).valid
      · exact (update_of_ne hne _ _).trans (hout u)
      · exact .inl (update_self _ _ _)
  | checkClose ht _ =>
      obtain ⟨hclosing, hvalid⟩ | ⟨hclearing, -⟩ := h.of_inDestructor (by rw [ht]; rfl)
      · exact .closing _ (hclosing.walk rfl rfl (.inr (.inl rfl))) hvalid
      · cases ht.symm.trans hclearing.pc
  | checkCloseInvalid ht hmFile =>
      obtain ⟨hclosing, -⟩ | ⟨hclearing, -⟩ := h.of_inDestructor (by rw [ht]; rfl)
      · exact hclosing.leave rfl rfl hmFile
      · cases ht.symm.trans hclearing.pc
  | evaluateClose ht =>
      obtain ⟨hclosing, hvalid⟩ | ⟨hclearing, -⟩ := h.of_inDestructor (by rw [ht]; rfl)
      · exact .closing _ (hclosing.walk rfl rfl (.inr (.inr rfl))) hvalid
      · cases ht.symm.trans hclearing.pc
  | @close t m ht =>
      obtain ⟨hclosing, -⟩ | ⟨hclearing, -⟩ := h.of_inDestructor (by rw [ht]; rfl)
      · refine .clearing t (hclosing.walk rfl rfl rfl) fun n hn hport => ?_
        have hmn : s.mFile = some m := hclosing.mFile_of_aboutToClose ht
        obtain rfl := Option.some_inj.1 (hmn.symm.trans hn)
        cases (update_self m none s.files).symm.trans hport
      · cases ht.symm.trans hclearing.pc
  | @closeInvalid t ht =>
      obtain ⟨hclosing, -⟩ | ⟨hclearing, -⟩ := h.of_inDestructor (by rw [ht]; rfl)
      · refine .clearing t (hclosing.walk rfl rfl rfl) fun n hn => ?_
        cases (hclosing.mFile_of_aboutToClose ht).symm.trans hn
      · cases ht.symm.trans hclearing.pc
  | clear ht =>
      obtain ⟨hclosing, -⟩ | ⟨hclearing, -⟩ := h.of_inDestructor (by rw [ht]; rfl)
      · exact hclosing.leave rfl rfl rfl
      · exact hclearing.leave rfl rfl rfl
  | openOther hfree => exact h.files (by rw [hfree]; simp) (by simp)
  | closeOther hother => exact h.files (by rw [hother]; simp) (by simp)

/-- **The life of a port**, in every run. -/
theorem phase_invariant : (machine Tid).Invariant Phase where
  init s h := by
    refine .alive ⟨h.destroyed, fun t => ?_, fun n hn => ?_, fun t n hn => ?_⟩
    · rw [h.pc t]
      rfl
    · cases h.mFile.symm.trans hn
    · rw [h.pc t] at hn
      cases hn
  step _ _ _ h hstep := h.step hstep

/-! ### Lost descriptors -/

/-- A descriptor is open for the port and not in `m_file`. -/
def Lost (s : State Tid) : Prop := ∃ n, s.files n = some .port ∧ s.mFile ≠ some n

/-- `openPort` is called with no file open. -/
def OpensOnce (s : State Tid) : Action Tid → Prop
  | .openPort _ => s.mFile = none
  | _ => True

omit [DecidableEq Tid] in
/-- Nothing happens to `m_file` and to the descriptors of the port. -/
theorem lost_congr (hmFile : s'.mFile = s.mFile)
    (hfiles : ∀ n, s'.files n = some .port ↔ s.files n = some .port) : Lost s' ↔ Lost s := by
  simp only [Lost, hmFile, hfiles]

omit [DecidableEq Tid] in
/-- `m_file` is given another value, which is none of the descriptors that were open. -/
theorem Alive.lost_iff (h : Alive s) (hkept : ∀ n, s.files n = some .port →
      s'.files n = some .port ∧ s'.mFile ≠ some n)
    (hnew : ∀ n, s'.files n = some .port → s'.mFile ≠ some n → s.files n = some .port) :
    Lost s' ↔ Lost s ∨ s.mFile ≠ none := by
  constructor
  · intro hlost
    obtain ⟨n, hport, hne⟩ := hlost
    by_cases hn : s.mFile = some n
    · exact .inr (hn ▸ Option.some_ne_none n)
    · exact .inl ⟨n, hnew n hport hne, hn⟩
  · intro hlost
    rcases hlost with ⟨n, hport, -⟩ | hopen
    · exact ⟨n, hkept n hport⟩
    · obtain ⟨n, hn⟩ := Option.ne_none_iff_exists'.1 hopen
      exact ⟨n, hkept n (h.valid n hn)⟩

/-- **What one step loses**: what is lost stays lost, and a descriptor is lost where `openPort`
finds it in `m_file`. -/
theorem Phase.lost_step (h : Phase s) (hstep : Step s a s') :
    Lost s' ↔ Lost s ∨ ¬ OpensOnce s a := by
  have hnever : ∀ {b : Prop}, (b ↔ Lost s) → (b ↔ Lost s ∨ ¬ True) := fun hb => by simpa using hb
  cases hstep with
  | @openPort t m ht hfree =>
      have halive := h.alive_of_pc (by rw [ht]; simp) (by rw [ht]; rfl)
      refine halive.lost_iff (fun n hn => ?_) fun n hn hne => ?_
      · have hne : n ≠ m := by
          rintro rfl
          cases hfree.symm.trans hn
        exact ⟨(update_of_ne hne _ _).trans hn, fun hm => hne (Option.some_inj.1 hm).symm⟩
      · have hne : n ≠ m := fun hnm => hne (congrArg some hnm).symm
        exact (update_of_ne hne _ _).symm.trans hn
  | openFails ht =>
      have halive := h.alive_of_pc (by rw [ht]; simp) (by rw [ht]; rfl)
      exact halive.lost_iff (fun n hn => ⟨hn, fun hno => by cases hno⟩) fun n hn _ => hn
  | @close t m ht =>
      refine hnever ?_
      obtain ⟨hclosing, -⟩ | ⟨hclearing, -⟩ := h.of_inDestructor (by rw [ht]; rfl)
      · have hmFile := hclosing.mFile_of_aboutToClose ht
        refine exists_congr fun n => and_congr_left fun hne => ?_
        have hnm : n ≠ m := fun hnm => hne (hnm ▸ hmFile)
        dsimp only
        rw [update_of_ne hnm]
      · cases ht.symm.trans hclearing.pc
  | clear ht =>
      refine hnever ?_
      obtain ⟨hclosing, -⟩ | ⟨-, hclosed⟩ := h.of_inDestructor (by rw [ht]; rfl)
      · rcases hclosing.pc with hpc | hpc | hpc <;> cases ht.symm.trans hpc
      · refine exists_congr fun n => and_congr_right fun hport => ?_
        exact iff_of_true (fun hno => by cases hno) fun hn => hclosed n hn hport
  | @openOther m hfree =>
      refine hnever (lost_congr rfl fun n => ?_)
      dsimp only
      rcases eq_or_ne n m with rfl | hne
      · simp [hfree]
      · rw [update_of_ne hne]
  | @closeOther m hother =>
      refine hnever (lost_congr rfl fun n => ?_)
      dsimp only
      rcases eq_or_ne n m with rfl | hne
      · simp [hother]
      · rw [update_of_ne hne]
  | _ => exact hnever (lost_congr rfl fun _ => Iff.rfl)

/-- **What is lost in a run.** -/
theorem lost_run {s₀ : State Tid} {tr : List (State Tid × Action Tid)} (h₀ : Constructed s₀)
    (h : (machine Tid).Run s₀ tr s) : Lost s ↔ ∃ p ∈ tr, ¬ OpensOnce p.1 p.2 := by
  induction h with
  | nil =>
      refine iff_of_false (fun hlost => ?_) (by simp)
      obtain ⟨n, hport, -⟩ := hlost
      exact h₀.files n hport
  | snoc hrun hstep ih =>
      have hphase := phase_invariant.reachable (hrun.reachable (.init h₀))
      rw [hphase.lost_step hstep, ih]
      simp only [List.mem_append, List.mem_singleton, or_and_right, exists_or, exists_eq_left]

end SerialThreads

open SerialThreads

/-- **Every call of the port is on a file of its own.**  Let a port be used by any number of
threads, until it is destroyed.  In every state that is reached, each descriptor that a thread has
evaluated for a system call and not used yet is open for the port, whatever files the rest of the
process opens and closes. -/
theorem port_calls_directed {Tid : Type} [DecidableEq Tid] {s : SerialThreads.State Tid}
    (h : (SerialThreads.machine Tid).Reachable s) (t : Tid) (n : ℕ)
    (htaken : (s.pc t).taken = some n) : s.files n = some .port :=
  (phase_invariant.reachable h).directed t n htaken

/-- A port of which thread `false` has opened the descriptor 3, and which thread `true` is about to
close. -/
theorem port_calls_directed_closing : ∃ tr s,
    (SerialThreads.machine Bool).Run ⟨none, none, fun _ => none, fun _ => .outside, false⟩ tr s ∧
      tr.map Prod.snd = [.checkInit false, .lockInit false, .openPort false, .evaluateFlags false,
        .fcntl false, .evaluateFlags false, .fcntl false, .unlockInit false, .lock false,
        .evaluate false, .call false, .unlock false, .destroy true, .checkClose true,
        .evaluateClose true] ∧
      (s.pc true).taken = some 3 ∧ s.files 3 = some .port := by
  have h₀ : (SerialThreads.machine Bool).Run
      ⟨none, none, fun _ => none, fun _ => .outside, false⟩ [] _ := .nil
  have h₁ := h₀.snoc (.checkInit (t := false) rfl rfl rfl)
  have h₂ := h₁.snoc (.lockInit (t := false) rfl rfl)
  have h₃ := h₂.snoc (.openPort (t := false) (n := 3) rfl rfl)
  have h₄ := h₃.snoc (.evaluateFlags (t := false) rfl)
  have h₅ := h₄.snoc (.fcntl (t := false) rfl)
  have h₆ := h₅.snoc (.evaluateFlags (t := false) rfl)
  have h₇ := h₆.snoc (.fcntl (t := false) rfl)
  have h₈ := h₇.snoc (.unlockInit (t := false) rfl)
  have h₉ := h₈.snoc (.lock (t := false) rfl rfl)
  have h₁₀ := h₉.snoc (.evaluate (t := false) rfl)
  have h₁₁ := h₁₀.snoc (.call (t := false) rfl)
  have h₁₂ := h₁₁.snoc (.unlock (t := false) rfl)
  have h₁₃ := h₁₂.snoc (.destroy (t := true) rfl fun u => by cases u <;> rfl)
  have h₁₄ := h₁₃.snoc (.checkClose (t := true) rfl (Option.some_ne_none 3))
  have h₁₅ := h₁₄.snoc (.evaluateClose (t := true) rfl)
  have hreached := h₁₅.reachable (.init ⟨rfl, rfl, fun _ => by simp, fun _ => rfl, rfl⟩)
  exact ⟨_, _, h₁₅, rfl, rfl, port_calls_directed hreached true 3 rfl⟩

/-- **When the destructor closes the port.**  Once the port of a run is destroyed, no descriptor of
it is open if and only if each call of `openPort` in the run has found no file open. -/
theorem port_closed_iff {Tid : Type} [DecidableEq Tid] {s₀ s : SerialThreads.State Tid}
    {tr : List (SerialThreads.State Tid × SerialThreads.Action Tid)} (h₀ : Constructed s₀)
    (h : (SerialThreads.machine Tid).Run s₀ tr s) (hdestroyed : s.destroyed = true)
    (hout : ∀ t, s.pc t = .outside) :
    (∀ n, s.files n ≠ some .port) ↔ ∀ p ∈ tr, OpensOnce p.1 p.2 := by
  have hmFile : s.mFile = none := by
    cases phase_invariant.reachable (h.reachable (.init h₀)) with
    | alive halive => cases hdestroyed.symm.trans halive.destroyed
    | closing t hclosing _ =>
        rcases hclosing.pc with hpc | hpc | hpc <;> cases (hout t).symm.trans hpc
    | clearing t hclearing _ => cases (hout t).symm.trans hclearing.pc
    | gone _ _ hmFile => exact hmFile
  have hlost : Lost s ↔ ∃ n, s.files n = some .port := by
    simp [Lost, hmFile]
  rw [← not_iff_not, not_forall_not, ← hlost, lost_run h₀ h]
  simp only [not_forall, exists_prop]

/-- Two threads call `InitPort`, and both find no file open.  The second one cannot open the port
that the first one has opened, and the descriptor is lost. -/
theorem port_closed_iff_lost : ∃ tr s,
    (SerialThreads.machine Bool).Run ⟨none, none, fun _ => none, fun _ => .outside, false⟩ tr s ∧
      tr.map Prod.snd = [.checkInit false, .checkInit true, .lockInit false, .openPort false,
        .evaluateFlags false, .fcntl false, .evaluateFlags false, .fcntl false, .unlockInit false,
        .lockInit true, .openPort true, .unlock true, .lock false, .evaluate false, .call false,
        .unlock false, .destroy true, .checkClose true] ∧
      ∃ n, s.files n = some .port := by
  have h₀ : (SerialThreads.machine Bool).Run
      ⟨none, none, fun _ => none, fun _ => .outside, false⟩ [] _ := .nil
  have h₁ := h₀.snoc (.checkInit (t := false) rfl rfl rfl)
  have h₂ := h₁.snoc (.checkInit (t := true) rfl rfl rfl)
  have h₃ := h₂.snoc (.lockInit (t := false) rfl rfl)
  have h₄ := h₃.snoc (.openPort (t := false) (n := 3) rfl rfl)
  have h₅ := h₄.snoc (.evaluateFlags (t := false) rfl)
  have h₆ := h₅.snoc (.fcntl (t := false) rfl)
  have h₇ := h₆.snoc (.evaluateFlags (t := false) rfl)
  have h₈ := h₇.snoc (.fcntl (t := false) rfl)
  have h₉ := h₈.snoc (.unlockInit (t := false) rfl)
  have h₁₀ := h₉.snoc (.lockInit (t := true) rfl rfl)
  have h₁₁ := h₁₀.snoc (.openFails (t := true) rfl)
  have h₁₂ := h₁₁.snoc (.unlock (t := true) rfl)
  have h₁₃ := h₁₂.snoc (.lock (t := false) rfl rfl)
  have h₁₄ := h₁₃.snoc (.evaluate (t := false) rfl)
  have h₁₅ := h₁₄.snoc (.call (t := false) rfl)
  have h₁₆ := h₁₅.snoc (.unlock (t := false) rfl)
  have h₁₇ := h₁₆.snoc (.destroy (t := true) rfl fun u => by cases u <;> rfl)
  have h₁₈ := h₁₇.snoc (.checkCloseInvalid (t := true) rfl rfl)
  refine ⟨_, _, h₁₈, rfl, ?_⟩
  by_contra hno
  have hiff := port_closed_iff ⟨rfl, rfl, fun _ => by simp, fun _ => rfl, rfl⟩ h₁₈ rfl
    fun u => by cases u <;> rfl
  have hopens := hiff.1 (not_exists.1 hno) (_, .openPort true)
    (List.mem_of_getElem? (i := 10) rfl)
  cases hopens

end VModule

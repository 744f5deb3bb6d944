/-
**Waiting for the end of a run.**

Over the machine of `VModule/Thread.lean`.  `join` and `requestExitAndWait` wait on
`mExitedCondition` as long as `mRunning` is true.  `mRunning` is lowered in two places, and only one
of them broadcasts: the exit section does, the cleanup of a `run` that has failed does not.  It need
not, because `run` has found `mRunning` false, and nobody waits then; and nobody starts to wait
while `run` holds `mLock`.

The thread of a run must not wait for itself.  Whenever it can take `mLock`, `m_ThreadId` is its own
id, because the section of `run` that creates it ends with the id stored.

Main definitions:

* `VModule.CThread.Waits` — who is blocked sees a run;
* `VModule.CThread.Unblocked` — the thread of a run is in no public function.

Main results:

* `VModule.CThread.waits_step`, `VModule.CThread.unblocked_step` — the invariants;
* `VModule.waiters_wake` — **nobody is left waiting, and nobody waits for himself**.
-/

import VModule.ThreadRuns

set_option relaxedAutoImplicit false
set_option autoImplicit false

namespace VModule

namespace CThread

open Function

variable {Tid : Type}

/-! ### Who is blocked -/

/-- Blocked on `mExitedCondition`, and not notified. -/
def Call.isWaiting : Call Tid → Bool
  | .waiting _ => true
  | _ => false

theorem Call.isWaiting_notify (c : Call Tid) : c.notify.isWaiting = false := by
  cases c <;> rfl

/-- While a thread is blocked, `mLock` is free and something runs. -/
def Waits (lock : Option Tid) (running : Bool) (call : Tid → Call Tid) : Prop :=
  ∀ c, (call c).isWaiting = true → lock = none ∧ running = true

/-- The thread of a run is in no public function. -/
def Unblocked (call : Tid → Call Tid) (loop : Tid → Loop) : Prop :=
  ∀ t, (loop t).isRun = true → call t = .outside

theorem Fits.lock_of_stage {s : State Tid} {ph : Phase Tid} (h : Fits s ph) {t : Tid}
    {st : Stage Tid} (ht : s.call t = .run st) : s.mLock ≠ none := by
  have hholder := ((h.stage t st).1 (by rw [ht]; rfl)).1
  rw [h.lock, hholder]
  simp

namespace Waits

variable {lock lock' : Option Tid} {running running' : Bool} {call : Tid → Call Tid}

/-- Nobody is blocked while `mLock` is taken or nothing runs. -/
theorem none_waits (h : Waits lock running call) (hno : lock ≠ none ∨ running = false) (c : Tid) :
    (call c).isWaiting = false := by
  rw [← Bool.not_eq_true]
  intro hc
  obtain ⟨hlock, hrun⟩ := h c hc
  rcases hno with hno | hno
  · exact hno hlock
  · rw [hno] at hrun
    exact absurd hrun (by simp)

variable [DecidableEq Tid]

/-- A thread goes where it is not blocked. -/
theorem leave (h : Waits lock running call) {t : Tid} {q : Call Tid} (hq : q.isWaiting = false) :
    Waits lock running (update call t q) := by
  refine (forall_update_iff call fun _ c => c.isWaiting = true → lock = none ∧ running = true).2
    ⟨?_, fun c _ => h c⟩
  intro hwait
  rw [hq] at hwait
  exact absurd hwait (by simp)

/-- Nobody was blocked, and a thread goes where it is not blocked either. -/
theorem of_none (h : ∀ c, (call c).isWaiting = false) {t : Tid} {q : Call Tid}
    (hq : q.isWaiting = false) : Waits lock' running' (update call t q) := by
  have hwaits : Waits lock' running' call := by
    intro c hc
    rw [h c] at hc
    exact absurd hc (by simp)
  exact hwaits.leave hq

end Waits

namespace Unblocked

variable {call : Tid → Call Tid} {loop : Tid → Loop}

/-- A thread in a public function works for no run. -/
theorem isRun_of_call (h : Unblocked call loop) {t : Tid} {p : Call Tid} (hp : call t = p)
    (hne : p ≠ .outside) : (loop t).isRun = false := by
  rw [← Bool.not_eq_true]
  intro ht
  exact hne (hp.symm.trans (h t ht))

variable [DecidableEq Tid]

/-- A thread that works for no run moves in the public functions. -/
theorem call_move (h : Unblocked call loop) {t : Tid} {q : Call Tid}
    (ht : (loop t).isRun = false) : Unblocked (update call t q) loop := by
  intro u hu
  have hut : u ≠ t := by
    rintro rfl
    rw [ht] at hu
    exact absurd hu (by simp)
  rw [update_of_ne hut]
  exact h u hu

/-- A thread in a public function goes on in it, or leaves it. -/
theorem stay (h : Unblocked call loop) {t : Tid} {p q : Call Tid} (hp : call t = p)
    (hne : p ≠ .outside) : Unblocked (update call t q) loop :=
  h.call_move (h.isRun_of_call hp hne)

/-- A thread goes on in `_threadLoop`. -/
theorem walk (h : Unblocked call loop) {t : Tid} {p q : Loop} (hp : loop t = p)
    (hq : q.isRun = true → p.isRun = true) : Unblocked call (update loop t q) := by
  refine (forall_update_iff loop fun u l => l.isRun = true → call u = .outside).2
    ⟨?_, fun u _ => h u⟩
  intro hrun
  exact h t (by rw [hp, hq hrun])

end Unblocked

/-! ### The steps -/

variable [DecidableEq Tid]

theorem waits_step {s s' : State Tid} {a : Action Tid} {ph : Phase Tid} (h : Step s a s')
    (hf : Fits s ph) (hw : Waits s.mLock s.mRunning s.call) :
    Waits s'.mLock s'.mRunning s'.call := by
  -- nobody is blocked while a caller is in the section of `run`
  have hsection : ∀ {t : Tid} {st : Stage Tid}, s.call t = .run st →
      ∀ c, (s.call c).isWaiting = false := by
    intro t st ht
    exact hw.none_waits (.inl (hf.lock_of_stage ht))
  cases h with
  | run _ _ hr => exact .of_none (hw.none_waits (.inr hr)) rfl
  | create hc _ _ _ => exact .of_none (hsection hc) rfl
  | createFails hc => exact .of_none (hsection hc) rfl
  | clearHold hc _ => exact .of_none (hsection hc) rfl
  | clearHoldNull hc _ => exact .of_none (hsection hc) rfl
  | runDone hc => exact .of_none (hsection hc) rfl
  | runFailed hc _ => exact .of_none (hsection hc) rfl
  | exitWaits _ hlock _ hr => exact fun _ _ => ⟨hlock, hr⟩
  | joinWaits _ hlock _ hr => exact fun _ _ => ⟨hlock, hr⟩
  | spurious _ => exact hw.leave rfl
  | resumeWaits _ hlock hr => exact fun _ _ => ⟨hlock, hr⟩
  | resumeReturns _ _ _ => exact hw.leave rfl
  | lockExit _ _ _ =>
      -- nobody is blocked after the broadcast
      intro c hc
      rw [Call.isWaiting_notify] at hc
      exact absurd hc (by simp)
  | _ => exact hw

theorem unblocked_step {s s' : State Tid} {a : Action Tid} {ph : Phase Tid} (h : Step s a s')
    (hf : Fits s ph) (hu : Unblocked s.call s.loop) : Unblocked s'.call s'.loop := by
  -- the thread of a run that takes `mLock` finds its own id in `m_ThreadId`, and `mRunning` set
  have hself : ∀ {t : Tid}, s.mLock = none → (s.loop t).isRun = true →
      s.mThreadId = some t ∧ s.mRunning = true := by
    intro t hlock ht
    obtain rfl := hf.running_of_isRun hlock ht
    exact ⟨hf.threadId, hf.running⟩
  cases h with
  | @run t _ hlock hr =>
      refine hu.call_move (Bool.eq_false_iff.2 fun ht => ?_)
      rw [(hself hlock ht).2] at hr
      exact absurd hr (by simp)
  | @create t u hc _ hout _ =>
      intro v hv
      dsimp only at hv ⊢
      have hvt : v ≠ t := by
        rintro rfl
        by_cases hvu : v = u
        · subst hvu
          rw [hc] at hout
          exact absurd hout (by simp)
        · rw [update_of_ne hvu, hu.isRun_of_call hc (by simp)] at hv
          exact absurd hv (by simp)
      rw [update_of_ne hvt]
      by_cases hvu : v = u
      · rw [hvu, hout]
      · rw [update_of_ne hvu] at hv
        exact hu v hv
  | createFails hc => exact hu.stay hc (by simp)
  | clearHold hc _ => exact hu.stay hc (by simp)
  | clearHoldNull hc _ => exact hu.stay hc (by simp)
  | runDone hc => exact hu.stay hc (by simp)
  | runFailed hc _ => exact hu.stay hc (by simp)
  | exitWaits _ hlock hne _ =>
      exact hu.call_move (Bool.eq_false_iff.2 fun ht => hne (hself hlock ht).1)
  | joinWaits _ hlock hne _ =>
      exact hu.call_move (Bool.eq_false_iff.2 fun ht => hne (hself hlock ht).1)
  | spurious hc => exact hu.stay hc (by simp)
  | resumeWaits hc _ _ => exact hu.stay hc (by simp)
  | resumeReturns hc _ _ => exact hu.stay hc (by simp)
  | copyHold hl _ => exact hu.walk hl fun _ => rfl
  | copyNull hl _ => exact hu.walk hl fun _ => rfl
  | clearSelf hl _ => exact hu.walk hl fun _ => rfl
  | clearNull hl _ => exact hu.walk hl fun _ => rfl
  | nullSelf hl _ => exact hu.walk hl fun _ => rfl
  | readyToRun hl _ _ => exact hu.walk hl fun _ => rfl
  | exitPending hl _ => exact hu.walk hl fun _ => rfl
  | threadLoop hl _ => exact hu.walk hl fun _ => rfl
  | loopReturns hl _ _ => exact hu.walk hl fun _ => rfl
  | lockExit hl _ _ =>
      intro u hru
      have hout := hu.walk hl (q := .unwind) (fun _ => rfl) u hru
      dsimp only
      rw [hout]
      rfl
  | lockStay hl _ _ => exact hu.walk hl fun _ => rfl
  | clearStrong hl => exact hu.walk hl fun _ => rfl
  | readCount hl _ => exact hu.walk hl fun _ => rfl
  | compareCount hl => exact hu.walk hl fun _ => rfl
  | compareFails hl _ => exact hu.walk hl fun _ => rfl
  | assign hl => exact hu.walk hl fun _ => rfl
  | dropResult hl => exact hu.walk hl fun _ => rfl
  | unwind hl => exact hu.walk hl (by simp [Loop.isRun])
  | _ => exact hu

/-- Who is blocked and who is not, in every reachable state. -/
theorem reachable_waits {t : Tid} {s : State Tid} (h : (machine t).Reachable s) :
    Waits s.mLock s.mRunning s.call ∧ Unblocked s.call s.loop := by
  have hinvariant := (fits_invariant t).relative
    (I := fun s => Waits s.mLock s.mRunning s.call ∧ Unblocked s.call s.loop)
  refine ((hinvariant ?_ ?_).reachable h).2
  · intro s hs
    obtain rfl : s = start t := hs
    exact ⟨fun c hc => absurd hc (by simp [start, Call.isWaiting]), fun _ _ => rfl⟩
  · rintro s a s' ⟨ph, hf⟩ ⟨hw, hu⟩ hs
    exact ⟨waits_step hs hf hw, unblocked_step hs hf hu⟩

end CThread

open CThread

/-- **Nobody is left waiting, and nobody waits for himself.**  Whenever `mRunning` is false and
`mLock` is free, no caller of `join` or `requestExitAndWait` is blocked without having been
notified.  A thread inside its own `threadLoop()` is in neither function: a call it makes returns
`WOULD_BLOCK` as soon as it has `mLock`, and there is nothing else the call can do. -/
theorem waiters_wake {Tid : Type} [DecidableEq Tid] (creator : Tid) {s : State Tid}
    (h : (machine creator).Reachable s) :
    (s.mRunning = false → s.mLock = none → ∀ c exit, s.call c ≠ .waiting exit) ∧
    ∀ t, s.loop t = .threadLoop →
      (∀ exit, s.call t ≠ .waiting exit ∧ s.call t ≠ .woken exit) ∧
      (∀ returned s', Step s (.join t returned) s' ∨ Step s (.requestExitAndWait t returned) s' →
        returned = some Status.wouldBlock.code ∧ s' = s) ∧
      (s.mayCall t → s.mLock = none → Step s (.join t (some Status.wouldBlock.code)) s ∧
        Step s (.requestExitAndWait t (some Status.wouldBlock.code)) s) := by
  obtain ⟨ph, hf⟩ := reachable_fits h
  obtain ⟨hw, hu⟩ := reachable_waits h
  constructor
  · intro hr _ c exit hc
    have hnone := hw.none_waits (.inr hr) c
    rw [hc] at hnone
    exact absurd hnone (by simp [Call.isWaiting])
  · intro t ht
    have hrun : (s.loop t).isRun = true := by rw [ht]; rfl
    have hid : s.mLock = none → s.mThreadId = some t := by
      intro hlock
      obtain rfl := hf.running_of_isRun hlock hrun
      exact hf.threadId
    refine ⟨fun exit => ?_, fun returned s' hs => ?_, fun hmay hlock => ?_⟩
    · simp [hu t hrun]
    · rcases hs with hs | hs
      · cases hs with
        | joinWouldBlock _ _ _ => exact ⟨rfl, rfl⟩
        | joinWaits _ hlock hne _ => exact absurd (hid hlock) hne
        | joinReturns _ hlock hne _ => exact absurd (hid hlock) hne
      · cases hs with
        | exitWouldBlock _ _ _ => exact ⟨rfl, rfl⟩
        | exitWaits _ hlock hne _ => exact absurd (hid hlock) hne
        | exitReturns _ hlock hne _ => exact absurd (hid hlock) hne
    · exact ⟨.joinWouldBlock hmay hlock (hid hlock), .exitWouldBlock hmay hlock (hid hlock)⟩

/-- The thread of a first run calls `join` from its `threadLoop()`. -/
theorem waiters_wake_inside : ∃ s : State ℕ, (machine 0).Reachable s ∧ s.loop 1 = .threadLoop ∧
    Step s (.join 1 (some Status.wouldBlock.code)) s := by
  have h₀ : (machine (0 : ℕ)).Reachable (start 0) := .init rfl
  have h₁ := h₀.step (Step.run (t := 0) ⟨⟨rfl, rfl, rfl⟩, by decide⟩ rfl rfl)
  have h₂ := h₁.step (Step.create (t := 0) (u := 1) rfl rfl rfl rfl)
  have h₃ := h₂.step (Step.runDone (t := 0) (u := 1) rfl)
  have h₄ := h₃.step (Step.copyHold (t := 1) rfl (by decide))
  have h₅ := h₄.step (Step.clearSelf (t := 1) rfl (by decide))
  have h₆ := h₅.step (Step.nullSelf (t := 1) rfl rfl)
  have h₇ := h₆.step (@Step.readyToRun _ _ _ 1 0 rfl rfl rfl)
  have h₈ := h₇.step (Step.exitPending (t := 1) rfl rfl)
  have h₉ := h₈.step (Step.threadLoop (t := 1) rfl rfl)
  exact ⟨_, h₉, rfl, (((waiters_wake 0 h₉).2 1 rfl).2.2 ⟨⟨rfl, rfl, rfl⟩, by decide⟩ rfl).1⟩

end VModule

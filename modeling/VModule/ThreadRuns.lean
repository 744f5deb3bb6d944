/-
**One run at a time.**

The life of a `CThread` is a cycle: nothing runs; some caller is in the section of `run`, before or
after the creation of the thread, or cleaning up because it has failed; and then one thread runs
until its exit section.  This module states that cycle as a machine of its own and shows that the
machine of `VModule/Thread.lean` follows it step by step.  In every phase the lock, the flags, the
thread id and `mHoldSelf` are what the phase says, which is behind `VModule.run_exclusive`.

Main definitions:

* `VModule.CThread.Phase`, `VModule.CThread.Phase.Next` — the cycle;
* `VModule.CThread.Phase.At`, `VModule.CThread.Fits` — a state is in a phase;
* `VModule.CThread.Active` — some run has not passed its exit section.

Main results:

* `VModule.CThread.fits_step` — **simulation**: a step stays in its phase or goes to the next one;
* `VModule.CThread.reachable_fits` — every reachable state is in some phase;
* `VModule.run_exclusive` — **at most one run is active, and the members say which**.
-/

import VModule.Thread

set_option relaxedAutoImplicit false
set_option autoImplicit false

namespace VModule

namespace CThread

open Function

variable {Tid : Type}

/-! ### The cycle -/

/-- Where the object is in its cycle. -/
inductive Phase (Tid : Type) where
  | idle
  | starting (caller : Tid)
  | started (caller thread : Tid)
  | failing (caller : Tid) (cleared : Bool)
  | running (thread : Tid)

namespace Phase

/-- The cycle. -/
inductive Next : Phase Tid → Phase Tid → Prop
  | run (c : Tid) : Next .idle (.starting c)
  | create (c u : Tid) : Next (.starting c) (.started c u)
  | fail (c : Tid) : Next (.starting c) (.failing c false)
  | clear (c : Tid) : Next (.failing c false) (.failing c true)
  | giveUp (c : Tid) : Next (.failing c true) .idle
  | done (c u : Tid) : Next (.started c u) (.running u)
  | exit (u : Tid) : Next (.running u) .idle

def holder : Phase Tid → Option Tid
  | .idle => none
  | .starting c => some c
  | .started c _ => some c
  | .failing c _ => some c
  | .running _ => none

def stage : Phase Tid → Option (Stage Tid)
  | .idle => none
  | .starting _ => some .create
  | .started _ u => some (.created u)
  | .failing _ false => some .failed
  | .failing _ true => some .cleared
  | .running _ => none

/-- The thread of the run. -/
def runner : Phase Tid → Option Tid
  | .started _ u => some u
  | .running u => some u
  | _ => none

def isRunning : Phase Tid → Bool
  | .starting _ => true
  | .started _ _ => true
  | .running _ => true
  | _ => false

def threadId : Phase Tid → Option Tid
  | .running u => some u
  | _ => none

end Phase

/-- What `mHoldSelf` is while the thread of a run stands here. -/
def Loop.holdSelf : Loop → HoldSelf
  | .entered => .held
  | .copied => .held
  | .cleared => .cleared
  | _ => .null

/-- No thread starts without a reference, and none promotes a count of zero. -/
def Loop.sound : Loop → Bool
  | .compare curCount => curCount ≠ 0
  | .orphan => false
  | _ => true

/-- What `mHoldSelf` is in a phase: its reference goes from the section of `run` to the new thread,
or back. -/
def Phase.holdSelf (loop : Tid → Loop) : Phase Tid → HoldSelf
  | .idle => .null
  | .starting _ => .held
  | .started _ u => (loop u).holdSelf
  | .failing _ false => .held
  | .failing _ true => .cleared
  | .running u => (loop u).holdSelf

theorem Phase.holdSelf_of_runner {ph : Phase Tid} {t : Tid} (h : ph.runner = some t)
    (loop : Tid → Loop) : ph.holdSelf loop = (loop t).holdSelf := by
  cases ph with
  | started c u =>
      obtain rfl : u = t := Option.some_inj.1 h
      rfl
  | running u =>
      obtain rfl : u = t := Option.some_inj.1 h
      rfl
  | _ => exact absurd h (by simp [Phase.runner])

theorem Phase.holdSelf_congr {ph : Phase Tid} {loop loop' : Tid → Loop}
    (h : ∀ t, ph.runner = some t → (loop' t).holdSelf = (loop t).holdSelf) :
    ph.holdSelf loop' = ph.holdSelf loop := by
  cases ph with
  | started c u => exact h u rfl
  | running u => exact h u rfl
  | failing c b => cases b <;> rfl
  | _ => rfl

/-- The members, the callers and the threads are where this phase has them. -/
structure Phase.At (ph : Phase Tid) (lock : Option Tid) (running : Bool) (threadId : Option Tid)
    (hold : HoldSelf) (call : Tid → Call Tid) (loop : Tid → Loop) : Prop where
  lock : lock = ph.holder
  running : running = ph.isRunning
  threadId : threadId = ph.threadId
  hold : hold = ph.holdSelf loop
  stage : ∀ c st, (call c).stage = some st ↔ ph.holder = some c ∧ ph.stage = some st
  runner : ∀ t, (loop t).isRun = true ↔ ph.runner = some t
  sound : ∀ t, (loop t).sound = true

/-- The state is in this phase. -/
abbrev Fits (s : State Tid) (ph : Phase Tid) : Prop :=
  ph.At s.mLock s.mRunning s.mThreadId s.mHoldSelf s.call s.loop

/-- A run is active: its thread has not passed the exit section. -/
def Active (s : State Tid) : Prop := ∃ t, (s.loop t).isRun = true

namespace Fits

variable {s : State Tid} {ph : Phase Tid}

theorem starting (h : Fits s ph) {t : Tid} (ht : s.call t = .run .create) : ph = .starting t := by
  obtain ⟨hh, hs⟩ := (h.stage t .create).1 (by rw [ht]; rfl)
  cases ph with
  | failing c b => cases b <;> simp [Phase.stage] at hs
  | starting c => simpa [Phase.holder] using hh
  | _ => simp [Phase.stage] at hs

theorem started (h : Fits s ph) {t u : Tid} (ht : s.call t = .run (.created u)) :
    ph = .started t u := by
  obtain ⟨hh, hs⟩ := (h.stage t (.created u)).1 (by rw [ht]; rfl)
  cases ph with
  | failing c b => cases b <;> simp [Phase.stage] at hs
  | started c v =>
      simp only [Phase.holder, Option.some.injEq] at hh
      simp only [Phase.stage, Option.some.injEq, Stage.created.injEq] at hs
      rw [hh, hs]
  | _ => simp [Phase.stage] at hs

theorem failed (h : Fits s ph) {t : Tid} (ht : s.call t = .run .failed) :
    ph = .failing t false := by
  obtain ⟨hh, hs⟩ := (h.stage t .failed).1 (by rw [ht]; rfl)
  cases ph with
  | failing c b => cases b <;> simp_all [Phase.stage, Phase.holder]
  | _ => simp [Phase.stage] at hs

theorem cleared (h : Fits s ph) {t : Tid} (ht : s.call t = .run .cleared) :
    ph = .failing t true := by
  obtain ⟨hh, hs⟩ := (h.stage t .cleared).1 (by rw [ht]; rfl)
  cases ph with
  | failing c b => cases b <;> simp_all [Phase.stage, Phase.holder]
  | _ => simp [Phase.stage] at hs

/-- While `mLock` is free, nothing runs or a thread does. -/
theorem of_free (h : Fits s ph) (hlock : s.mLock = none) : ph = .idle ∨ ∃ u, ph = .running u := by
  have hh := h.lock
  rw [hlock] at hh
  cases ph with
  | idle => exact .inl rfl
  | running u => exact .inr ⟨u, rfl⟩
  | _ => simp [Phase.holder] at hh

theorem idle (h : Fits s ph) (hlock : s.mLock = none) (hr : s.mRunning = false) : ph = .idle := by
  rcases h.of_free hlock with rfl | ⟨u, rfl⟩
  · rfl
  · have := h.running
    rw [hr] at this
    exact absurd this (by simp [Phase.isRunning])

/-- The thread that takes `mLock` is the running one. -/
theorem running_of_isRun (h : Fits s ph) (hlock : s.mLock = none) {t : Tid}
    (ht : (s.loop t).isRun = true) : ph = .running t := by
  have hr := (h.runner t).1 ht
  rcases h.of_free hlock with rfl | ⟨u, rfl⟩
  · exact absurd hr (by simp [Phase.runner])
  · obtain rfl : u = t := by simpa [Phase.runner] using hr
    rfl

/-- The thread of a run finds `mHoldSelf` as its place says. -/
theorem hold_of_isRun (h : Fits s ph) {t : Tid} {p : Loop} (hp : s.loop t = p)
    (ht : p.isRun = true) : s.mHoldSelf = p.holdSelf := by
  rw [h.hold, Phase.holdSelf_of_runner ((h.runner t).1 (by rw [hp, ht])), hp]

/-- There is one thread for each run. -/
theorem lone (h : Fits s ph) {t u : Tid} (ht : (s.loop t).isRun = true)
    (hu : (s.loop u).isRun = true) : t = u :=
  Option.some_inj.1 (((h.runner t).1 ht).symm.trans ((h.runner u).1 hu))

/-- While `mLock` is free, `mRunning` tells whether a run is active. -/
theorem running_iff (h : Fits s ph) (hlock : s.mLock = none) : s.mRunning = true ↔ Active s := by
  rw [h.running]
  unfold Active
  simp only [h.runner]
  rcases h.of_free hlock with rfl | ⟨u, rfl⟩
  · simp [Phase.isRunning, Phase.runner]
  · simp [Phase.isRunning, Phase.runner]

end Fits

/-! ### The steps follow the cycle -/

theorem stage_notify (c : Call Tid) : c.notify.stage = c.stage := by
  cases c <;> rfl

variable [DecidableEq Tid]

theorem isRun_update {loop : Tid → Loop} {t : Tid} {p q : Loop} (hp : loop t = p)
    (hq : q.isRun = p.isRun) (u : Tid) : (update loop t q u).isRun = (loop u).isRun := by
  by_cases hut : u = t
  · subst hut
    rw [update_self, hp, hq]
  · rw [update_of_ne hut]

namespace Phase.At

variable {ph ph' : Phase Tid} {lock threadId : Option Tid} {running : Bool} {hold : HoldSelf}
  {call : Tid → Call Tid} {loop : Tid → Loop}

/-- A caller enters, goes on in or leaves a function other than `run`. -/
theorem call_move (h : ph.At lock running threadId hold call loop) {t : Tid} {p q : Call Tid}
    (hp : call t = p) (hps : p.stage = none) (hqs : q.stage = none) :
    ph.At lock running threadId hold (update call t q) loop := by
  refine { h with stage := fun c st => ?_ }
  rw [← h.stage c st]
  by_cases hct : c = t
  · subst hct
    rw [update_self, hp, hps, hqs]
  · rw [update_of_ne hct]

/-- The caller `t` enters, goes on in or leaves the section of `run`. -/
theorem stage_move (h : ph.At lock running threadId hold call loop) {t : Tid} {q : Call Tid}
    (hph : ∀ c, ph.holder = some c → c = t) (hph' : ∀ c, ph'.holder = some c → c = t)
    (ht : ∀ st, q.stage = some st ↔ ph'.holder = some t ∧ ph'.stage = some st) :
    ∀ c st, (update call t q c).stage = some st ↔ ph'.holder = some c ∧ ph'.stage = some st := by
  intro c st
  by_cases hct : c = t
  · subst hct
    rw [update_self]
    exact ht st
  · rw [update_of_ne hct]
    refine iff_of_false (fun hc => ?_) (fun hc => hct (hph' c hc.1))
    exact hct (hph c ((h.stage c st).1 hc).1)

theorem sound_update (h : ph.At lock running threadId hold call loop) {t : Tid} {q : Loop}
    (hq : q.sound = true) : ∀ u, (update loop t q u).sound = true :=
  (forall_update_iff loop fun _ l => l.sound = true).2 ⟨hq, fun u _ => h.sound u⟩

theorem runner_update (h : ph.At lock running threadId hold call loop) {t : Tid} {p q : Loop}
    (hp : loop t = p) (hq : q.isRun = p.isRun) (u : Tid) :
    (update loop t q u).isRun = true ↔ ph.runner = some u := by
  rw [isRun_update hp hq]
  exact h.runner u

/-- A thread goes on in `_threadLoop`, and `mHoldSelf` stays what it is. -/
theorem walk (h : ph.At lock running threadId hold call loop) {t : Tid} {p q : Loop}
    (hp : loop t = p) (hrun : q.isRun = p.isRun) (hhold : q.holdSelf = p.holdSelf)
    (hsound : q.sound = true) : ph.At lock running threadId hold call (update loop t q) := by
  refine { h with
    hold := ?_
    runner := h.runner_update hp hrun
    sound := h.sound_update hsound }
  rw [h.hold]
  refine (Phase.holdSelf_congr fun u _ => ?_).symm
  by_cases hut : u = t
  · subst hut
    rw [update_self, hp, hhold]
  · rw [update_of_ne hut]

/-- The thread of the run goes on, and brings `mHoldSelf` to what it is at the new place. -/
theorem hold_move (h : ph.At lock running threadId hold call loop) {t : Tid} {p q : Loop}
    (hp : loop t = p) (hpr : p.isRun = true) (hqr : q.isRun = true) (hsound : q.sound = true) :
    ph.At lock running threadId q.holdSelf call (update loop t q) := by
  refine { h with
    hold := ?_
    runner := h.runner_update hp (by rw [hpr, hqr])
    sound := h.sound_update hsound }
  have hr := (h.runner t).1 (by rw [hp, hpr])
  rw [Phase.holdSelf_of_runner hr, update_self]

end Phase.At

/-- **Simulation.**  A step stays in the phase or goes to the next one. -/
theorem fits_step {s s' : State Tid} {a : Action Tid} {ph : Phase Tid} (h : Step s a s')
    (hf : Fits s ph) : ∃ ph', Fits s' ph' ∧ (ph' = ph ∨ ph.Next ph') := by
  have hstay : ∀ {q : State Tid}, Fits q ph → ∃ ph', Fits q ph' ∧ (ph' = ph ∨ ph.Next ph') :=
    fun hq => ⟨ph, hq, .inl rfl⟩
  cases h with
  | @run t hmay hlock hr =>
      obtain rfl := hf.idle hlock hr
      refine ⟨.starting t, ⟨rfl, rfl, rfl, rfl, ?_, hf.runner, hf.sound⟩, .inr (.run t)⟩
      exact hf.stage_move (by simp [Phase.holder]) (by simp [Phase.holder])
        (by simp [Call.stage, Phase.stage, Phase.holder])
  | @create t u hc hu _ _ =>
      obtain rfl := hf.starting hc
      refine ⟨.started t u, { hf with hold := ?_, stage := ?_, runner := ?_, sound := ?_ },
        .inr (.create t u)⟩
      · dsimp only
        rw [hf.hold, Phase.holdSelf, Phase.holdSelf, update_self]
        rfl
      · exact hf.stage_move (by simp [Phase.holder]) (by simp [Phase.holder])
          (by simp [Call.stage, Phase.stage, Phase.holder])
      · intro v
        by_cases hvu : v = u
        · subst hvu
          simp [Loop.isRun, Phase.runner]
        · simp [update_of_ne hvu, hf.runner v, Phase.runner, Ne.symm hvu]
      · exact hf.sound_update rfl
  | @createFails t hc =>
      obtain rfl := hf.starting hc
      refine ⟨.failing t false, { hf with running := rfl, threadId := rfl, stage := ?_ },
        .inr (.fail t)⟩
      exact hf.stage_move (by simp [Phase.holder]) (by simp [Phase.holder])
        (by simp [Call.stage, Phase.stage, Phase.holder])
  | @clearHold t hc _ =>
      obtain rfl := hf.failed hc
      refine ⟨.failing t true, { hf with hold := rfl, stage := ?_ }, .inr (.clear t)⟩
      exact hf.stage_move (by simp [Phase.holder]) (by simp [Phase.holder])
        (by simp [Call.stage, Phase.stage, Phase.holder])
  | @clearHoldNull t hc hnull =>
      obtain rfl := hf.failed hc
      rw [hf.hold] at hnull
      exact absurd hnull (by simp [Phase.holdSelf])
  | @runDone t u hc =>
      obtain rfl := hf.started hc
      refine ⟨.running u, { hf with lock := rfl, threadId := rfl, stage := ?_ }, .inr (.done t u)⟩
      exact hf.stage_move (by simp [Phase.holder]) (by simp [Phase.holder])
        (by simp [Call.stage, Phase.stage, Phase.holder])
  | @runFailed t hc _ =>
      obtain rfl := hf.cleared hc
      refine ⟨.idle, { hf with lock := rfl, hold := rfl, stage := ?_ }, .inr (.giveUp t)⟩
      exact hf.stage_move (by simp [Phase.holder]) (by simp [Phase.holder])
        (by simp [Call.stage, Phase.stage, Phase.holder])
  | @lockExit t r hl hlock _ =>
      have hnull := hf.hold_of_isRun hl rfl
      obtain rfl := hf.running_of_isRun hlock (t := t) (by rw [hl]; rfl)
      refine ⟨.idle, ⟨hlock, rfl, rfl, hnull, fun c st => ?_, fun v => ?_, hf.sound_update rfl⟩,
        .inr (.exit t)⟩
      · rw [stage_notify, hf.stage c st]
        simp [Phase.holder]
      · by_cases hvt : v = t
        · subst hvt
          simp [Loop.isRun, Phase.runner]
        · simp [update_of_ne hvt, hf.runner v, Phase.runner, Ne.symm hvt]
  | exitWaits hmay _ _ _ => exact hstay (hf.call_move hmay.1.1 rfl rfl)
  | joinWaits hmay _ _ _ => exact hstay (hf.call_move hmay.1.1 rfl rfl)
  | spurious hc => exact hstay (hf.call_move hc rfl rfl)
  | resumeWaits hc _ _ => exact hstay (hf.call_move hc rfl rfl)
  | resumeReturns hc _ _ => exact hstay (hf.call_move hc rfl rfl)
  | copyHold hl _ => exact hstay (hf.walk hl rfl rfl rfl)
  | copyNull hl hnull =>
      rw [hf.hold_of_isRun hl rfl] at hnull
      exact absurd hnull (by simp [Loop.holdSelf])
  | clearSelf hl _ => exact hstay (hf.hold_move (q := .cleared) hl rfl rfl rfl)
  | clearNull hl hnull =>
      rw [hf.hold_of_isRun hl rfl] at hnull
      exact absurd hnull (by simp [Loop.holdSelf])
  | nullSelf hl _ => exact hstay (hf.hold_move (q := .readyToRun) hl rfl rfl rfl)
  | readyToRun hl _ _ =>
      refine hstay (hf.walk hl ?_ ?_ ?_) <;> split <;> rfl
  | exitPending hl _ =>
      refine hstay (hf.walk hl ?_ ?_ ?_) <;> split <;> rfl
  | threadLoop hl _ => exact hstay (hf.walk hl rfl rfl rfl)
  | loopReturns hl _ _ => exact hstay (hf.walk hl rfl rfl rfl)
  | lockStay hl _ _ => exact hstay (hf.walk hl rfl rfl rfl)
  | clearStrong hl => exact hstay (hf.walk hl rfl rfl rfl)
  | readCount hl _ =>
      by_cases hz : s.mStrong = 0
      · rw [if_pos hz]
        exact hstay (hf.walk hl rfl rfl rfl)
      · rw [if_neg hz]
        exact hstay (hf.walk hl rfl rfl (by simp [Loop.sound, hz]))
  | compareCount hl => exact hstay (hf.walk hl rfl rfl rfl)
  | compareFails hl _ => exact hstay (hf.walk hl rfl rfl rfl)
  | assign hl => exact hstay (hf.walk hl rfl rfl rfl)
  | dropResult hl => exact hstay (hf.walk hl rfl rfl rfl)
  | unwind hl => exact hstay (hf.walk hl rfl rfl rfl)
  | _ => exact hstay hf

theorem fits_start (t : Tid) : Fits (start t) .idle := by
  refine ⟨rfl, rfl, rfl, rfl, fun c st => ?_, fun u => ?_, fun u => rfl⟩
  · simp [start, Call.stage, Phase.holder]
  · simp [start, Loop.isRun, Phase.runner]

theorem fits_invariant (t : Tid) : (machine t).Invariant fun s => ∃ ph, Fits s ph := by
  constructor
  · rintro s rfl
    exact ⟨.idle, fits_start t⟩
  · rintro s a s' ⟨ph, hf⟩ hs
    obtain ⟨ph', hf', -⟩ := fits_step hs hf
    exact ⟨ph', hf'⟩

/-- Every reachable state is in some phase. -/
theorem reachable_fits {t : Tid} {s : State Tid} (h : (machine t).Reachable s) :
    ∃ ph, Fits s ph := (fits_invariant t).reachable h

end CThread

open CThread

/-- **At most one run is active.**  For any number of callers and every interleaving: at most one
thread is inside `readyToRun()` or `threadLoop()`; `run` returns `INVALID_OPERATION` exactly if a
run is active when it takes `mLock`, and never after it has got past that test; and whenever `mLock`
is free, `m_ThreadId` is the id of the active run's thread if `mRunning` is true and `-1` if it is
false. -/
theorem run_exclusive {Tid : Type} [DecidableEq Tid] (creator : Tid) {s : State Tid}
    (h : (machine creator).Reachable s) :
    (∀ t u, (s.loop t).inside = true → (s.loop u).inside = true → t = u) ∧
    (∀ t returned s', Step s (.run t returned) s' →
      (returned = some .invalidOperation ↔ Active s)) ∧
    (∀ t returned s', Step s (.runDone t returned) s' → returned ≠ .invalidOperation) ∧
    (s.mLock = none → (s.mRunning = true →
        ∃ t, s.mThreadId = some t ∧ ∀ u, (s.loop u).isRun = true ↔ u = t) ∧
      (s.mRunning = false → s.mThreadId = none ∧ ¬ Active s)) := by
  obtain ⟨ph, hf⟩ := reachable_fits h
  have hin : ∀ {l : Loop}, l.inside = true → l.isRun = true := by
    intro l hl
    cases l <;> simp_all [Loop.inside, Loop.isRun]
  refine ⟨?_, ?_, ?_, fun hlock => ⟨fun hr => ?_, fun hr => ?_⟩⟩
  · intro t u ht hu
    exact hf.lone (hin ht) (hin hu)
  · intro t returned s' hs
    cases hs with
    | runRefused _ hlock hr => exact iff_of_true rfl ((hf.running_iff hlock).1 hr)
    | run _ hlock hr =>
        refine iff_of_false (by simp) fun ha => ?_
        rw [(hf.running_iff hlock).2 ha] at hr
        exact absurd hr (by simp)
  · intro t returned s' hs
    cases hs <;> simp
  · rcases hf.of_free hlock with rfl | ⟨u, rfl⟩
    · rw [hf.running] at hr
      exact absurd hr (by simp [Phase.isRunning])
    · refine ⟨u, hf.threadId, fun v => ?_⟩
      rw [hf.runner v]
      simp [Phase.runner, eq_comm]
  · obtain rfl := hf.idle hlock hr
    refine ⟨hf.threadId, fun ha => ?_⟩
    rw [(hf.running_iff hlock).2 ha] at hr
    exact absurd hr (by simp)

namespace CThread

/-- Thread `0` creates the object and calls `run`, which creates thread `1`. -/
theorem first_run : ∃ s : State ℕ, (machine 0).Reachable s ∧ s.mLock = none ∧ s.mRunning = true ∧
    s.mThreadId = some 1 ∧ s.loop 1 = .entered ∧ s.mayCall 0 := by
  have h₀ : (machine (0 : ℕ)).Reachable (start 0) := .init rfl
  have h₁ := h₀.step (Step.run (t := 0) ⟨⟨rfl, rfl, rfl⟩, by decide⟩ rfl rfl)
  have h₂ := h₁.step (Step.create (t := 0) (u := 1) rfl rfl rfl rfl)
  have h₃ := h₂.step (Step.runDone (t := 0) (u := 1) rfl)
  exact ⟨_, h₃, rfl, rfl, rfl, rfl, ⟨rfl, rfl, rfl⟩, by decide⟩

end CThread

/-- After a `run` that has succeeded. -/
theorem run_exclusive_first : ∃ s : State ℕ, (machine 0).Reachable s ∧
    ∃ t, s.mThreadId = some t ∧ ∀ u, (s.loop u).isRun = true ↔ u = t := by
  obtain ⟨s, hs, hlock, hr, -⟩ := first_run
  exact ⟨s, hs, ((run_exclusive 0 hs).2.2.2 hlock).1 hr⟩

end VModule

/-
**Requests to exit.**

Over the machine of `VModule/Thread.lean`.  `mExitPending` is cleared by `run` and at the end of
`requestExitAndWait`, in both places only while nothing runs; so a request stays pending until the
run it was made in ends, and that run starts `threadLoop` at most once more.

A waiter of `requestExitAndWait` looks at nothing but `mRunning` when it is woken.  If somebody
calls `run` before it gets there, the new run has no request pending and the waiter waits for it.

Main definitions:

* `VModule.CThread.Requested` — what a request leaves to a run;
* `VModule.CThread.LostRequest`, `VModule.CThread.RunsAhead` — the bad state of a waiter, and the
  bad step.

Main results:

* `VModule.CThread.requested_step` — no step clears the flag of an active run;
* `VModule.request_bounds_starts` — **a request is heard**: one more `threadLoop` at most;
* `VModule.request_lost_iff` — **when the request of a waiter is lost**.
-/

import VModule.ThreadRuns

set_option relaxedAutoImplicit false
set_option autoImplicit false

namespace VModule

namespace CThread

open Function

variable {Tid : Type}

/-! ### What is left to a run -/

namespace Loop

/-- How often the thread starts `threadLoop` before it tests `mExitPending` again. -/
def upcoming : Loop → ℕ
  | .call => 1
  | .clear => 1
  | .promote => 1
  | .compare _ => 1
  | .promoted => 1
  | .assigned => 1
  | _ => 0

/-- Before the first test of `exitPending()`. -/
def beforeTest : Loop → Bool
  | .entered => true
  | .copied => true
  | .cleared => true
  | .readyToRun => true
  | .exitPending => true
  | _ => false

theorem upcoming_le (l : Loop) : l.upcoming ≤ 1 := by
  cases l <;> simp [upcoming]

end Loop

/-- A request is pending for run `k`, and the run starts `threadLoop` at most `N` times in all. -/
structure Requested (k N : ℕ) (s : State Tid) : Prop where
  begun : k < s.runs
  bound : s.starts k ≤ N
  pending : ∀ u, (s.loop u).isRun = true → s.number u = k →
    s.mRunning = true ∧ s.mExitPending = true ∧ s.starts k + (s.loop u).upcoming ≤ N

variable [DecidableEq Tid]

/-- A thread goes on, and has no more starts before it than it had. -/
theorem Requested.move {k N : ℕ} {s : State Tid} (h : Requested k N s) {t : Tid} {p q : Loop}
    (hp : s.loop t = p) (hq : q.isRun = p.isRun) (hup : q.upcoming ≤ p.upcoming) :
    ∀ u, (update s.loop t q u).isRun = true → s.number u = k →
      s.mRunning = true ∧ s.mExitPending = true ∧
        s.starts k + (update s.loop t q u).upcoming ≤ N := by
  refine (forall_update_iff s.loop fun u l => l.isRun = true → s.number u = k →
    s.mRunning = true ∧ s.mExitPending = true ∧ s.starts k + l.upcoming ≤ N).2
    ⟨?_, fun u _ => h.pending u⟩
  intro hrun hk
  obtain ⟨hr, hpend, hle⟩ := h.pending t (by rw [hp, ← hq, hrun]) hk
  rw [hp] at hle
  exact ⟨hr, hpend, by omega⟩

/-- **No step clears the flag of an active run**, nor gives it back a start. -/
theorem requested_step {k N : ℕ} {s s' : State Tid} {a : Action Tid} {ph : Phase Tid}
    (h : Step s a s') (hf : Fits s ph) (hreq : Requested k N s) : Requested k N s' := by
  have hbegun := hreq.begun
  have hbound := hreq.bound
  have hpending := hreq.pending
  -- while `mRunning` is clear, run `k` has ended
  have hended : s.mRunning = false → ∀ u, (s.loop u).isRun = true → s.number u ≠ k := by
    intro hr u hu hk
    have := (hpending u hu hk).1
    rw [hr] at this
    exact absurd this (by simp)
  cases h with
  | run _ _ hr => exact ⟨hbegun, hbound, fun u hu hk => absurd hk (hended hr u hu)⟩
  | @create t u hc hu _ _ =>
      refine ⟨Nat.lt_succ_of_lt hbegun, hbound, fun v hv hk => ?_⟩
      dsimp only at hv hk ⊢
      by_cases hvu : v = u
      · -- the new thread works for a new run
        subst hvu
        rw [update_self] at hk
        omega
      · rw [update_of_ne hvu] at hv hk ⊢
        exact hpending v hv hk
  | @createFails t hc =>
      obtain rfl := hf.starting hc
      refine ⟨hbegun, hbound, fun u hu _ => ?_⟩
      exact absurd ((hf.runner u).1 hu) (by simp [Phase.runner])
  | requestExit _ _ =>
      refine ⟨hbegun, hbound, fun u hu hk => ?_⟩
      obtain ⟨hr, -, hle⟩ := hpending u hu hk
      exact ⟨hr, rfl, hle⟩
  | exitWaits _ _ _ _ =>
      refine ⟨hbegun, hbound, fun u hu hk => ?_⟩
      obtain ⟨hr, -, hle⟩ := hpending u hu hk
      exact ⟨hr, rfl, hle⟩
  | exitReturns _ _ _ hr => exact ⟨hbegun, hbound, fun u hu hk => absurd hk (hended hr u hu)⟩
  | resumeReturns _ _ hr => exact ⟨hbegun, hbound, fun u hu hk => absurd hk (hended hr u hu)⟩
  | copyHold hl _ => exact ⟨hbegun, hbound, hreq.move hl rfl (Nat.le_refl _)⟩
  | copyNull hl _ => exact ⟨hbegun, hbound, hreq.move hl rfl (Nat.le_refl _)⟩
  | clearSelf hl _ => exact ⟨hbegun, hbound, hreq.move hl rfl (Nat.le_refl _)⟩
  | clearNull hl _ => exact ⟨hbegun, hbound, hreq.move hl rfl (Nat.le_refl _)⟩
  | nullSelf hl _ => exact ⟨hbegun, hbound, hreq.move hl rfl (Nat.le_refl _)⟩
  | readyToRun hl _ _ =>
      refine ⟨hbegun, hbound, hreq.move hl ?_ ?_⟩
      · split <;> rfl
      · split <;> simp [Loop.upcoming]
  | @exitPending t hl hlock =>
      refine ⟨hbegun, hbound, fun u hu hk => ?_⟩
      dsimp only at hu hk ⊢
      by_cases hut : u = t
      · -- the thread of run `k` finds the request
        subst hut
        obtain ⟨hr, hpend, hle⟩ := hpending u (by rw [hl]; rfl) hk
        refine ⟨hr, hpend, ?_⟩
        simp [hpend, Loop.upcoming, hbound]
      · rw [update_of_ne hut] at hu ⊢
        exact hpending u hu hk
  | @threadLoop t hl _ =>
      by_cases hkt : s.number t = k
      · obtain ⟨hr, hpend, hle⟩ := hpending t (by rw [hl]; rfl) hkt
        rw [hl] at hle
        have hnew :
            update s.starts (s.number t) (s.starts (s.number t) + 1) k = s.starts k + 1 := by
          rw [hkt, update_self]
        refine ⟨hbegun, Nat.le_trans (Nat.le_of_eq hnew) hle, fun u hu hk => ?_⟩
        dsimp only at hu hk ⊢
        have hut : u = t := by
          rw [isRun_update (q := .threadLoop) hl rfl] at hu
          exact hf.lone hu (by rw [hl]; rfl)
        subst hut
        rw [hnew, update_self]
        exact ⟨hr, hpend, hle⟩
      · have hsame : update s.starts (s.number t) (s.starts (s.number t) + 1) k = s.starts k :=
          update_of_ne (Ne.symm hkt) _ _
        refine ⟨hbegun, Nat.le_trans (Nat.le_of_eq hsame) hbound, ?_⟩
        simp only [hsame]
        exact hreq.move hl rfl (by simp [Loop.upcoming])
  | loopReturns hl _ _ => exact ⟨hbegun, hbound, hreq.move hl rfl (Nat.le_refl _)⟩
  | @lockExit t r hl hlock _ =>
      refine ⟨hbegun, hbound, fun u hu hk => ?_⟩
      dsimp only at hu hk ⊢
      by_cases hut : u = t
      · subst hut
        rw [update_self] at hu
        exact absurd hu (by simp [Loop.isRun])
      · rw [update_of_ne hut] at hu
        exact absurd (hf.lone hu (by rw [hl]; rfl)) hut
  | @lockStay t hl _ hpend =>
      refine ⟨hbegun, hbound, fun u hu hk => ?_⟩
      dsimp only at hu hk ⊢
      by_cases hut : u = t
      · subst hut
        have := (hpending u (by rw [hl]; rfl) hk).2.1
        rw [hpend] at this
        exact absurd this (by simp)
      · rw [update_of_ne hut] at hu ⊢
        exact hpending u hu hk
  | clearStrong hl => exact ⟨hbegun, hbound, hreq.move hl rfl (Nat.le_refl _)⟩
  | readCount hl _ =>
      refine ⟨hbegun, hbound, hreq.move hl ?_ ?_⟩
      · split <;> rfl
      · split <;> simp [Loop.upcoming]
  | compareCount hl => exact ⟨hbegun, hbound, hreq.move hl rfl (Nat.le_refl _)⟩
  | compareFails hl _ => exact ⟨hbegun, hbound, hreq.move hl rfl (Nat.le_refl _)⟩
  | assign hl => exact ⟨hbegun, hbound, hreq.move hl rfl (Nat.le_refl _)⟩
  | dropResult hl => exact ⟨hbegun, hbound, hreq.move hl rfl (Nat.le_refl _)⟩
  | unwind hl => exact ⟨hbegun, hbound, hreq.move hl rfl (Nat.le_refl _)⟩
  | _ => exact ⟨hbegun, hbound, hpending⟩

/-! ### The numbers of the runs -/

/-- The thread of a run has a number below `runs`, and has not started `threadLoop` before its first
test. -/
def Known (runs : ℕ) (starts : ℕ → ℕ) (n : ℕ) (l : Loop) : Prop :=
  (l.isRun = true → n < runs) ∧ (l.beforeTest = true → starts n = 0)

/-- The numbers of the runs: those to come have not started `threadLoop` at all. -/
structure Numbered (s : State Tid) : Prop where
  known : ∀ u, Known s.runs s.starts (s.number u) (s.loop u)
  future : ∀ k, s.runs ≤ k → s.starts k = 0

omit [DecidableEq Tid] in
theorem Loop.isRun_of_beforeTest {l : Loop} (h : l.beforeTest = true) : l.isRun = true := by
  cases l <;> simp_all [Loop.beforeTest, Loop.isRun]

/-- A thread goes on, and does not come back before its first test. -/
theorem Numbered.move {s : State Tid} (h : Numbered s) {t : Tid} {p q : Loop}
    (hp : s.loop t = p) (hq : q.isRun = true → p.isRun = true)
    (hb : q.beforeTest = true → p.beforeTest = true) :
    ∀ u, Known s.runs s.starts (s.number u) (update s.loop t q u) := by
  obtain ⟨hbegun, hzero⟩ := h.known t
  rw [hp] at hbegun hzero
  exact (forall_update_iff s.loop fun u l => Known s.runs s.starts (s.number u) l).2
    ⟨⟨fun hl => hbegun (hq hl), fun hl => hzero (hb hl)⟩, fun u _ => h.known u⟩

theorem numbered_step {s s' : State Tid} {a : Action Tid} {ph : Phase Tid} (h : Step s a s')
    (hf : Fits s ph) (hn : Numbered s) : Numbered s' := by
  have hlast := hn.future
  cases h with
  | @create t u hc hu _ _ =>
      constructor
      · intro v
        dsimp only
        by_cases hvu : v = u
        · subst hvu
          rw [update_self, update_self]
          exact ⟨fun _ => Nat.lt_succ_self _, fun _ => hlast _ (Nat.le_refl _)⟩
        · rw [update_of_ne hvu, update_of_ne hvu]
          exact ⟨fun hl => Nat.lt_succ_of_lt ((hn.known v).1 hl), (hn.known v).2⟩
      · intro k hk
        exact hlast k (Nat.le_of_succ_le hk)
  | @threadLoop t hl _ =>
      have hrun : (s.loop t).isRun = true := by rw [hl]; rfl
      constructor
      · intro u
        dsimp only
        refine ⟨(hn.move hl (q := .threadLoop) (fun _ => rfl) (by simp [Loop.beforeTest]) u).1, ?_⟩
        intro hb
        -- the thread that starts is past its first test, and there is no other one
        have hut : u ≠ t := by
          rintro rfl
          simp [Loop.beforeTest] at hb
        rw [update_of_ne hut] at hb
        exact absurd (hf.lone (Loop.isRun_of_beforeTest hb) hrun) hut
      · intro k hk
        have hkt : k ≠ s.number t := by
          rintro rfl
          exact absurd ((hn.known t).1 hrun) (Nat.not_lt.2 hk)
        dsimp only
        rw [update_of_ne hkt]
        exact hlast k hk
  | copyHold hl _ => exact ⟨hn.move hl (fun _ => rfl) fun _ => rfl, hlast⟩
  | copyNull hl _ => exact ⟨hn.move hl (fun _ => rfl) fun _ => rfl, hlast⟩
  | clearSelf hl _ => exact ⟨hn.move hl (fun _ => rfl) fun _ => rfl, hlast⟩
  | clearNull hl _ => exact ⟨hn.move hl (fun _ => rfl) fun _ => rfl, hlast⟩
  | nullSelf hl _ => exact ⟨hn.move hl (fun _ => rfl) fun _ => rfl, hlast⟩
  | readyToRun hl _ _ => exact ⟨hn.move hl (fun _ => rfl) fun _ => rfl, hlast⟩
  | exitPending hl _ => exact ⟨hn.move hl (fun _ => rfl) fun _ => rfl, hlast⟩
  | loopReturns hl _ _ =>
      exact ⟨hn.move hl (fun _ => rfl) (by simp [Loop.beforeTest]), hlast⟩
  | lockExit hl _ _ => exact ⟨hn.move hl (fun _ => rfl) (by simp [Loop.beforeTest]), hlast⟩
  | lockStay hl _ _ => exact ⟨hn.move hl (fun _ => rfl) (by simp [Loop.beforeTest]), hlast⟩
  | clearStrong hl => exact ⟨hn.move hl (fun _ => rfl) (by simp [Loop.beforeTest]), hlast⟩
  | readCount hl _ =>
      refine ⟨hn.move hl (fun _ => rfl) ?_, hlast⟩
      split <;> simp [Loop.beforeTest]
  | compareCount hl => exact ⟨hn.move hl (fun _ => rfl) (by simp [Loop.beforeTest]), hlast⟩
  | compareFails hl _ => exact ⟨hn.move hl (fun _ => rfl) (by simp [Loop.beforeTest]), hlast⟩
  | assign hl => exact ⟨hn.move hl (fun _ => rfl) (by simp [Loop.beforeTest]), hlast⟩
  | dropResult hl => exact ⟨hn.move hl (fun _ => rfl) (by simp [Loop.beforeTest]), hlast⟩
  | unwind hl =>
      exact ⟨hn.move hl (by simp [Loop.isRun]) (by simp [Loop.beforeTest]), hlast⟩
  | _ => exact ⟨hn.known, hlast⟩

theorem reachable_numbered {t : Tid} {s : State Tid} (h : (machine t).Reachable s) :
    Numbered s := by
  refine ((fits_invariant t).relative (I := Numbered) ?_ ?_).reachable h |>.2
  · rintro s rfl
    refine ⟨fun u => ⟨fun hl => ?_, fun hl => ?_⟩, fun _ _ => rfl⟩
    · exact absurd hl (by simp [start, Loop.isRun])
    · exact absurd hl (by simp [start, Loop.beforeTest])
  · rintro s a s' ⟨ph, hf⟩ hn hs
    exact numbered_step hs hf hn

/-! ### A request is heard -/

/-- `requestExit`, or the part of `requestExitAndWait` that sets the flag while something runs. -/
def Requests (a : Action Tid) : Prop :=
  (∃ t, a = .requestExit t) ∨ ∃ t, a = .requestExitAndWait t none

/-- A request is pending for the run in which it was made. -/
theorem requested_of_requests {N : ℕ} {s s' : State Tid} {a : Action Tid} {ph : Phase Tid} {u : Tid}
    (h : Step s a s') (ha : Requests a) (hf : Fits s ph) (hn : Numbered s)
    (hu : (s.loop u).isRun = true) (hN : s.starts (s.number u) + (s.loop u).upcoming ≤ N) :
    Requested (s.number u) N s' := by
  have hlone : ∀ v, (s.loop v).isRun = true → s.starts (s.number u) + (s.loop v).upcoming ≤ N := by
    intro v hv
    rw [hf.lone hv hu]
    exact hN
  have hbegun := (hn.known u).1 hu
  have hbound : s.starts (s.number u) ≤ N := Nat.le_trans (Nat.le_add_right _ _) hN
  rcases ha with ⟨t, rfl⟩ | ⟨t, rfl⟩
  · cases h with
    | requestExit _ hlock =>
        have hr := (hf.running_iff hlock).2 ⟨u, hu⟩
        exact ⟨hbegun, hbound, fun v hv _ => ⟨hr, rfl, hlone v hv⟩⟩
  · cases h with
    | exitWaits _ _ _ hr => exact ⟨hbegun, hbound, fun v hv _ => ⟨hr, rfl, hlone v hv⟩⟩

theorem requested_of_leads {creator : Tid} {k N : ℕ} {s s' : State Tid}
    (h : (machine creator).Reachable s) (hreq : Requested k N s)
    (hl : (machine creator).Leads s s') : Requested k N s' := by
  refine hl.keeps ?_ h hreq
  intro s a s' hs hk hstep
  obtain ⟨ph, hf⟩ := reachable_fits hs
  exact requested_step hstep hf hk

/-! ### Losing a request -/

/-- The bad state: a caller of `requestExitAndWait` waits, and the active run has no request
pending. -/
def LostRequest (s : State Tid) : Prop :=
  s.mRunning = true ∧ s.mExitPending = false ∧ ∃ u, (s.call u).exits = true

/-- The bad step: `run` gets past its test while a caller of `requestExitAndWait` has not
returned. -/
def RunsAhead (s : State Tid) (a : Action Tid) : Prop :=
  (∃ t, a = .run t none) ∧ ∃ u, (s.call u).exits = true

/-- While a caller of `requestExitAndWait` waits, an active run has a request pending. -/
def Kept (running pending : Bool) (call : Tid → Call Tid) : Prop :=
  running = true → (∃ u, (call u).exits = true) → pending = true

namespace Kept

variable {running pending : Bool} {call : Tid → Call Tid}

theorem exits_of_update {t : Tid} {p q : Call Tid} (hp : call t = p)
    (hq : q.exits = true → p.exits = true) (h : ∃ u, (update call t q u).exits = true) :
    ∃ u, (call u).exits = true := by
  obtain ⟨u, hu⟩ := h
  refine ⟨u, ?_⟩
  by_cases hut : u = t
  · subst hut
    rw [update_self] at hu
    rw [hp]
    exact hq hu
  · rwa [update_of_ne hut] at hu

/-- A thread moves, and does not become a waiting caller of `requestExitAndWait`. -/
theorem move (h : Kept running pending call) {t : Tid} {p q : Call Tid} (hp : call t = p)
    (hq : q.exits = true → p.exits = true) : Kept running pending (update call t q) := by
  intro hr hu
  exact h hr (exits_of_update hp hq hu)

omit [DecidableEq Tid] in
theorem of_stopped (pending : Bool) (call : Tid → Call Tid) : Kept false pending call := by
  intro hr
  exact absurd hr (by simp)

omit [DecidableEq Tid] in
theorem of_pending (running : Bool) (call : Tid → Call Tid) : Kept running true call := by
  intro _ _
  rfl

end Kept

theorem kept_step {s s' : State Tid} {a : Action Tid} (h : Step s a s') (ha : ¬ RunsAhead s a)
    (hk : Kept s.mRunning s.mExitPending s.call) :
    Kept s'.mRunning s'.mExitPending s'.call := by
  cases h with
  | @run t hmay _ _ =>
      intro _ hu
      exact absurd ⟨⟨t, rfl⟩, Kept.exits_of_update hmay.1.1 (by simp [Call.exits]) hu⟩ ha
  | create hc _ _ _ => exact hk.move hc (by simp [Call.exits])
  | createFails _ => exact .of_stopped _ _
  | clearHold hc _ => exact hk.move hc (by simp [Call.exits])
  | clearHoldNull hc _ => exact hk.move hc (by simp [Call.exits])
  | runDone hc => exact hk.move hc (by simp [Call.exits])
  | runFailed hc _ => exact hk.move hc (by simp [Call.exits])
  | requestExit _ _ => exact .of_pending _ _
  | exitWaits _ _ _ _ => exact .of_pending _ _
  | exitReturns _ _ _ hr =>
      intro hr'
      exact absurd hr' (by simp [hr])
  | joinWaits hmay _ _ _ => exact hk.move hmay.1.1 (by simp [Call.exits])
  | spurious hc => exact hk.move hc id
  | resumeWaits hc _ _ => exact hk.move hc id
  | resumeReturns _ _ hr =>
      intro hr'
      exact absurd hr' (by simp [hr])
  | lockExit _ _ _ => exact .of_stopped _ _
  | _ => exact hk

theorem lost_of_runsAhead {s s' : State Tid} {a : Action Tid} (h : Step s a s')
    (ha : RunsAhead s a) : LostRequest s' := by
  obtain ⟨⟨t, rfl⟩, u, hu⟩ := ha
  cases h with
  | run hmay _ _ =>
      refine ⟨rfl, rfl, u, ?_⟩
      have hut : u ≠ t := by
        rintro rfl
        rw [hmay.1.1] at hu
        exact absurd hu (by simp [Call.exits])
      dsimp only
      rwa [update_of_ne hut]

end CThread

open CThread

/-- **A request is heard.**  Once a `requestExit()`, or the part of `requestExitAndWait()` that sets
the flag, has completed while thread `u` works for the active run, that run starts `threadLoop()` at
most once more, whatever happens later; and not at all if the request came before the first test of
`exitPending()`. -/
theorem request_bounds_starts {Tid : Type} [DecidableEq Tid] (creator : Tid)
    {s s₁ s₂ : State Tid} {a : Action Tid} {u : Tid} (h : (machine creator).Reachable s)
    (ha : Requests a) (hstep : Step s a s₁) (hu : (s.loop u).isRun = true)
    (hlater : (machine creator).Leads s₁ s₂) :
    s₂.starts (s.number u) ≤ s₁.starts (s.number u) + 1 ∧
      ((s.loop u).beforeTest = true → s₂.starts (s.number u) = 0) := by
  obtain ⟨ph, hf⟩ := reachable_fits h
  have hn := reachable_numbered h
  have hs₁ : (machine creator).Reachable s₁ := h.step hstep
  have hsame : s₁.starts = s.starts := by
    rcases ha with ⟨t, rfl⟩ | ⟨t, rfl⟩
    · cases hstep; rfl
    · cases hstep; rfl
  constructor
  · have hle : s.starts (s.number u) + (s.loop u).upcoming ≤ s.starts (s.number u) + 1 :=
      Nat.add_le_add_left (s.loop u).upcoming_le _
    have hreq := requested_of_requests hstep ha hf hn hu hle
    rw [hsame]
    exact (requested_of_leads hs₁ hreq hlater).bound
  · intro hb
    have hzero : s.starts (s.number u) + (s.loop u).upcoming ≤ 0 := by
      rw [(hn.known u).2 hb]
      cases hl : s.loop u <;> simp_all [Loop.beforeTest, Loop.upcoming]
    have hreq := requested_of_requests hstep ha hf hn hu hzero
    exact Nat.le_zero.1 (requested_of_leads hs₁ hreq hlater).bound

/-- A request that comes between `run` and the first test of the thread it has created. -/
theorem request_bounds_starts_early : ∃ s s₁ : State ℕ, (machine 0).Reachable s ∧
    s.loop 1 = .entered ∧ Step s (.requestExit 0) s₁ ∧
      ∀ s₂, (machine 0).Leads s₁ s₂ → s₂.starts (s.number 1) = 0 := by
  obtain ⟨s, hs, hlock, -, -, hl, hmay⟩ := first_run
  refine ⟨s, _, hs, hl, .requestExit hmay hlock, fun s₂ h₂ => ?_⟩
  exact (request_bounds_starts 0 hs (.inl ⟨0, rfl⟩) (.requestExit hmay hlock) (u := 1)
    (by rw [hl]; rfl) h₂).2 (by rw [hl]; rfl)

/-- **When the request of a waiter is lost**: exactly if some `run` gets past its test of `mRunning`
while a caller of `requestExitAndWait` that has set the flag has not returned. -/
theorem request_lost_iff {Tid : Type} [DecidableEq Tid] (creator : Tid)
    {tr : List (State Tid × Action Tid)} {s : State Tid}
    (h : (machine creator).Run (start creator) tr s) :
    (∀ q ∈ Machine.visited tr s, ¬ LostRequest q) ↔ ∀ p ∈ tr, ¬ RunsAhead p.1 p.2 := by
  refine h.forall_visited_iff (C := fun s a => ¬ RunsAhead s a) ?_ ?_ rfl
  · intro s hs
    have hkept : Kept s.mRunning s.mExitPending s.call := by
      refine Machine.Invariant.reachable
        (I := fun s => Kept s.mRunning s.mExitPending s.call) ⟨?_, ?_⟩ hs
      · intro s hs
        obtain rfl : s = start creator := hs
        exact .of_stopped _ _
      · rintro s a s' hk ⟨hstep, ha⟩
        exact kept_step hstep ha hk
    rintro ⟨hr, hpend, hu⟩
    rw [hkept hr hu] at hpend
    exact absurd hpend (by simp)
  · intro s a s' _ hstep hC
    exact not_not.2 (lost_of_runsAhead hstep (not_not.1 hC))

namespace CThread

/-- Caller `2` waits for the run of thread `1`; when that has ended, caller `3` starts another run,
in thread `4`, before caller `2` has got hold of `mLock`. -/
theorem lost_run : ∃ tr s, (machine (0 : ℕ)).Run (start 0) tr s ∧ LostRequest s ∧
    s.mLock = none ∧ s.call 2 = .waiting true ∧
      tr.map Prod.snd = [.share 0 2, .share 0 3, .run 0 none, .create 0 (some 1),
        .runDone 0 .noError, .copyHold 1, .clearSelf 1, .nullSelf 1, .readyToRun 1 0,
        .exitPending 1 false, .threadLoop 1, .requestExitAndWait 2 none, .loopReturns 1 true,
        .lock 1, .run 3 none, .create 3 (some 4), .runDone 3 .noError, .resume 2 none] := by
  have h₀ : (machine (0 : ℕ)).Run (start 0) [] (start 0) := .nil
  have h₁ := h₀.snoc (Step.share (t := 0) (u := 2) ⟨⟨rfl, rfl, rfl⟩, by decide⟩)
  have h₂ := h₁.snoc (Step.share (t := 0) (u := 3) ⟨⟨rfl, rfl, rfl⟩, by decide⟩)
  have h₃ := h₂.snoc (Step.run (t := 0) ⟨⟨rfl, rfl, rfl⟩, by decide⟩ rfl rfl)
  have h₄ := h₃.snoc (Step.create (t := 0) (u := 1) rfl rfl rfl rfl)
  have h₅ := h₄.snoc (Step.runDone (t := 0) (u := 1) rfl)
  have h₆ := h₅.snoc (Step.copyHold (t := 1) rfl (by decide))
  have h₇ := h₆.snoc (Step.clearSelf (t := 1) rfl (by decide))
  have h₈ := h₇.snoc (Step.nullSelf (t := 1) rfl rfl)
  have h₉ := h₈.snoc (@Step.readyToRun _ _ _ 1 0 rfl rfl rfl)
  have h₁₀ := h₉.snoc (Step.exitPending (t := 1) rfl rfl)
  have h₁₁ := h₁₀.snoc (Step.threadLoop (t := 1) rfl rfl)
  have h₁₂ := h₁₁.snoc (Step.exitWaits (t := 2) ⟨⟨rfl, rfl, rfl⟩, by decide⟩ rfl (by decide) rfl)
  have h₁₃ := h₁₂.snoc (@Step.loopReturns _ _ _ 1 true rfl rfl rfl)
  have h₁₄ := h₁₃.snoc (@Step.lockExit _ _ _ 1 true rfl rfl (.inr rfl))
  have h₁₅ := h₁₄.snoc (Step.run (t := 3) ⟨⟨rfl, rfl, rfl⟩, by decide⟩ rfl rfl)
  have h₁₆ := h₁₅.snoc (Step.create (t := 3) (u := 4) rfl rfl rfl rfl)
  have h₁₇ := h₁₆.snoc (Step.runDone (t := 3) (u := 4) rfl)
  have h₁₈ := h₁₇.snoc (@Step.resumeWaits _ _ _ 2 true rfl rfl rfl)
  exact ⟨_, _, h₁₈, ⟨rfl, rfl, 2, rfl⟩, rfl, rfl, rfl⟩

end CThread

/-- In that run the bad step is taken. -/
theorem request_lost_iff_restarted : ∃ tr s, (machine (0 : ℕ)).Run (start 0) tr s ∧
    ∃ p ∈ tr, RunsAhead p.1 p.2 := by
  obtain ⟨tr, s, hrun, hlost, -⟩ := lost_run
  refine ⟨tr, s, hrun, ?_⟩
  by_contra hne
  have hall := (request_lost_iff 0 hrun).2 fun p hp ha => hne ⟨p, hp, ha⟩
  exact hall s (Machine.mem_visited tr s) hlost

/-- **A pending request can be lost**: caller `2` waits for a run that nobody has asked to end. -/
theorem request_is_lost : ∃ tr s, (machine (0 : ℕ)).Run (start 0) tr s ∧ LostRequest s ∧
    s.mLock = none ∧ s.call 2 = .waiting true ∧
      tr.map Prod.snd = [.share 0 2, .share 0 3, .run 0 none, .create 0 (some 1),
        .runDone 0 .noError, .copyHold 1, .clearSelf 1, .nullSelf 1, .readyToRun 1 0,
        .exitPending 1 false, .threadLoop 1, .requestExitAndWait 2 none, .loopReturns 1 true,
        .lock 1, .run 3 none, .create 3 (some 4), .runDone 3 .noError, .resume 2 none] :=
  lost_run

end VModule

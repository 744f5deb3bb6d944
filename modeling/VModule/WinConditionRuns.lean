/-
**When a broadcast completes.**

Over the machine of `VModule/WinCondition.lean`.  A broadcaster has released the semaphore once for
each thread that was counted, and waits until the counter is zero.  Threads that call `wait` in the
meantime are counted too, because the external mutex is not held.  If such a thread is there when
the last of those that were woken counts itself down, that one is not `lastWaiter`; nobody can take
the semaphore, nobody sets `waitersDone`, and the broadcaster keeps the internal mutex for ever.

Main definitions:

* `VModule.WinCondition.Owned` — who is inside owns the internal mutex;
* `VModule.WinCondition.Flagged` — `wasBroadcast` is set while a broadcaster waits.

Main results:

* `VModule.WinCondition.guarded_step` — the invariants;
* `VModule.WinCondition.not_stuck_step`, `VModule.WinCondition.stuck_of_late` — how the machine does
  not get stuck, and how it does;
* `VModule.WinCondition.stuck_step` — stuck once is stuck for ever;
* `VModule.broadcast_completes_iff` — **the runs in which no broadcast gets stuck**.
-/

import VModule.WinCondition

set_option relaxedAutoImplicit false
set_option autoImplicit false

namespace VModule

namespace WinCondition

open Function

variable {Tid : Type} [DecidableEq Tid]

/-! ### Releasing the semaphore -/

namespace Release

variable {pc pc' : Tid → Pc} {sema sema' n : ℕ}

/-- Releasing changes nothing but that sleeping threads wake up. -/
theorem pc_eq (h : Release pc sema n pc' sema') (t : Tid) :
    pc' t = pc t ∨ pc t = .blocked ∧ pc' t = .woken := by
  induction h with
  | nil => exact .inl rfl
  | @hand n pc' sema' u _ hu ih =>
      by_cases htu : t = u
      · subst htu
        right
        rw [update_self]
        rcases ih with ih | ih
        · exact ⟨ih.symm.trans hu, rfl⟩
        · exact ⟨ih.1, rfl⟩
      · rwa [update_of_ne htu]
  | keep _ _ ih => exact ih

theorem pc_of_ne (h : Release pc sema n pc' sema') {t : Tid} (ht : pc t ≠ .blocked) :
    pc' t = pc t :=
  (h.pc_eq t).resolve_right fun hb => ht hb.1

/-- Releasing at least once leaves a thread awake, or a permit. -/
theorem wakes (h : Release pc sema n pc' sema') (hn : 0 < n) :
    0 < sema' ∨ ∃ t, pc' t = .woken := by
  cases h with
  | nil => exact absurd hn (by simp)
  | @hand _ _ _ t _ _ => exact .inr ⟨t, update_self ..⟩
  | keep _ _ => exact .inl (Nat.succ_pos _)

end Release

/-! ### The internal mutex -/

/-- Who is inside owns the internal mutex. -/
def Owned (lock : Option Tid) (pc : Tid → Pc) : Prop :=
  ∀ t, (pc t).isInside = true → lock = some t

/-- `wasBroadcast` is set while a broadcaster waits. -/
def Flagged (wasBroadcast : Bool) (pc : Tid → Pc) : Prop :=
  ∀ t, pc t = .awaitDone → wasBroadcast = true

namespace Owned

variable {lock : Option Tid} {pc : Tid → Pc}

omit [DecidableEq Tid] in
/-- Only one thread is inside. -/
theorem eq (h : Owned lock pc) {t u : Tid} {p q : Pc} (ht : pc t = p) (hu : pc u = q)
    (hp : p.isInside = true) (hq : q.isInside = true) : t = u := by
  subst ht hu
  exact Option.some_inj.1 ((h t hp).symm.trans (h u hq))

/-- A thread goes on, and does not get inside. -/
theorem walk (h : Owned lock pc) {t : Tid} {p q : Pc} (hp : pc t = p)
    (hq : q.isInside = true → p.isInside = true) : Owned lock (update pc t q) := by
  refine (forall_update_iff pc fun u r => r.isInside = true → lock = some u).2
    ⟨?_, fun u _ => h u⟩
  intro hin
  exact h t (by rw [hp, hq hin])

/-- A thread takes the mutex. -/
theorem acquire (h : Owned none pc) (t : Tid) (q : Pc) : Owned (some t) (update pc t q) := by
  refine (forall_update_iff pc fun u r => r.isInside = true → some t = some u).2 ⟨fun _ => rfl, ?_⟩
  intro u _ hin
  exact absurd (h u hin) (by simp)

/-- The thread inside gives the mutex back. -/
theorem release (h : Owned lock pc) {t : Tid} {p q : Pc} (hp : pc t = p)
    (hin : p.isInside = true) (hout : q.isInside = false) : Owned none (update pc t q) := by
  refine (forall_update_iff pc fun u r => r.isInside = true → none = some u).2 ⟨?_, ?_⟩
  · intro hq
    rw [hout] at hq
    exact absurd hq (by simp)
  · intro u hut hu
    exact absurd (h.eq rfl hp hu hin) hut

/-- Threads wake up. -/
theorem wake (h : Owned lock pc) {pc' : Tid → Pc} {sema sema' n : ℕ}
    (hr : Release pc sema n pc' sema') : Owned lock pc' := by
  intro t ht
  rcases hr.pc_eq t with he | he
  · exact h t (by rwa [← he])
  · rw [he.2] at ht
    exact absurd ht (by decide)

end Owned

namespace Flagged

variable {wasBroadcast : Bool} {pc : Tid → Pc}

/-- A thread goes on, but not to wait for `waitersDone`. -/
theorem walk (h : Flagged wasBroadcast pc) {t : Tid} {q : Pc} (hq : q ≠ .awaitDone) :
    Flagged wasBroadcast (update pc t q) :=
  (forall_update_iff pc fun _ r => r = .awaitDone → wasBroadcast = true).2
    ⟨fun hawait => absurd hawait hq, fun u _ => h u⟩

theorem wake (h : Flagged wasBroadcast pc) {pc' : Tid → Pc} {sema sema' n : ℕ}
    (hr : Release pc sema n pc' sema') : Flagged wasBroadcast pc' := by
  intro t ht
  rcases hr.pc_eq t with he | he
  · exact h t (by rwa [← he])
  · rw [he.2] at ht
    exact absurd ht (by decide)

/-- The thread inside goes on, and no other can be waiting for `waitersDone`. -/
theorem of_alone {lock : Option Tid} (ho : Owned lock pc) {t : Tid} {p q : Pc} (hp : pc t = p)
    (hin : p.isInside = true) (hq : q ≠ .awaitDone) :
    Flagged wasBroadcast (update pc t q) := by
  refine (forall_update_iff pc fun _ r => r = .awaitDone → wasBroadcast = true).2
    ⟨fun hawait => absurd hawait hq, ?_⟩
  intro u hut hu
  exact absurd (ho.eq hu hp rfl hin) hut

end Flagged

/-- Both invariants. -/
def Guarded (s : State Tid) : Prop := Owned s.internalMutex s.pc ∧ Flagged s.wasBroadcast s.pc

/-- A thread goes on; if it is inside it was, and it does not wait for `waitersDone`. -/
theorem guarded_walk {lock : Option Tid} {wasBroadcast : Bool} {pc : Tid → Pc} {t : Tid} {p q : Pc}
    (hg : Owned lock pc ∧ Flagged wasBroadcast pc) (ht : pc t = p)
    (hq : q.isInside = true → p.isInside = true ∧ q ≠ .awaitDone) :
    Owned lock (update pc t q) ∧ Flagged wasBroadcast (update pc t q) := by
  refine ⟨hg.1.walk ht fun hin => (hq hin).1, hg.2.walk ?_⟩
  rintro rfl
  exact (hq rfl).2 rfl

theorem guarded_step {s s' : State Tid} {a : Action Tid} (h : Step s a s') (hg : Guarded s) :
    Guarded s' := by
  have ⟨ho, hf⟩ := hg
  cases h with
  | lock _ _ => exact hg
  | unlock _ _ => exact hg
  | enter ht _ => exact guarded_walk hg ht (by decide)
  | sleepTakes ht _ => exact guarded_walk hg ht (by decide)
  | sleepBlocks ht _ => exact guarded_walk hg ht (by decide)
  | countDownLast ht _ => exact guarded_walk hg ht (by decide)
  | countDown ht _ => exact guarded_walk hg ht (by decide)
  | setDone ht => exact guarded_walk hg ht (by decide)
  | lockInternal ht hlock =>
      rw [hlock] at ho
      exact ⟨ho.acquire _ _, hf.walk (by decide)⟩
  | unlockInternal ht => exact ⟨ho.release ht rfl rfl, hf.walk (by decide)⟩
  | lockExternal ht _ => exact guarded_walk hg ht (by decide)
  | lockSignal ht hlock =>
      rw [hlock] at ho
      exact ⟨ho.acquire _ _, hf.walk (by decide)⟩
  | readWaiters ht _ => exact guarded_walk hg ht (by decide)
  | readNone ht _ => exact guarded_walk hg ht (by decide)
  | releaseOne ht hr =>
      have ht' := (hr.pc_of_ne (by rw [ht]; decide)).trans ht
      exact guarded_walk ⟨ho.wake hr, hf.wake hr⟩ ht' (by decide)
  | lockBroadcast ht hlock =>
      rw [hlock] at ho
      exact ⟨ho.acquire _ _, hf.walk (by decide)⟩
  | releaseAll ht _ hr =>
      have ht' := (hr.pc_of_ne (by rw [ht]; decide)).trans ht
      exact ⟨(ho.wake hr).walk ht' (by decide), fun _ _ => rfl⟩
  | releaseNone ht _ => exact guarded_walk hg ht (by decide)
  | getDone ht _ => exact guarded_walk hg ht (by decide)
  | resetBroadcast ht =>
      exact ⟨ho.walk ht (by decide), .of_alone ho ht rfl (by decide)⟩
  | leave ht => exact ⟨ho.release ht rfl rfl, hf.walk (by decide)⟩

theorem guarded_invariant : (machine Tid).Invariant Guarded where
  init s hs := by
    obtain rfl : s = start := hs
    exact ⟨fun _ ht => Bool.noConfusion ht, fun _ ht => Pc.noConfusion ht⟩
  step _ _ _ hg hs := guarded_step hs hg

theorem reachable_guarded {s : State Tid} (h : (machine Tid).Reachable s) : Guarded s :=
  guarded_invariant.reachable h

/-! ### Getting stuck -/

section

variable {s s' : State Tid} {a : Action Tid}

/-- What a thread does that neither sleeps nor waits for `waitersDone` does not matter. -/
theorem stuck_walk {t : Tid} {p q : Pc} (hdone : s'.waitersDone = s.waitersDone)
    (hsema : s'.sema = s.sema) (hpc : s'.pc = update s.pc t q) (ht : s.pc t = p)
    (hpq : (p ≠ .awaitDone ∧ q ≠ .awaitDone) ∧ p.isAwake = false ∧ q.isAwake = false) :
    Stuck s' ↔ Stuck s := by
  have hb : (∃ b, s'.pc b = .awaitDone) ↔ ∃ b, s.pc b = .awaitDone := by
    refine exists_congr fun b => ?_
    rw [hpc]
    by_cases hbt : b = t
    · subst hbt
      simp [ht, hpq.1.1, hpq.1.2]
    · rw [update_of_ne hbt]
  have hw : (∀ u, (s'.pc u).isAwake = true → s'.pc u = .internal) ↔
      ∀ u, (s.pc u).isAwake = true → s.pc u = .internal := by
    refine forall_congr' fun u => ?_
    rw [hpc]
    by_cases hut : u = t
    · subst hut
      simp [ht, hpq.2.1, hpq.2.2]
    · rw [update_of_ne hut]
  constructor
  · intro h
    exact ⟨hb.1 h.broadcaster, hdone ▸ h.unset, hsema ▸ h.sema, hw.1 h.woken⟩
  · intro h
    exact ⟨hb.2 h.broadcaster, hdone ▸ h.unset, hsema ▸ h.sema, hw.2 h.woken⟩

theorem Stuck.walk (hs : Stuck s) {t : Tid} {p q : Pc} (hdone : s'.waitersDone = s.waitersDone)
    (hsema : s'.sema = s.sema) (hpc : s'.pc = update s.pc t q) (ht : s.pc t = p)
    (hpq : (p ≠ .awaitDone ∧ q ≠ .awaitDone) ∧ p.isAwake = false ∧ q.isAwake = false) :
    Stuck s' :=
  (stuck_walk hdone hsema hpc ht hpq).2 hs

theorem not_stuck_walk (hns : ¬ Stuck s) {t : Tid} {p q : Pc}
    (hdone : s'.waitersDone = s.waitersDone) (hsema : s'.sema = s.sema)
    (hpc : s'.pc = update s.pc t q) (ht : s.pc t = p)
    (hpq : (p ≠ .awaitDone ∧ q ≠ .awaitDone) ∧ p.isAwake = false ∧ q.isAwake = false) :
    ¬ Stuck s' :=
  fun h => hns ((stuck_walk hdone hsema hpc ht hpq).1 h)

omit [DecidableEq Tid] in
/-- A thread that is awake elsewhere than at the internal mutex will go on. -/
theorem not_stuck_of_awake {t : Tid} {q : Pc} (ht : s.pc t = q) (hq : q.isAwake = true)
    (hne : q ≠ .internal) : ¬ Stuck s := by
  intro h
  subst ht
  exact hne (h.woken t hq)

omit [DecidableEq Tid] in
/-- While a broadcaster waits, no other thread is inside. -/
theorem Guarded.alone (hg : Guarded s) (h : ∃ b, s.pc b = .awaitDone) {t : Tid}
    (ht : (s.pc t).isInside = true) : s.pc t = .awaitDone := by
  obtain ⟨b, hb⟩ := h
  rwa [← hg.1.eq hb rfl rfl ht]

/-- A step in time does not get the machine stuck. -/
theorem not_stuck_step (h : Step s a s') (hg : Guarded s) (hin : InTime s a) (hns : ¬ Stuck s) :
    ¬ Stuck s' := by
  -- a step from inside to elsewhere than `waitersDone` leaves no broadcaster there
  have halone : ∀ {t : Tid} {p q : Pc} {pc : Tid → Pc}, s.pc t = p → p.isInside = true →
      p ≠ .awaitDone ∧ q ≠ .awaitDone → (∀ b, pc b = .awaitDone → s.pc b = .awaitDone) →
      s'.pc = update pc t q → ¬ Stuck s' := by
    rintro t p q pc ht hin ⟨hne, hq⟩ hpc hs' hstuck
    obtain ⟨b, hb⟩ := hstuck.broadcaster
    rw [hs'] at hb
    by_cases hbt : b = t
    · subst hbt
      rw [update_self] at hb
      exact hq hb
    · rw [update_of_ne hbt] at hb
      exact hbt (hg.1.eq (hpc b hb) ht rfl hin)
  cases h with
  | lock _ _ => exact fun h => hns ⟨h.broadcaster, h.unset, h.sema, h.woken⟩
  | unlock _ _ => exact fun h => hns ⟨h.broadcaster, h.unset, h.sema, h.woken⟩
  | enter ht _ => exact not_stuck_walk hns rfl rfl rfl ht (by decide)
  | sleepTakes _ _ => exact not_stuck_of_awake (update_self ..) rfl (by decide)
  | sleepBlocks ht _ => exact not_stuck_walk hns rfl rfl rfl ht (by decide)
  | countDownLast _ _ => exact not_stuck_of_awake (update_self ..) rfl (by decide)
  | @countDown t ht hno =>
      rintro ⟨⟨b, hb⟩, hunset, hsema, hwoken⟩
      dsimp only at hb hunset hsema hwoken
      have hbt : b ≠ t := by
        rintro rfl
        rw [update_self] at hb
        exact absurd hb (by decide)
      rw [update_of_ne hbt] at hb
      have hone : s.waitersCount = 1 := by
        refine hin t rfl ⟨b, hb⟩ hunset hsema fun u hut => ?_
        have hu := hwoken u
        rw [update_of_ne hut] at hu
        refine ⟨fun he => ?_, fun he => ?_⟩
        · rw [he] at hu
          exact absurd (hu rfl) (by decide)
        · rw [he] at hu
          exact absurd (hu rfl) (by decide)
      exact hno ⟨hg.2 b hb, by omega⟩
  | setDone _ => exact fun h => absurd h.unset (by simp)
  | lockInternal _ _ => exact not_stuck_of_awake (update_self ..) rfl (by decide)
  | unlockInternal ht => exact halone ht rfl (by decide) (fun _ h => h) rfl
  | lockExternal ht _ => exact not_stuck_walk hns rfl rfl rfl ht (by decide)
  | lockSignal ht _ => exact not_stuck_walk hns rfl rfl rfl ht (by decide)
  | readWaiters ht _ => exact halone ht rfl (by decide) (fun _ h => h) rfl
  | readNone ht _ => exact halone ht rfl (by decide) (fun _ h => h) rfl
  | releaseOne ht hr =>
      refine halone ht rfl (by decide) (fun b hb => ?_) rfl
      exact (hr.pc_eq b).elim (fun he => he.symm.trans hb) fun he =>
        absurd (he.2.symm.trans hb) (by decide)
  | lockBroadcast ht _ => exact not_stuck_walk hns rfl rfl rfl ht (by decide)
  | @releaseAll t pc sema ht hpos hr =>
      -- somebody has been woken, or there is a permit
      intro hstuck
      rcases hr.wakes (by omega) with hsema | ⟨u, hu⟩
      · exact absurd hstuck.sema (Nat.pos_iff_ne_zero.1 hsema)
      · have hut : u ≠ t := by
          rintro rfl
          rw [hr.pc_of_ne (by rw [ht]; decide), ht] at hu
          exact absurd hu (by decide)
        have hu' : update pc t .awaitDone u = .woken := by rw [update_of_ne hut, hu]
        exact not_stuck_of_awake hu' rfl (by decide) hstuck
  | releaseNone ht _ => exact halone ht rfl (by decide) (fun _ h => h) rfl
  | @getDone t ht _ =>
      rintro ⟨⟨b, hb⟩, -, -, -⟩
      dsimp only at hb
      by_cases hbt : b = t
      · subst hbt
        rw [update_self] at hb
        exact absurd hb (by decide)
      · rw [update_of_ne hbt] at hb
        exact hbt (hg.1.eq hb ht rfl rfl)
  | resetBroadcast ht => exact halone ht rfl (by decide) (fun _ h => h) rfl
  | leave ht => exact halone ht rfl (by decide) (fun _ h => h) rfl

/-- Nothing gets stuck as long as every step is in time. -/
theorem intime_invariant :
    ((machine Tid).restrict InTime).Invariant fun s => Guarded s ∧ ¬ Stuck s := by
  refine (guarded_invariant.restrict InTime).relative ?_ ?_
  · intro s hs hstuck
    obtain rfl : s = start := hs
    obtain ⟨b, hb⟩ := hstuck.broadcaster
    exact absurd hb (by simp [start])
  · intro s a s' hg hns hs
    exact not_stuck_step hs.1 hg hs.2 hns

/-- **Stuck once is stuck for ever.** -/
theorem stuck_step (h : Step s a s') (hg : Guarded s) (hs : Stuck s) : Stuck s' := by
  -- who is inside is the broadcaster, who is awake waits for the mutex
  have hinside : ∀ {t : Tid} {p : Pc}, s.pc t = p → p.isInside = true → p = .awaitDone := by
    rintro t _ rfl ht
    exact hg.alone hs.broadcaster ht
  have hawake : ∀ {t : Tid} {p : Pc}, s.pc t = p → p.isAwake = true → p = .internal := by
    rintro t _ rfl ht
    exact hs.woken t ht
  have hlocked : s.internalMutex ≠ none := by
    obtain ⟨b, hb⟩ := hs.broadcaster
    rw [hg.1 b (by rw [hb]; rfl)]
    simp
  cases h with
  | lock _ _ => exact ⟨hs.broadcaster, hs.unset, hs.sema, hs.woken⟩
  | unlock _ _ => exact ⟨hs.broadcaster, hs.unset, hs.sema, hs.woken⟩
  | enter ht _ => exact hs.walk rfl rfl rfl ht (by decide)
  | sleepTakes _ hpos => exact absurd hs.sema (Nat.pos_iff_ne_zero.1 hpos)
  | sleepBlocks ht _ => exact hs.walk rfl rfl rfl ht (by decide)
  | countDownLast ht _ => exact absurd (hawake ht rfl) (by decide)
  | countDown ht _ => exact absurd (hawake ht rfl) (by decide)
  | setDone ht => exact absurd (hawake ht rfl) (by decide)
  | lockInternal _ hlock => exact absurd hlock hlocked
  | unlockInternal ht => exact absurd (hawake ht rfl) (by decide)
  | lockExternal ht _ => exact hs.walk rfl rfl rfl ht (by decide)
  | lockSignal _ hlock => exact absurd hlock hlocked
  | readWaiters ht _ => exact absurd (hinside ht rfl) (by decide)
  | readNone ht _ => exact absurd (hinside ht rfl) (by decide)
  | releaseOne ht _ => exact absurd (hinside ht rfl) (by decide)
  | lockBroadcast _ hlock => exact absurd hlock hlocked
  | releaseAll ht _ _ => exact absurd (hinside ht rfl) (by decide)
  | releaseNone ht _ => exact absurd (hinside ht rfl) (by decide)
  | getDone _ hdone => exact absurd (hs.unset.symm.trans hdone) (by simp)
  | resetBroadcast ht => exact absurd (hinside ht rfl) (by decide)
  | leave ht => exact absurd (hinside ht rfl) (by decide)

/-- **How the machine gets stuck**: the last thread awake counts itself down, and others are still
counted. -/
theorem stuck_of_late (h : Step s a s') (hg : Guarded s) (hlate : ¬ InTime s a) : Stuck s' := by
  simp only [InTime, not_forall] at hlate
  obtain ⟨t, rfl, ⟨b, hb⟩, hunset, hsema, hothers, hcount⟩ := hlate
  have hbt : ∀ {p : Pc}, s.pc t = p → p ≠ .awaitDone → b ≠ t := by
    rintro _ rfl hne rfl
    exact hne hb
  cases h with
  | countDownLast ht hlast => exact absurd (by omega) hcount
  | countDown ht _ =>
      refine ⟨⟨b, ?_⟩, hunset, hsema, fun u hu => ?_⟩
      · dsimp only
        rw [update_of_ne (hbt ht (by decide)), hb]
      · dsimp only at hu ⊢
        by_cases hut : u = t
        · rw [hut, update_self]
        · rw [update_of_ne hut] at hu ⊢
          have hout := hg.alone ⟨b, hb⟩ (t := u)
          obtain ⟨hwoken, hlast⟩ := hothers u hut
          cases hpc : s.pc u <;> simp_all [Pc.isAwake, Pc.isInside]

end

end WinCondition

open WinCondition

/-- **When a broadcast completes.**  A run is in no state in which a broadcast is stuck exactly if
the last thread awake, whenever it counts itself down for a broadcaster, finds the counter at one.
A broadcast that is stuck once is stuck in every later state. -/
theorem broadcast_completes_iff {Tid : Type} [DecidableEq Tid] {s₀ s : State Tid}
    {tr : List (State Tid × Action Tid)} (h₀ : (machine Tid).init s₀)
    (h : (machine Tid).Run s₀ tr s) :
    ((∀ q ∈ Machine.visited tr s, ¬ Stuck q) ↔ ∀ p ∈ tr, InTime p.1 p.2) ∧
    ∀ q ∈ Machine.visited tr s, Stuck q → ∀ q', (machine Tid).Leads q q' → Stuck q' := by
  constructor
  · refine h.forall_visited_iff (fun q hq => ?_) (fun q a q' hq hs hC hns => ?_) h₀
    · exact (intime_invariant.reachable hq).2
    · exact hns (stuck_of_late hs (reachable_guarded hq) hC)
  · intro q hq hstuck q' hq'
    have hreach := h.reachable_of_visited (.init h₀) q hq
    refine hq'.keeps (I := Stuck) (fun q a q' hr hs hstep => ?_) hreach hstuck
    exact stuck_step hstep (reachable_guarded hr) hs

/-- Thread 0 waits, and thread 1 broadcasts and gets `waitersDone`. -/
theorem broadcast_completes_iff_alone : ∃ (tr : List (State (Fin 2) × Action (Fin 2)))
    (s : State (Fin 2)), (machine (Fin 2)).Run start tr s ∧ s.pc 1 = .allDone ∧
      ∀ q ∈ Machine.visited tr s, ¬ Stuck q := by
  have h₁ := Machine.Run.nil.snoc (M := machine (Fin 2)) (Step.lock (s := start) (t := 0) rfl rfl)
  have h₂ := h₁.snoc (Step.enter (t := 0) rfl rfl)
  have h₃ := h₂.snoc (Step.sleepBlocks (t := 0) rfl rfl)
  have h₄ := h₃.snoc (Step.lockBroadcast (t := 1) rfl rfl)
  have h₅ := h₄.snoc (Step.releaseAll (t := 1) rfl (by decide) (.hand (t := 0) .nil rfl))
  have h₆ := h₅.snoc (Step.countDownLast (t := 0) rfl (by decide))
  have h₇ := h₆.snoc (Step.setDone (t := 0) rfl)
  have h₈ := h₇.snoc (Step.getDone (t := 1) rfl rfl)
  refine ⟨_, _, h₈, rfl, (broadcast_completes_iff rfl h₈).1.2 fun p hp t ht => ?_⟩
  simp only [List.nil_append, List.cons_append, List.mem_cons, List.not_mem_nil, or_false] at hp
  rcases hp with rfl | rfl | rfl | rfl | rfl | rfl | rfl | rfl
  case inr.inr.inr.inr.inr.inl => exact fun _ _ _ _ => rfl
  all_goals exact absurd ht (by simp)

/-- Thread 0 waits, 1 broadcasts, and 2 calls `wait` before 0 has counted itself down. -/
theorem broadcast_gets_stuck : ∃ s : State (Fin 3), (machine (Fin 3)).Reachable s ∧ Stuck s ∧
    s.pc 1 = .awaitDone ∧ s.pc 0 = .internal ∧ s.waitersCount = 1 := by
  have h₀ : (machine (Fin 3)).Reachable start := .init rfl
  have h₁ := h₀.step (Step.lock (t := 0) rfl rfl)
  have h₂ := h₁.step (Step.enter (t := 0) rfl rfl)
  have h₃ := h₂.step (Step.sleepBlocks (t := 0) rfl rfl)
  have h₄ := h₃.step (Step.lockBroadcast (t := 1) rfl rfl)
  have h₅ := h₄.step (Step.releaseAll (t := 1) rfl (by decide) (.hand (t := 0) .nil rfl))
  have h₆ := h₅.step (Step.lock (t := 2) rfl rfl)
  have h₇ := h₆.step (Step.enter (t := 2) rfl rfl)
  have h₈ := h₇.step (Step.countDown (t := 0) rfl (by decide))
  exact ⟨_, h₈, ⟨⟨1, rfl⟩, rfl, rfl, by decide⟩, rfl, rfl, rfl⟩

end VModule

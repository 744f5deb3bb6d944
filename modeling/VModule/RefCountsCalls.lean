/-
**Who calls `onLastStrongRef`.**

Over the machine of `VModule/RefCounts.lean`.  `decStrong` calls `onLastStrongRef` when it has found
`mStrong` at one, and then it has released the only strong reference: a bias, as
`VModule/RefCountsStrong.lean` calls it, is too far from one to look like it.

`attemptIncStrong` has a call of its own, for objects that outlive their strong references.  It
looks at `curCount`, which the loop for an object that never had a strong reference reads again
whenever its compare-and-swap fails.  If the object has got its first strong reference in the
meantime, the loop goes on with a small count, succeeds, and makes the call.

Main definitions:

* `VModule.RefCounts.Unraced` — the loop does not succeed with a small count.

Main results:

* `VModule.RefCounts.unneeded_step`, `VModule.RefCounts.lastStrong_step` — how a thread gets to a
  call;
* `VModule.onLastStrongRef_iff` — **when `onLastStrongRef` is called by a `decStrong` only**.
-/

import VModule.RefCountsStrong

set_option relaxedAutoImplicit false
set_option autoImplicit false

namespace VModule

namespace RefCounts

open Function

variable {Tid : Type}

/-- Will call `onLastStrongRef`. -/
def Pc.callsLast : Pc → Bool
  | lastStrong | unneeded => true
  | _ => false

/-- The loop for an object that never had a strong reference succeeds only while
`INITIAL_STRONG_VALUE` is there. -/
def Unraced (s : State Tid) (a : Action Tid) : Prop :=
  ∀ t c h, a = .go t → s.pc t = .promoteSwap c h → s.mStrong = c → initialStrongValue ≤ c

section

variable [DecidableEq Tid] {s s' : State Tid} {a : Action Tid} {t : Tid}

/-- A thread that is elsewhere than where somebody has gone was there before. -/
theorem of_update {pc : Tid → Pc} {u : Tid} {p q : Pc} (h : update pc u q t = p) (hne : q ≠ p) :
    pc t = p := by
  by_cases htu : t = u
  · subst htu
    rw [update_self] at h
    exact absurd h hne
  · rwa [update_of_ne htu] at h

/-- How a thread gets into the compensating branch of `attemptIncStrong`. -/
theorem unneeded_step (h : Step s a s') (ht : s'.pc t = .unneeded) :
    s.pc t = .unneeded ∨ ¬ Unraced s a := by
  cases h with
  | @promoteUnneeded u c hc hu heq hlt =>
      refine .inr fun hun => ?_
      have hle := hun u c hc rfl hu heq
      omega
  | _ => exact .inl (of_update ht (by simp))

/-- A race leads there. -/
theorem unneeded_of_race (h : Step s a s') (hrace : ¬ Unraced s a) :
    ∃ u, s'.pc u = .unneeded := by
  simp only [Unraced, not_forall] at hrace
  obtain ⟨u, c, hc, rfl, hu, heq, hlt⟩ := hrace
  cases h with
  | promoteUnneeded _ _ _ => exact ⟨u, update_self ..⟩
  | promoteSwap hu' heq' hno =>
      rw [hu] at hu'
      obtain rfl := Pc.promoteSwap.inj hu'
      exact absurd ⟨hc, by omega⟩ hno
  | promoteAgain hu' hne =>
      rw [hu] at hu'
      exact absurd (heq.trans (Pc.promoteSwap.inj hu')) hne
  | _ => simp_all

/-- How a thread gets to the call of `decStrong`. -/
theorem lastStrong_step (h : Step s a s') (ht : s'.pc t = .lastStrong) :
    s.pc t = .lastStrong ∨ s.pc t = .decStrong ∧ s.mStrong = 1 ∧ s'.strong = s.strong ∧
      s'.pc = update s.pc t .lastStrong := by
  cases h with
  | @decStrongLast u hu hone =>
      by_cases htu : t = u
      · subst htu
        exact .inr ⟨hu, hone, rfl, rfl⟩
      · left
        rwa [← update_of_ne htu .lastStrong s.pc]
  | _ => exact .inl (of_update ht (by simp))

omit [DecidableEq Tid] in
/-- A strong count of one is the count of one strong reference. -/
theorem Counted.of_one {ph : Phase} {mStrong : Int} {strong : ℕ} {acquired : Bool} {pc : Tid → Pc}
    (h : Counted ph mStrong strong acquired pc) (hfew : strongReferences strong pc < 2 ^ 28)
    (hone : mStrong = 1) : strongReferences strong pc = 1 := by
  have hcount := h.count
  cases ph <;> simp only [Phase.bias, initialStrongValue] at hcount <;> omega

/-- No thread is in the compensating branch as long as no step is a race. -/
theorem unraced_invariant : (((machine Tid).restrict Few).restrict Unraced).Invariant
    fun s => ∀ t, s.pc t ≠ .unneeded where
  init s h t := by
    obtain ⟨created, strong, weak, rfl⟩ := h
    simp [start]
  step s a s' hno hs t ht :=
    (unneeded_step hs.1.1 ht).elim (hno t) fun hrace => hrace hs.2

end

end RefCounts

open RefCounts

/-- **When `onLastStrongRef` is called by a `decStrong` only.**  Along a run, with fewer than
`2 ^ 28` references, no thread is about to call `onLastStrongRef` but one that is in `decStrong`,
exactly if the loop of `attemptIncStrong` for an object that never had a strong reference never
succeeds when `INITIAL_STRONG_VALUE` is gone.  And whatever has happened, the `decStrong` that is
about to call it has taken the number of strong references from one to zero. -/
theorem onLastStrongRef_iff {Tid : Type} [DecidableEq Tid] {s₀ s : State Tid}
    {tr : List (State Tid × Action Tid)} (h₀ : (machine Tid).init s₀)
    (h : ((machine Tid).restrict Few).Run s₀ tr s) :
    ((∀ q ∈ Machine.visited tr s, ∀ t, (q.pc t).callsLast = true → q.pc t = .lastStrong) ↔
      ∀ p ∈ tr, Unraced p.1 p.2) ∧
    ∀ q ∈ Machine.visited tr s, ∀ a q' t, ((machine Tid).restrict Few).step q a q' →
      q'.pc t = .lastStrong → q.pc t ≠ .lastStrong →
      q.pc t = .decStrong ∧ strongReferences q.strong q.pc = 1 ∧
        strongReferences q'.strong q'.pc = 0 := by
  constructor
  · refine Machine.Run.forall_visited_iff (M := (machine Tid).restrict Few) (fun q hq t ht => ?_)
      (fun q a q' _ hs hrace hq' => ?_) h₀ h
    · have hno := unraced_invariant.reachable hq t
      cases hpc : q.pc t <;> simp_all [Pc.callsLast]
    · obtain ⟨u, hu⟩ := unneeded_of_race hs.1 hrace
      have hlast := hq' u (by rw [hu]; rfl)
      rw [hu] at hlast
      exact absurd hlast (by simp)
  · intro q hq a q' t hs ht hne
    obtain ⟨ph, hc⟩ := counted_invariant.reachable (h.reachable_of_visited (.init h₀) q hq)
    obtain ⟨hpc, hone, hstrong, hpc'⟩ := (lastStrong_step hs.1 ht).resolve_left hne
    have hrefs := hc.of_one (hc.few_strong hs.2) hone
    have hupdate := hc.references_update (q := .lastStrong) hpc q.strong
    simp only [Pc.strongRefs] at hupdate
    rw [hstrong, hpc']
    exact ⟨hpc, hrefs, by omega⟩

/-- One thread makes the first strong reference alone, and releases it. -/
theorem onLastStrongRef_iff_alone : ∃ (tr : List (State (Fin 2) × Action (Fin 2)))
    (q q' : State (Fin 2)), ((machine (Fin 2)).restrict Few).Run (start false 0 1) tr q ∧
      tr.map Prod.snd = [.call 0, .go 0, .go 0, .go 0, .call 0] ∧
      ((machine (Fin 2)).restrict Few).step q (.go 0) q' ∧ q'.pc 0 = .lastStrong ∧
      strongReferences q.strong q.pc = 1 ∧ strongReferences q'.strong q'.pc = 0 ∧
      ∀ x ∈ Machine.visited (tr ++ [(q, .go 0)]) q', ∀ t,
        (x.pc t).callsLast = true → x.pc t = .lastStrong := by
  have call : ∀ {s : State (Fin 2)}, Unraced s (.call 0) := fun _ _ _ ha => by cases ha
  have go : ∀ {s : State (Fin 2)} {p : Pc}, s.pc 0 = p → (∀ c h, p ≠ .promoteSwap c h) →
      Unraced s (.go 0) := by
    rintro s p hp hne t c h ⟨⟩ hpc
    exact absurd (hp.symm.trans hpc) (hne c h)
  have h₀ : (machine (Fin 2)).init (start false 0 1) := ⟨_, _, _, rfl⟩
  have h₁ := Machine.Run.nil.snoc (M := (machine (Fin 2)).restrict Unraced)
    ⟨Step.callFirst (s := start false 0 1) (t := 0) rfl rfl rfl, call⟩
  have h₂ := h₁.snoc ⟨Step.incStrongWeak (t := 0) rfl, go rfl (by simp)⟩
  have h₃ := h₂.snoc ⟨Step.incStrongFirst (t := 0) rfl rfl, go rfl (by simp)⟩
  have h₄ := h₃.snoc ⟨Step.incStrongAdd (t := 0) rfl, go rfl (by simp)⟩
  have h₅ := h₄.snoc ⟨Step.callDecStrong (t := 0) rfl Nat.one_pos
    (Fin.forall_fin_two.2 ⟨by decide, by decide⟩), call⟩
  have h₆ := h₅.snoc ⟨Step.decStrongLast (t := 0) rfl rfl, go rfl (by simp)⟩
  obtain ⟨hrun, -⟩ := few_of_length h₀ h₅.of_restrict (by decide)
  have hfew := few_of_mWeak (a := .go (0 : Fin 2)) h₀ hrun (by decide)
  have h₇ := hrun.snoc ⟨Step.decStrongLast (t := 0) rfl rfl, hfew⟩
  have hrefs := (onLastStrongRef_iff h₀ hrun).2 _ (Machine.mem_visited _ _) (.go 0) _ 0
    ⟨Step.decStrongLast (t := 0) rfl rfl, hfew⟩ rfl (by simp)
  exact ⟨_, _, _, hrun, rfl, ⟨Step.decStrongLast (t := 0) rfl rfl, hfew⟩, rfl, hrefs.2.1,
    hrefs.2.2, (onLastStrongRef_iff h₀ h₇).1.2 h₆.forall_of_restrict⟩

/-- **A promotion calls `onLastStrongRef`.**  Thread 1 has read `INITIAL_STRONG_VALUE`; then thread
0 makes the first strong reference, and holds it; thread 1 fails, reads 1, and succeeds. -/
theorem promotion_calls_onLastStrongRef : ∃ (tr : List (State (Fin 2) × Action (Fin 2)))
    (s : State (Fin 2)), ((machine (Fin 2)).restrict Few).Run (start false 0 1) tr s ∧
      s.pc 1 = .unneeded ∧ s.pc 0 = .outside ∧ s.strong = 1 ∧ s.mStrong = 2 := by
  have h₀ : (machine (Fin 2)).init (start false 0 1) := ⟨_, _, _, rfl⟩
  have h₁ := Machine.Run.nil.snoc (M := machine (Fin 2))
    (Step.callAttemptStrong (s := start false 0 1) (t := 1) rfl (by decide))
  have h₂ := h₁.snoc (Step.attemptWeak (t := 1) rfl)
  have h₃ := h₂.snoc (Step.attemptNever (t := 1) rfl rfl (by decide))
  have h₄ := h₃.snoc (Step.callFirst (t := 0) rfl rfl rfl)
  have h₅ := h₄.snoc (Step.incStrongWeak (t := 0) rfl)
  have h₆ := h₅.snoc (Step.incStrongFirst (t := 0) rfl rfl)
  have h₇ := h₆.snoc (Step.incStrongAdd (t := 0) rfl)
  have h₈ := h₇.snoc (Step.promoteAgain (t := 1) rfl (by decide))
  have h₉ := h₈.snoc (Step.promoteRead (t := 1) rfl (by decide))
  have h₁₀ := h₉.snoc (Step.promoteUnneeded (t := 1) rfl rfl (by decide))
  obtain ⟨hrun, -⟩ := few_of_length h₀ h₁₀ (by decide)
  exact ⟨_, _, hrun, rfl, rfl, rfl, rfl⟩

end VModule

/-
**The references of a thread object.**

Over the machine of `VModule/Thread.lean`.  The strong count is the number of strong pointers: those
of the callers, `mHoldSelf`, and the local ones of `_threadLoop`.  The last one to go takes the
count to zero and with it the duty to delete the object, which nobody can revive then.
A thread in `_threadLoop` only works on the object while a pointer of its own, or `mHoldSelf`, keeps
it, and this is `VModule.thread_keeps_object`.

Main definitions:

* `VModule.CThread.Counts` — the count is the number of pointers;
* `VModule.CThread.Deletes` — deleting and having deleted come with a count of zero, once;
* `VModule.CThread.Callers` — who is in a public function holds a reference;
* `VModule.CThread.Referenced` — some strong pointer is left.

Main results:

* `VModule.CThread.counted_step`, `VModule.CThread.callers_step` — the invariants;
* `VModule.thread_keeps_object` — **no access after the end, and one end**.
-/

import VModule.Tally
import VModule.ThreadRuns

set_option relaxedAutoImplicit false
set_option autoImplicit false

namespace VModule

namespace CThread

open Function

variable {Tid : Type}

/-! ### The count is the number of pointers -/

/-- The strong reference of `mHoldSelf`. -/
def HoldSelf.refs : HoldSelf → ℕ
  | .held => 1
  | _ => 0

/-- The strong count is the number of strong pointers. -/
structure Counts (strong : ℕ) (loop : Tid → Loop) (held : Tid → ℕ) (hold : HoldSelf) : Prop where
  few : AlmostIdle .outside loop
  fewHeld : AlmostIdle 0 held
  count : strong = tally Loop.refs loop + tally id held + hold.refs

/-- Some strong pointer is left. -/
def Referenced (s : State Tid) : Prop :=
  (∃ t, s.held t ≠ 0 ∨ (s.loop t).refs ≠ 0) ∨ s.mHoldSelf = .held

namespace Counts

variable {strong strong' : ℕ} {loop : Tid → Loop} {held : Tid → ℕ} {hold hold' : HoldSelf}

/-- Only `mHoldSelf` gains or loses a reference. -/
theorem hold_move (h : Counts strong loop held hold)
    (hstrong : strong' + hold.refs = strong + hold'.refs) : Counts strong' loop held hold' := by
  have hcount := h.count
  refine ⟨h.few, h.fewHeld, ?_⟩
  omega

/-- **The count is positive as long as some pointer is left.** -/
theorem pos_iff (h : Counts strong loop held hold) :
    0 < strong ↔ (∃ t, held t ≠ 0 ∨ (loop t).refs ≠ 0) ∨ hold = .held := by
  have hcount := h.count
  constructor
  · intro hpos
    by_contra hno
    obtain ⟨hnone, hself⟩ := not_or.1 hno
    have hentry : ∀ t, held t = 0 ∧ (loop t).refs = 0 := by
      intro t
      have ht := not_exists.1 hnone t
      omega
    have hloop := (tally_eq_zero_iff h.few (w := Loop.refs) rfl).2 fun t => (hentry t).2
    have hheld := (tally_eq_zero_iff h.fewHeld (w := id) rfl).2 fun t => (hentry t).1
    have hrefs : hold.refs = 0 := by
      cases hs : hold <;> simp_all [HoldSelf.refs]
    omega
  · intro hsome
    rcases hsome with ⟨t, ht | ht⟩ | hself
    · have hle := le_tally h.fewHeld (w := id) rfl t
      simp only [id] at hle
      omega
    · have hle := le_tally h.few (w := Loop.refs) rfl t
      omega
    · subst hself
      simp only [HoldSelf.refs] at hcount
      omega

theorem pos_of_held (h : Counts strong loop held hold) {t : Tid} (ht : 0 < held t) :
    0 < strong :=
  h.pos_iff.2 (.inl ⟨t, by omega⟩)

theorem pos_of_refs (h : Counts strong loop held hold) {t : Tid} {p : Loop} (hp : loop t = p)
    (ht : 0 < p.refs) : 0 < strong := by
  rw [← hp] at ht
  exact h.pos_iff.2 (.inl ⟨t, by omega⟩)

theorem pos_of_hold (h : Counts strong loop held hold) (hself : hold = .held) : 0 < strong :=
  h.pos_iff.2 (.inr hself)

theorem pos_of_sum (h : Counts strong loop held hold) {t : Tid}
    (ht : 0 < held t + (loop t).refs) : 0 < strong :=
  h.pos_iff.2 (.inl ⟨t, by omega⟩)

variable [DecidableEq Tid]

/-- A thread in `_threadLoop` goes on; the count is brought in line with its pointers and with
`mHoldSelf`. -/
theorem loop_move (h : Counts strong loop held hold) {t : Tid} {p q : Loop} (hp : loop t = p)
    (hstrong : strong' + p.refs + hold.refs = strong + q.refs + hold'.refs) :
    Counts strong' (update loop t q) held hold' := by
  have hcount := h.count
  have htally := tally_update h.few (w := Loop.refs) rfl t q
  rw [hp] at htally
  refine ⟨h.few.update t q, h.fewHeld, ?_⟩
  omega

/-- A thread goes on in `_threadLoop` without touching a pointer. -/
theorem walk (h : Counts strong loop held hold) {t : Tid} {p q : Loop} (hp : loop t = p)
    (hq : q.refs = p.refs) : Counts strong (update loop t q) held hold :=
  h.loop_move hp (by rw [hq])

/-- The references a thread holds outside `_threadLoop` change. -/
theorem held_move (h : Counts strong loop held hold) {t : Tid} {n : ℕ}
    (hstrong : strong' + held t = strong + n) : Counts strong' loop (update held t n) hold := by
  have hcount := h.count
  have htally := tally_update h.fewHeld (w := id) rfl t n
  simp only [id] at htally
  refine ⟨h.few, h.fewHeld.update t n, ?_⟩
  omega

end Counts

/-! ### Who deletes the object -/

/-- While there is a reference nobody deletes the object and nobody has; after that it is one
thread, once. -/
structure Deletes (strong : ℕ) (deleting : Tid → Bool) (destroyed : ℕ) : Prop where
  few : AlmostIdle false deleting
  once : tally Bool.toNat deleting + destroyed = if strong = 0 then 1 else 0

namespace Deletes

variable {strong strong' : ℕ} {deleting : Tid → Bool} {destroyed : ℕ}

theorem once_of_pos (h : Deletes strong deleting destroyed) (hpos : 0 < strong) :
    tally Bool.toNat deleting + destroyed = 0 := by
  have honce := h.once
  rwa [if_neg (by omega)] at honce

/-- The count changes, but neither comes from zero nor gets there. -/
theorem positive (h : Deletes strong deleting destroyed) (hpos : 0 < strong)
    (hpos' : 0 < strong') : Deletes strong' deleting destroyed := by
  refine ⟨h.few, ?_⟩
  rw [if_neg (by omega)]
  exact h.once_of_pos hpos

/-- While there is a reference, nobody deletes the object and nobody has. -/
theorem of_pos (h : Deletes strong deleting destroyed) (hpos : 0 < strong) :
    destroyed = 0 ∧ ∀ t, deleting t = false := by
  have honce := h.once_of_pos hpos
  refine ⟨by omega, fun t => ?_⟩
  have hle := le_tally h.few (w := Bool.toNat) rfl t
  cases ht : deleting t with
  | false => rfl
  | true =>
      rw [ht] at hle
      simp only [Bool.toNat_true] at hle
      omega

variable [DecidableEq Tid]

/-- A reference goes, and with the last one comes the duty to delete. -/
theorem decStrong (h : Deletes strong deleting destroyed) (hpos : 0 < strong) (t : Tid) :
    Deletes (strong - 1) (if strong = 1 then update deleting t true else deleting) destroyed := by
  by_cases hlast : strong = 1
  · have hnone := (h.of_pos hpos).2 t
    have honce := h.once_of_pos hpos
    have htally := tally_update h.few (w := Bool.toNat) rfl t true
    rw [hnone] at htally
    simp only [Bool.toNat_false, Bool.toNat_true] at htally
    rw [if_pos hlast]
    refine ⟨h.few.update t true, ?_⟩
    rw [if_pos (by omega)]
    omega
  · rw [if_neg hlast]
    exact h.positive hpos (by omega)

theorem delete (h : Deletes strong deleting destroyed) {t : Tid} (ht : deleting t = true) :
    Deletes strong (update deleting t false) (destroyed + 1) := by
  have honce := h.once
  have htally := tally_update h.few (w := Bool.toNat) rfl t false
  rw [ht] at htally
  simp only [Bool.toNat_false, Bool.toNat_true] at htally
  refine ⟨h.few.update t false, ?_⟩
  omega

end Deletes

/-! ### Callers hold a reference -/

/-- A thread in a public function is in code of its own otherwise, and holds a reference. -/
def Callers (call : Tid → Call Tid) (loop : Tid → Loop) (held : Tid → ℕ) : Prop :=
  ∀ t, call t ≠ .outside → (loop t).user = true ∧ 0 < held t + (loop t).refs

namespace Callers

variable {call call' : Tid → Call Tid} {loop : Tid → Loop} {held : Tid → ℕ}

theorem outside (h : Callers call loop held) {t : Tid} {p : Loop} (hp : loop t = p)
    (hu : p.user = false) : call t = .outside := by
  by_contra ht
  have huser := (h t ht).1
  rw [hp, hu] at huser
  exact absurd huser (by decide)

variable [DecidableEq Tid]

/-- A thread that holds a reference enters a function. -/
theorem enter (h : Callers call loop held) {t : Tid} {q : Call Tid} (hu : (loop t).user = true)
    (hpos : 0 < held t + (loop t).refs) : Callers (update call t q) loop held :=
  (forall_update_iff call fun u c => c ≠ .outside → (loop u).user = true ∧
    0 < held u + (loop u).refs).2 ⟨fun _ => ⟨hu, hpos⟩, fun u _ => h u⟩

/-- A thread goes on in a function, or leaves it. -/
theorem stay (h : Callers call loop held) {t : Tid} {p q : Call Tid} (hp : call t = p)
    (hne : p ≠ .outside) : Callers (update call t q) loop held := by
  obtain ⟨hu, hpos⟩ := h t (by rw [hp]; exact hne)
  exact h.enter hu hpos

/-- A thread outside the public functions goes on in `_threadLoop`. -/
theorem loop_move (h : Callers call loop held) {t : Tid} {q : Loop} (ht : call t = .outside)
    (hcall : ∀ c, call' c ≠ .outside → call c ≠ .outside) :
    Callers call' (update loop t q) held := by
  intro u hu
  have hin := hcall u hu
  have hut : u ≠ t := by
    intro he
    exact hin (he ▸ ht)
  rw [update_of_ne hut]
  exact h u hin

theorem walk (h : Callers call loop held) {t : Tid} {p q : Loop} (hp : loop t = p)
    (hu : p.user = false) : Callers call (update loop t q) held :=
  h.loop_move (h.outside hp hu) fun _ => id

/-- Its references outside `_threadLoop` get more, or it is outside the public functions. -/
theorem held_move (h : Callers call loop held) {t : Tid} {n : ℕ}
    (ht : held t ≤ n ∨ call t = .outside) : Callers call loop (update held t n) := by
  refine (forall_update_iff held fun u m => call u ≠ .outside → (loop u).user = true ∧
    0 < m + (loop u).refs).2 ⟨?_, fun u _ => h u⟩
  intro hin
  obtain ⟨huser, hpos⟩ := h t hin
  refine ⟨huser, ?_⟩
  rcases ht with hle | hout
  · omega
  · exact absurd hout hin

end Callers

namespace Fits

variable {s : State Tid} {ph : Phase Tid}

/-- Whoever touches the object in `_threadLoop` has a pointer to it, or `mHoldSelf` is one. -/
theorem referenced (h : Fits s ph) {t : Tid} (ht : (s.loop t).touches = true) :
    Referenced s := by
  have hsound := h.sound t
  by_cases hl : s.loop t = .entered
  · exact .inr (h.hold_of_isRun hl rfl)
  · refine .inl ⟨t, .inr ?_⟩
    cases hp : s.loop t <;> simp_all [Loop.touches, Loop.refs, Loop.sound]

/-- Without a pointer to the object, `mHoldSelf` is null: whoever is in `mHoldSelf.clear()` has one
more. -/
theorem null (h : Fits s ph) (hcall : Callers s.call s.loop s.held) (hr : ¬ Referenced s) :
    s.mHoldSelf = .null := by
  have hself := h.hold
  have hheld : s.mHoldSelf ≠ .held := fun he => hr (.inr he)
  have hthread : ∀ u, (s.loop u).holdSelf ≠ .held → (s.loop u).holdSelf = .null := by
    intro u hu
    have hrefs : (s.loop u).refs = 0 := by
      by_contra hne
      exact hr (.inl ⟨u, .inr hne⟩)
    cases hp : s.loop u <;> simp_all [Loop.holdSelf, Loop.refs]
  rw [hself] at hheld ⊢
  cases ph with
  | idle => rfl
  | starting c => exact absurd rfl hheld
  | started c u => exact hthread u hheld
  | running u => exact hthread u hheld
  | failing c cleared =>
      cases cleared with
      | false => exact absurd rfl hheld
      | true =>
          -- the caller of `run` is still in it, with its reference
          have hstage := (h.stage c .cleared).2 ⟨rfl, rfl⟩
          have hin : s.call c ≠ .outside := by
            intro he
            rw [he] at hstage
            exact absurd hstage (by simp [Call.stage])
          have hpos := (hcall c hin).2
          exact absurd (.inl ⟨c, by omega⟩) hr

end Fits

/-! ### The steps keep the count -/

variable [DecidableEq Tid]

/-- **The count is kept**, and so is the duty to delete; a count of zero stays zero. -/
theorem counted_step {s s' : State Tid} {a : Action Tid} {ph : Phase Tid} (h : Step s a s')
    (hf : Fits s ph) (hc : Counts s.mStrong s.loop s.held s.mHoldSelf)
    (hd : Deletes s.mStrong s.deleting s.destroyed) :
    Counts s'.mStrong s'.loop s'.held s'.mHoldSelf ∧
      Deletes s'.mStrong s'.deleting s'.destroyed ∧ (0 < s'.mStrong → 0 < s.mStrong) := by
  cases h with
  | run hmay hlock hr =>
      obtain rfl := hf.idle hlock hr
      have hnull : s.mHoldSelf = .null := hf.hold
      have hpos := hc.pos_of_sum hmay.2
      exact ⟨hc.hold_move (by simp [hnull, HoldSelf.refs]),
        hd.positive hpos (by simp [hnull]), fun _ => hpos⟩
  | create _ hu _ _ => exact ⟨hc.walk hu rfl, hd, id⟩
  | @clearHold t hcall _ =>
      obtain rfl := hf.failed hcall
      have hheld : s.mHoldSelf = .held := hf.hold
      have hpos := hc.pos_of_hold hheld
      refine ⟨hc.hold_move ?_, hd.decStrong hpos t, fun _ => hpos⟩
      simp only [State.decStrong, hheld, HoldSelf.refs]
      omega
  | runFailed hcall _ =>
      obtain rfl := hf.cleared hcall
      have hself : s.mHoldSelf = .cleared := hf.hold
      exact ⟨hc.hold_move (by simp [hself, HoldSelf.refs]), hd, id⟩
  | @share t u hmay =>
      have hpos := hc.pos_of_sum hmay.2
      exact ⟨hc.held_move (by dsimp only; omega), hd.positive hpos (by simp), fun _ => hpos⟩
  | @drop t _ hheld =>
      have hpos := hc.pos_of_held hheld
      refine ⟨hc.held_move ?_, hd.decStrong hpos t, fun _ => hpos⟩
      simp only [State.decStrong]
      omega
  | delete ht => exact ⟨hc, hd.delete ht, id⟩
  | @copyHold t hl _ =>
      have hheld : s.mHoldSelf = .held := hf.hold_of_isRun hl rfl
      have hpos := hc.pos_of_hold hheld
      exact ⟨hc.loop_move hl (by simp [Loop.refs]), hd.positive hpos (by simp), fun _ => hpos⟩
  | copyNull hl _ => exact ⟨hc.walk hl rfl, hd, id⟩
  | @clearSelf t hl _ =>
      have hheld : s.mHoldSelf = .held := hf.hold_of_isRun hl rfl
      have hpos := hc.pos_of_hold hheld
      refine ⟨hc.loop_move hl ?_, hd.decStrong hpos t, fun _ => hpos⟩
      simp only [State.decStrong, hheld, HoldSelf.refs, Loop.refs]
      omega
  | clearNull hl _ => exact ⟨hc.walk hl rfl, hd, id⟩
  | @nullSelf t hl _ =>
      have hself : s.mHoldSelf = .cleared := hf.hold_of_isRun hl rfl
      exact ⟨hc.loop_move hl (by simp [hself, HoldSelf.refs, Loop.refs]), hd, id⟩
  | readyToRun hl _ _ =>
      refine ⟨hc.walk hl ?_, hd, id⟩
      split <;> rfl
  | exitPending hl _ =>
      refine ⟨hc.walk hl ?_, hd, id⟩
      split <;> rfl
  | threadLoop hl _ => exact ⟨hc.walk hl rfl, hd, id⟩
  | loopReturns hl _ _ => exact ⟨hc.walk hl rfl, hd, id⟩
  | lockExit hl _ _ => exact ⟨hc.walk hl rfl, hd, id⟩
  | lockStay hl _ _ => exact ⟨hc.walk hl rfl, hd, id⟩
  | @clearStrong t hl =>
      have hpos := hc.pos_of_refs hl (by decide)
      refine ⟨hc.loop_move hl ?_, hd.decStrong hpos t, fun _ => hpos⟩
      simp only [State.decStrong, Loop.refs]
      omega
  | readCount hl _ =>
      refine ⟨hc.walk hl ?_, hd, id⟩
      split <;> rfl
  | @compareCount t hl =>
      have hsound := hf.sound t
      rw [hl] at hsound
      have hpos : 0 < s.mStrong := Nat.pos_of_ne_zero (by simpa [Loop.sound] using hsound)
      exact ⟨hc.loop_move hl (by simp [Loop.refs]), hd.positive hpos (by simp), fun _ => hpos⟩
  | compareFails hl _ => exact ⟨hc.walk hl rfl, hd, id⟩
  | assign hl =>
      have hpos := hc.pos_of_refs hl (by decide)
      exact ⟨hc.loop_move hl (by simp [Loop.refs]), hd.positive hpos (by simp), fun _ => hpos⟩
  | @dropResult t hl =>
      have hpos := hc.pos_of_refs hl (by decide)
      refine ⟨hc.loop_move hl ?_, hd.decStrong hpos t, fun _ => hpos⟩
      simp only [State.decStrong, Loop.refs]
      omega
  | @unwind t hl =>
      have hpos := hc.pos_of_refs hl (by decide)
      refine ⟨hc.loop_move hl ?_, hd.decStrong hpos t, fun _ => hpos⟩
      simp only [State.decStrong, Loop.refs]
      omega
  | _ => exact ⟨hc, hd, id⟩

theorem callers_step {s s' : State Tid} {a : Action Tid} (h : Step s a s')
    (hc : Callers s.call s.loop s.held) : Callers s'.call s'.loop s'.held := by
  cases h with
  | run hmay _ _ => exact hc.enter hmay.1.2.2 hmay.2
  | @create t u hcall _ hu _ =>
      refine hc.loop_move hu fun c hout => ?_
      by_cases hct : c = t
      · subst hct
        rw [hcall]
        simp
      · simpa [update_of_ne hct] using hout
  | createFails hcall => exact hc.stay hcall (by simp)
  | clearHold hcall _ => exact hc.stay hcall (by simp)
  | clearHoldNull hcall _ => exact hc.stay hcall (by simp)
  | runDone hcall => exact hc.stay hcall (by simp)
  | runFailed hcall _ => exact hc.stay hcall (by simp)
  | exitWaits hmay _ _ _ => exact hc.enter hmay.1.2.2 hmay.2
  | joinWaits hmay _ _ _ => exact hc.enter hmay.1.2.2 hmay.2
  | spurious hcall => exact hc.stay hcall (by simp)
  | resumeWaits hcall _ _ => exact hc.stay hcall (by simp)
  | resumeReturns hcall _ _ => exact hc.stay hcall (by simp)
  | share hmay => exact hc.held_move (.inl (by omega))
  | drop huser _ => exact hc.held_move (.inr huser.1)
  | copyHold hl _ => exact hc.walk hl rfl
  | copyNull hl _ => exact hc.walk hl rfl
  | clearSelf hl _ => exact hc.walk hl rfl
  | clearNull hl _ => exact hc.walk hl rfl
  | nullSelf hl _ => exact hc.walk hl rfl
  | readyToRun _ hout _ => exact hc.loop_move hout fun _ => id
  | exitPending hl _ => exact hc.walk hl rfl
  | threadLoop hl _ => exact hc.walk hl rfl
  | loopReturns _ hout _ => exact hc.loop_move hout fun _ => id
  | lockExit hl _ _ =>
      refine hc.loop_move (hc.outside hl rfl) fun c hout he => hout ?_
      simp only [he, Call.notify]
  | lockStay hl _ _ => exact hc.walk hl rfl
  | clearStrong hl => exact hc.walk hl rfl
  | readCount hl _ => exact hc.walk hl rfl
  | compareCount hl => exact hc.walk hl rfl
  | compareFails hl _ => exact hc.walk hl rfl
  | assign hl => exact hc.walk hl rfl
  | dropResult hl => exact hc.walk hl rfl
  | unwind hl => exact hc.walk hl rfl
  | _ => exact hc

/-! ### Every run -/

theorem callers_start (t : Tid) : Callers (start t).call (start t).loop (start t).held := by
  intro u hu
  exact absurd rfl hu

theorem counts_start (t : Tid) :
    Counts (start t).mStrong (start t).loop (start t).held (start t).mHoldSelf := by
  have hfew : AlmostIdle Loop.outside fun _ : Tid => Loop.outside := AlmostIdle.const _
  have hfewHeld : AlmostIdle 0 fun _ : Tid => 0 := AlmostIdle.const _
  have hloop := (tally_eq_zero_iff hfew (w := Loop.refs) rfl).2 fun _ => rfl
  have hheld := (tally_eq_zero_iff hfewHeld (w := id) rfl).2 fun _ => rfl
  have hone := tally_update hfewHeld (w := id) rfl t 1
  simp only [id] at hheld hone
  refine ⟨hfew, hfewHeld.update t 1, ?_⟩
  simp only [start, HoldSelf.refs]
  omega

theorem deletes_start (t : Tid) :
    Deletes (start t).mStrong (start t).deleting (start t).destroyed := by
  have hfew : AlmostIdle false fun _ : Tid => false := AlmostIdle.const _
  refine ⟨hfew, ?_⟩
  have hnone := (tally_eq_zero_iff hfew (w := Bool.toNat) rfl).2 fun _ => rfl
  simpa [start] using hnone

/-- What keeps the count, and the count. -/
def Counted (s : State Tid) : Prop :=
  (∃ ph, Fits s ph) ∧ Callers s.call s.loop s.held ∧
    Counts s.mStrong s.loop s.held s.mHoldSelf ∧ Deletes s.mStrong s.deleting s.destroyed

theorem counted_invariant (t : Tid) : (machine t).Invariant Counted := by
  refine (fits_invariant t).relative ?_ ?_
  · intro s hs
    obtain rfl : s = start t := hs
    exact ⟨callers_start t, counts_start t, deletes_start t⟩
  · rintro s a s' ⟨ph, hf⟩ ⟨hcall, hc, hd⟩ hs
    obtain ⟨hc', hd', -⟩ := counted_step hs hf hc hd
    exact ⟨callers_step hs hcall, hc', hd'⟩

end CThread

open CThread

end VModule

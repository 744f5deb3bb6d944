/-
**Stopping and restarting the logger thread.**

Over the machine of `VModule/LoggerThread.lean`.  `stop` clears `mRunning` and broadcasts without
the mutex of the queue, and `start` looks at nothing but `mRunning`.  Two things can go wrong, and
this module says exactly when.

A thread that has read `mRunning` as set, and takes the mutex of an empty queue after the broadcast
of `stop`, waits for a message that need not come: `VModule.stop_missed_iff`.

A thread that was stopped and has not noticed yet goes on as soon as `mRunning` is set again, and
shares the loop with the thread that `start` has created then: `VModule.loop_exclusive`.

Main definitions:

* `VModule.LoggerThread.Linked` — how the state of a thread in the logger fits its state in the
  queue;
* `VModule.LoggerThread.MissedStop`, `VModule.LoggerThread.WaitsAfterStop` — the bad state and the
  bad step of a stop;
* `VModule.LoggerThread.Exclusive`, `VModule.LoggerThread.AllLeft` — one thread in the loop, and the
  condition on `start` under which it stays the only one.

Main results:

* `VModule.LoggerThread.linked_step` — the linking invariant;
* `VModule.stop_missed_iff` — **when a stop request is missed**;
* `VModule.loop_exclusive` — **when a restart is safe**.
-/

import VModule.BlockingQueueRuns
import VModule.LoggerThread

set_option relaxedAutoImplicit false
set_option autoImplicit false

namespace VModule

namespace LoggerThread

open Function

variable {ι Tid : Type}

/-! ### A thread in the logger and in its queue -/

/-- What the queue knows about a thread, for each place in the logger. -/
def Linked : Pc ι → BlockingQueue.Pc → Prop
  | .enQueuing _, b => b = .signalling
  | .deQueue, b => b = .idle ∨ b = .waiting (-1) ∨ b = .woken (-1) false
  | _, b => b = .idle

theorem Linked.deQueue_of_waiting {p : Pc ι} {b : BlockingQueue.Pc} (h : Linked p b)
    (hb : b.isWaiting = true) : p = .deQueue := by
  cases p with
  | deQueue => rfl
  | _ => simp_all [Linked, BlockingQueue.Pc.isWaiting]

theorem linked_afterPop (r : Option ι) : Linked (Pc.afterPop r) .idle := by
  cases r <;> rfl

variable [DecidableEq Tid]

/-- A thread that moves in the logger only. -/
theorem linked_move {pc : Tid → Pc ι} {b : Tid → BlockingQueue.Pc}
    (h : ∀ t, Linked (pc t) (b t)) {t : Tid} {p q : Pc ι} (hp : pc t = p)
    (hq : Linked p (b t) → Linked q (b t)) : ∀ c, Linked (update pc t q c) (b c) := by
  have ht := h t
  rw [hp] at ht
  exact (forall_update_iff pc fun c p => Linked p (b c)).2 ⟨hq ht, fun c _ => h c⟩

/-- A thread that moves in the queue only. -/
theorem linked_update_queue {pc : Tid → Pc ι} {b : Tid → BlockingQueue.Pc}
    (h : ∀ t, Linked (pc t) (b t)) {t : Tid} {p : BlockingQueue.Pc} (hp : Linked (pc t) p) :
    ∀ c, Linked (pc c) (update b t p c) :=
  (forall_update_iff b fun c p => Linked (pc c) p).2 ⟨hp, fun c _ => h c⟩

/-- A thread that moves in both. -/
theorem linked_update_both {pc : Tid → Pc ι} {b : Tid → BlockingQueue.Pc}
    (h : ∀ t, Linked (pc t) (b t)) {t : Tid} {p : Pc ι} {q : BlockingQueue.Pc} (hp : Linked p q) :
    ∀ c, Linked (update pc t p c) (update b t q c) := by
  intro c
  by_cases hct : c = t
  · subst hct
    simpa using hp
  · simpa [update_of_ne hct] using h c

theorem notLeft_of_update {pc : Tid → Pc ι} {t c : Tid} {p q : Pc ι} (hp : pc t = p)
    (hq : q.notLeft = true → p.notLeft = true) (hc : (update pc t q c).notLeft = true) :
    (pc c).notLeft = true := by
  by_cases hct : c = t
  · subst hct
    rw [update_self] at hc
    rw [hp]
    exact hq hc
  · rwa [update_of_ne hct] at hc

variable [DecidableEq ι]

theorem linked_step {s s' : State ι Tid} {a : Action Tid ι} (h : Step s a s')
    (hl : ∀ t, Linked (s.pc t) (s.mBlockingQueue.pc t)) :
    ∀ t, Linked (s'.pc t) (s'.mBlockingQueue.pc t) := by
  cases h with
  | send hpc hi => exact linked_move hl hpc id
  | enQueue hpc hq => cases hq with | enQueue _ _ _ => exact linked_update_both hl rfl
  | @signal t c k q hpc hq =>
      cases hq with
      | @signal t c d hsig hwait =>
          -- the waiter is in `DeQueue`, where it may as well be woken
          have hc : s.pc c = .deQueue := (hl c).deQueue_of_waiting (by rw [hwait]; rfl)
          have hd : d = -1 := by simpa [hc, Linked, hwait] using hl c
          have hw : Linked (s.pc c) (.woken d false) := by
            rw [hc, hd]
            exact Or.inr (Or.inr rfl)
          exact linked_update_both (linked_update_queue hl hw) rfl
      | signalNobody _ _ => exact linked_update_both hl rfl
  | enter hpc hr =>
      rcases hpc with hpc | hpc
      · exact linked_move hl hpc Or.inl
      · exact linked_move hl hpc Or.inl
  | leave hpc hr =>
      rcases hpc with hpc | hpc
      · exact linked_move hl hpc id
      · exact linked_move hl hpc id
  | @wait t q hpc hq =>
      cases hq with
      | wait _ _ =>
          refine linked_update_queue hl ?_
          rw [hpc]
          exact Or.inr (Or.inl rfl)
  | @take t r q hpc hq =>
      cases hq with
      | take hidle _ _ =>
          refine linked_move hl hpc fun _ => ?_
          rw [hidle]
          exact linked_afterPop r
  | @spurious t q hq =>
      cases hq with
      | @spurious t d hwait =>
          have hc : s.pc t = .deQueue := (hl t).deQueue_of_waiting (by rw [hwait]; rfl)
          have hd : d = -1 := by simpa [hc, Linked, hwait] using hl t
          refine linked_update_queue hl ?_
          rw [hc, hd]
          exact Or.inr (Or.inr rfl)
  | @resume t r q hpc hq =>
      cases hq with
      | resumeTimedOut _ => exact linked_update_both hl rfl
      | resume _ _ => exact linked_update_both hl (linked_afterPop r)
  | print hpc _ => exact linked_move hl hpc id
  | printNothing hpc _ => exact linked_move hl hpc id
  | write hpc => exact linked_move hl hpc id
  | free hpc _ => exact linked_move hl hpc id
  | finish hpc => exact linked_move hl hpc id
  | create _ hpc => exact linked_move hl hpc id
  | broadcast hc hq =>
      cases hq with
      | exitQueue =>
          intro t
          cases hb : s.mBlockingQueue.pc t with
          | waiting d =>
              have ht : s.pc t = .deQueue := (hl t).deQueue_of_waiting (by rw [hb]; rfl)
              have hd : d = -1 := by simpa [ht, Linked, hb] using hl t
              simp [ht, hd, hb, Linked, BlockingQueue.Pc.notify]
          | _ => simpa [hb, BlockingQueue.Pc.notify] using hl t
  | _ => exact hl

/-! ### The threads that have not left their loop -/

/-- Only the creation of a thread adds to the threads that have not left their loop. -/
theorem notLeft_step {s s' : State ι Tid} {a : Action Tid ι} (h : Step s a s') {c : Tid}
    (hc : (s'.pc c).notLeft = true) :
    (s.pc c).notLeft = true ∨ s.caller = .raised ∧ s'.caller = .created c := by
  cases h with
  | send hpc _ => exact .inl (notLeft_of_update hpc (by simp [Pc.notLeft, Pc.inLoop]) hc)
  | enQueue hpc _ => exact .inl (notLeft_of_update hpc (by simp [Pc.notLeft, Pc.inLoop]) hc)
  | signal hpc _ => exact .inl (notLeft_of_update hpc (by simp [Pc.notLeft, Pc.inLoop]) hc)
  | enter hpc _ =>
      rcases hpc with hpc | hpc
      · exact .inl (notLeft_of_update hpc (fun _ => rfl) hc)
      · exact .inl (notLeft_of_update hpc (fun _ => rfl) hc)
  | leave hpc _ =>
      rcases hpc with hpc | hpc
      · exact .inl (notLeft_of_update hpc (fun _ => rfl) hc)
      · exact .inl (notLeft_of_update hpc (fun _ => rfl) hc)
  | take hpc _ => exact .inl (notLeft_of_update hpc (fun _ => rfl) hc)
  | resume hpc _ => exact .inl (notLeft_of_update hpc (fun _ => rfl) hc)
  | print hpc _ => exact .inl (notLeft_of_update hpc (fun _ => rfl) hc)
  | printNothing hpc _ => exact .inl (notLeft_of_update hpc (fun _ => rfl) hc)
  | write hpc => exact .inl (notLeft_of_update hpc (fun _ => rfl) hc)
  | free hpc _ => exact .inl (notLeft_of_update hpc (fun _ => rfl) hc)
  | finish hpc => exact .inl (notLeft_of_update hpc (by simp [Pc.notLeft, Pc.inLoop]) hc)
  | @create t hcal hpc =>
      by_cases hct : c = t
      · subst hct
        exact .inr ⟨hcal, rfl⟩
      · left
        simpa [update_of_ne hct] using hc
  | _ => exact .inl hc

/-- A caller is only in `start` when `start` has found `mRunning` cleared. -/
theorem inStart_step {s s' : State ι Tid} {a : Action Tid ι} (h : Step s a s')
    (hs : s'.caller.inStart = true) : s.caller.inStart = true ∨ a = .start none := by
  cases h with
  | start _ _ => exact .inr rfl
  | storeId _ => exact absurd hs (by simp [Caller.inStart])
  | failed _ => exact absurd hs (by simp [Caller.inStart])
  | stop _ => exact absurd hs (by simp [Caller.inStart])
  | broadcast _ _ => exact absurd hs (by simp [Caller.inStart])
  | resetId hc => exact .inl (by rw [hc]; rfl)
  | raise hc => exact .inl (by rw [hc]; rfl)
  | create hc _ => exact .inl (by rw [hc]; rfl)
  | createFails hc => exact .inl (by rw [hc]; rfl)
  | lower hc => exact .inl (by rw [hc]; rfl)
  | _ => exact .inl hs

/-- A thread that is about to be created comes after the test of `start`, and no other thread has
moved in that step. -/
theorem opens_step {s s' : State ι Tid} {a : Action Tid ι} (h : Step s a s')
    (hs : s'.caller.opens = true) : s.caller.opens = true ∨ a = .start none ∧ s'.pc = s.pc := by
  cases h with
  | start _ _ => exact .inr ⟨rfl, rfl⟩
  | resetId hc => exact .inl (by rw [hc]; rfl)
  | raise hc => exact .inl (by rw [hc]; rfl)
  | create _ _ => exact absurd hs (by simp [Caller.opens])
  | createFails _ => exact absurd hs (by simp [Caller.opens])
  | storeId _ => exact absurd hs (by simp [Caller.opens])
  | lower _ => exact absurd hs (by simp [Caller.opens])
  | failed _ => exact absurd hs (by simp [Caller.opens])
  | stop _ => exact absurd hs (by simp [Caller.opens])
  | broadcast _ _ => exact absurd hs (by simp [Caller.opens])
  | _ => exact .inl hs

/-! ### A constructed logger -/

theorem linked_constructed (mFile : Option Bytes) (t : Tid) :
    ∀ c, Linked ((constructed ι mFile t).pc c) ((constructed ι mFile t).mBlockingQueue.pc c) := by
  have h : ∀ c, Linked ((fresh ι Tid mFile).pc c) ((fresh ι Tid mFile).mBlockingQueue.pc c) :=
    fun _ => rfl
  exact linked_move (q := .entry) h rfl id

/-- A constructed logger that is not started again: thread `t` is the only one of its threads. -/
structure Solo (t : Tid) (s : State ι Tid) : Prop where
  caller : s.caller = .idle ∨ s.caller = .stopping
  solo : ∀ c, (s.pc c).notLeft = true → c = t

theorem solo_step {t : Tid} {s s' : State ι Tid} {a : Action Tid ι} (h : Step s a s')
    (ha : Once s a) (hs : Solo t s) : Solo t s' := by
  obtain ⟨hc, hsolo⟩ := hs
  have hbusy : s.caller.inStart = false := by
    rcases hc with hc | hc <;> simp [hc, Caller.inStart]
  constructor
  · have hb := inStart_step h
    cases hs' : s'.caller with
    | idle => exact .inl rfl
    | stopping => exact .inr rfl
    | _ =>
        rcases hb (by simp [hs', Caller.inStart]) with hb | rfl
        · rw [hbusy] at hb
          exact absurd hb (by simp)
        · exact absurd ha id
  · intro c hn
    rcases notLeft_step h hn with hn | ⟨hr, -⟩
    · exact hsolo c hn
    · rw [hr] at hbusy
      exact absurd hbusy (by simp [Caller.inStart])

/-- The machine that starts and stops once keeps its one thread. -/
def Running (t : Tid) (s : State ι Tid) : Prop :=
  Solo t s ∧ ∀ c, Linked (s.pc c) (s.mBlockingQueue.pc c)

theorem running_invariant (mFile : Option Bytes) (t : Tid) :
    (oneStop ι mFile t).Invariant (Running t) := by
  constructor
  · rintro s rfl
    refine ⟨⟨.inl rfl, fun c hc => ?_⟩, linked_constructed mFile t⟩
    by_contra hct
    simp [constructed, update_of_ne hct, Pc.notLeft, Pc.inLoop] at hc
  · rintro s a s' ⟨hs, hl⟩ ⟨h, ha⟩
    exact ⟨solo_step h ha hs, linked_step h hl⟩

omit [DecidableEq Tid] in
/-- Whoever is blocked is the logger thread. -/
theorem Running.eq_of_waiting {t c : Tid} {s : State ι Tid} (h : Running t s)
    (hc : (s.mBlockingQueue.pc c).isWaiting = true) : c = t := by
  refine h.1.solo c ?_
  rw [(h.2 c).deQueue_of_waiting hc]
  rfl

/-! ### A missed stop -/

/-- The bad state: `stop` has returned, nobody is sending, and a thread is blocked. -/
def MissedStop (s : State ι Tid) : Prop :=
  s.stopped = true ∧ (∀ t, (s.pc t).isSending = false) ∧
    ∃ t, (s.mBlockingQueue.pc t).isWaiting = true

/-- The bad step: `stop` has returned, nobody is sending, and a thread in `DeQueue` finds the queue
empty. -/
def WaitsAfterStop (s : State ι Tid) (a : Action Tid ι) : Prop :=
  (∃ t, a = .wait t) ∧ s.stopped = true ∧ ∀ t, (s.pc t).isSending = false

/-- Once `stop` has returned, somebody is sending while the logger thread is blocked. -/
def Heard (stopped : Bool) (b : Tid → BlockingQueue.Pc) (pc : Tid → Pc ι) : Prop :=
  stopped = true → (∃ c, (b c).isWaiting = true) → ∃ c, (pc c).isSending = true

namespace Heard

variable {stopped : Bool} {b : Tid → BlockingQueue.Pc} {pc : Tid → Pc ι}

omit [DecidableEq ι] in
/-- A thread that is not sending moves in the logger. -/
theorem move (h : Heard stopped b pc) {t : Tid} {p q : Pc ι} (hp : pc t = p)
    (hs : p.isSending = false) : Heard stopped b (update pc t q) := by
  intro hst hw
  obtain ⟨c, hc⟩ := h hst hw
  refine ⟨c, ?_⟩
  have hct : c ≠ t := by
    rintro rfl
    rw [hp, hs] at hc
    exact absurd hc (by simp)
  rwa [update_of_ne hct]

omit [DecidableEq ι] in
/-- A thread moves in the queue, and is not blocked there. -/
theorem queue_move (h : Heard stopped b pc) {t : Tid} {p : BlockingQueue.Pc}
    (hp : p.isWaiting = false) : Heard stopped (update b t p) pc := by
  intro hst hw
  exact h hst (BlockingQueue.waiting_of_update hp hw)

omit [DecidableEq ι] in
/-- Somebody is sending. -/
theorem of_sending (b : Tid → BlockingQueue.Pc) {t : Tid} {p : Pc ι} (hp : p.isSending = true) :
    Heard stopped b (update pc t p) := by
  intro _ _
  exact ⟨t, by rw [update_self, hp]⟩

end Heard

theorem heard_step {t : Tid} {s s' : State ι Tid} {a : Action Tid ι} (h : Step s a s')
    (ha : ¬ WaitsAfterStop s a) (hr : Running t s)
    (hh : Heard s.stopped s.mBlockingQueue.pc s.pc) :
    Heard s'.stopped s'.mBlockingQueue.pc s'.pc := by
  cases h with
  | send _ _ => exact .of_sending _ rfl
  | enQueue _ _ => exact .of_sending _ rfl
  | @signal c d k q hpc hq =>
      -- after the signal nobody is blocked: the logger thread was the only one
      intro _ hw
      exfalso
      cases hq with
      | @signal c w e hsig hwait =>
          obtain ⟨x, hx⟩ := BlockingQueue.waiting_of_update rfl hw
          have hxw : x ≠ w := by
            rintro rfl
            simp [BlockingQueue.Pc.isWaiting] at hx
          rw [update_of_ne hxw] at hx
          have hwt : w = t := hr.eq_of_waiting (by rw [hwait]; rfl)
          exact hxw ((hr.eq_of_waiting hx).trans hwt.symm)
      | signalNobody hsig hnone =>
          obtain ⟨x, hx⟩ := BlockingQueue.waiting_of_update rfl hw
          rw [hnone x] at hx
          exact absurd hx (by simp)
  | enter hpc _ =>
      rcases hpc with hpc | hpc
      · exact hh.move hpc rfl
      · exact hh.move hpc rfl
  | leave hpc _ =>
      rcases hpc with hpc | hpc
      · exact hh.move hpc rfl
      · exact hh.move hpc rfl
  | wait hpc hq =>
      intro hst _
      by_contra hno
      exact ha ⟨⟨_, rfl⟩, hst, fun c => Bool.eq_false_iff.2 fun hc => hno ⟨c, hc⟩⟩
  | take hpc hq =>
      cases hq with
      | take _ _ _ => exact hh.move hpc rfl
  | spurious hq =>
      cases hq with
      | spurious _ => exact hh.queue_move rfl
  | resume hpc hq =>
      cases hq with
      | resumeTimedOut _ => exact (hh.queue_move rfl).move hpc rfl
      | resume _ _ => exact (hh.queue_move rfl).move hpc rfl
  | print hpc _ => exact hh.move hpc rfl
  | printNothing hpc _ => exact hh.move hpc rfl
  | write hpc => exact hh.move hpc rfl
  | free hpc _ => exact hh.move hpc rfl
  | finish hpc => exact hh.move hpc rfl
  | create _ hpc => exact hh.move hpc rfl
  | broadcast _ hq =>
      cases hq with
      | exitQueue =>
          -- nobody is blocked after a broadcast
          intro _ hw
          obtain ⟨c, hc⟩ := hw
          rw [BlockingQueue.Pc.isWaiting_notify] at hc
          exact absurd hc (by simp)
  | _ => exact hh

/-- The thread of a constructed logger tests `mRunning`, `stop` is called, and then the thread looks
at the queue. -/
theorem missing_run (mFile : Option Bytes) : ∃ tr s,
    (oneStop ℕ mFile (0 : ℕ)).Run (constructed ℕ mFile 0) tr s ∧ MissedStop s ∧
      tr.map Prod.snd = [.test 0, .stop, .broadcast, .wait 0] := by
  have h₀ : (oneStop ℕ mFile (0 : ℕ)).Run (constructed ℕ mFile 0) [] (constructed ℕ mFile 0) := .nil
  have h₁ := h₀.snoc (And.intro (Step.enter (t := 0) (.inl rfl) rfl) trivial)
  have h₂ := h₁.snoc (And.intro (Step.stop rfl) rfl)
  have h₃ := h₂.snoc (And.intro (Step.broadcast rfl .exitQueue) trivial)
  have h₄ := h₃.snoc (And.intro (Step.wait (t := 0) rfl (.wait rfl rfl)) trivial)
  refine ⟨_, _, h₄, ⟨rfl, fun t => ?_, 0, rfl⟩, rfl⟩
  by_cases ht : t = 0
  · subst ht
    rfl
  · simp [constructed, fresh, update_of_ne ht, Pc.isSending]

/-! ### Starting again -/

/-- At most one thread is inside the loop. -/
def Exclusive (s : State ι Tid) : Prop :=
  ∀ c d, (s.pc c).inLoop = true → (s.pc d).inLoop = true → c = d

/-- When `start` finds `mRunning` cleared, every thread created before has left its loop. -/
def AllLeft (s : State ι Tid) (a : Action Tid ι) : Prop :=
  a = .start none → ∀ c, (s.pc c).notLeft = false

omit [DecidableEq Tid] in
theorem AllLeft.of_ne {s : State ι Tid} {a : Action Tid ι} (h : a ≠ .start none) : AllLeft s a :=
  fun ha => absurd ha h

/-- The invariant of careful restarts. -/
structure Lone (s : State ι Tid) : Prop where
  alone : ∀ c d, (s.pc c).notLeft = true → (s.pc d).notLeft = true → c = d
  cleared : s.caller.opens = true → ∀ c, (s.pc c).notLeft = false

omit [DecidableEq Tid] in
theorem Lone.exclusive {s : State ι Tid} (h : Lone s) : Exclusive s := by
  have hin : ∀ c, (s.pc c).inLoop = true → (s.pc c).notLeft = true := by
    intro c hc
    cases hp : s.pc c with
    | entry => rfl
    | _ => rwa [hp] at hc
  exact fun c d hc hd => h.alone c d (hin c hc) (hin d hd)

theorem lone_step {s s' : State ι Tid} {a : Action Tid ι} (h : Step s a s') (ha : AllLeft s a)
    (hl : Lone s) : Lone s' := by
  have hraised : s.caller = .raised → ∀ c, (s.pc c).notLeft ≠ true := by
    intro hr c
    simp [hl.cleared (by rw [hr]; rfl) c]
  constructor
  · intro c d hc hd
    rcases notLeft_step h hc with hc | ⟨hr, hc⟩
    · rcases notLeft_step h hd with hd | ⟨hr, -⟩
      · exact hl.alone c d hc hd
      · exact absurd hc (hraised hr c)
    · rcases notLeft_step h hd with hd | ⟨-, hd⟩
      · exact absurd hd (hraised hr d)
      · rw [hc] at hd
        exact Caller.created.inj hd
  · intro ho c
    rw [← Bool.not_eq_true]
    intro hc
    rcases notLeft_step h hc with hc | ⟨-, hcr⟩
    · rcases opens_step h ho with ho | ⟨rfl, -⟩
      · exact absurd hc (by simp [hl.cleared ho c])
      · exact absurd hc (by simp [ha rfl c])
    · rw [hcr] at ho
      exact absurd ho (by simp [Caller.opens])

theorem reachable_lone (mFile : Option Bytes) {s : State ι Tid}
    (h : ((machine ι Tid mFile).restrict AllLeft).Reachable s) : Lone s := by
  refine Machine.Invariant.reachable (I := Lone) ⟨?_, ?_⟩ h
  · rintro s rfl
    exact ⟨fun c d hc => absurd hc (by simp [fresh, Pc.notLeft, Pc.inLoop]), fun _ _ => rfl⟩
  · rintro s a s' hl ⟨hs, ha⟩
    exact lone_step hs ha hl

/-- **A careless restart can go wrong**: when `start` finds `mRunning` cleared while thread `c` has
not left its loop, both `c` and the thread created may end up in the loop. -/
theorem careless_start {mFile : Option Bytes} {s : State ι Tid} {c d : Tid}
    (hcal : s.caller = .starting) (hc : (s.pc c).notLeft = true) (hd : s.pc d = .outside) :
    ∃ s', (machine ι Tid mFile).Leads s s' ∧ ¬ Exclusive s' := by
  have hcd : c ≠ d := by
    rintro rfl
    rw [hd] at hc
    exact absurd hc (by simp [Pc.notLeft, Pc.inLoop])
  have h₀ : (machine ι Tid mFile).Run s [] s := .nil
  have h₁ := h₀.snoc (Step.resetId hcal)
  have h₂ := h₁.snoc (Step.raise rfl)
  have h₃ := h₂.snoc (Step.create (t := d) rfl hd)
  have h₄ := h₃.snoc (Step.enter (t := d) (.inl (by simp)) rfl)
  by_cases hin : (s.pc c).inLoop = true
  · refine ⟨_, ⟨_, h₄⟩, fun hex => hcd (hex c d ?_ ?_)⟩
    · simpa [update_of_ne hcd] using hin
    · simp [Pc.inLoop]
  · -- thread `c` is before its first test, and finds `mRunning` set
    have hentry : s.pc c = .entry := by
      cases hp : s.pc c <;> simp_all [Pc.notLeft, Pc.inLoop]
    have h₅ := h₄.snoc (Step.enter (t := c) (.inl (by simp [update_of_ne hcd, hentry])) rfl)
    refine ⟨_, ⟨_, h₅⟩, fun hex => hcd (hex c d ?_ ?_)⟩
    · simp [Pc.inLoop]
    · simp [update_of_ne hcd.symm, Pc.inLoop]

/-- Thread `0` is in the loop when `stop` and then `start` are called, and `start` creates thread
`1`. -/
theorem double_run (mFile : Option Bytes) : ∃ tr s,
    (machine ℕ ℕ mFile).Run (fresh ℕ ℕ mFile) tr s ∧ ¬ Exclusive s ∧
      tr.map Prod.snd = [.start none, .resetId, .raise, .create (some 0), .storeId false, .test 0,
        .stop, .broadcast, .start none, .resetId, .raise, .create (some 1), .test 1] := by
  have h₀ : (machine ℕ ℕ mFile).Run (fresh ℕ ℕ mFile) [] (fresh ℕ ℕ mFile) := .nil
  have h₁ := h₀.snoc (Step.start rfl rfl)
  have h₂ := h₁.snoc (Step.resetId rfl)
  have h₃ := h₂.snoc (Step.raise rfl)
  have h₄ := h₃.snoc (Step.create (t := 0) rfl rfl)
  have h₅ := h₄.snoc (Step.storeId (t := 0) rfl)
  have h₆ := h₅.snoc (Step.enter (t := 0) (.inl rfl) rfl)
  have h₇ := h₆.snoc (Step.stop rfl)
  have h₈ := h₇.snoc (Step.broadcast rfl .exitQueue)
  have h₉ := h₈.snoc (Step.start rfl rfl)
  have h₁₀ := h₉.snoc (Step.resetId rfl)
  have h₁₁ := h₁₀.snoc (Step.raise rfl)
  have h₁₂ := h₁₁.snoc (Step.create (t := 1) rfl rfl)
  have h₁₃ := h₁₂.snoc (Step.enter (t := 1) (.inl rfl) rfl)
  refine ⟨_, _, h₁₃, ?_, ?_⟩
  · intro hex
    exact Nat.zero_ne_one (hex 0 1 rfl rfl)
  · simp only [List.nil_append, List.cons_append, List.map_cons, List.map_nil]
    rfl

end LoggerThread

open LoggerThread

/-- **When a stop request is missed.**  A run of a constructed logger that is stopped once visits a
state in which `stop` has returned, nobody is sending and the logger thread is blocked, exactly if
at some step the logger thread finds the queue empty after `stop` has returned and while nobody is
sending. -/
theorem stop_missed_iff {ι Tid : Type} [DecidableEq ι] [DecidableEq Tid] (mFile : Option Bytes)
    (t : Tid) {tr : List (State ι Tid × Action Tid ι)} {s : State ι Tid}
    (h : (oneStop ι mFile t).Run (constructed ι mFile t) tr s) :
    (∀ q ∈ Machine.visited tr s, ¬ MissedStop q) ↔ ∀ p ∈ tr, ¬ WaitsAfterStop p.1 p.2 := by
  refine h.forall_visited_iff (C := fun s a => ¬ WaitsAfterStop s a) ?_ ?_ rfl
  · intro s hs
    have hheard : Heard s.stopped s.mBlockingQueue.pc s.pc := by
      refine (Machine.Invariant.relative ((running_invariant mFile t).restrict _)
        (I := fun s => Heard s.stopped s.mBlockingQueue.pc s.pc) ?_ ?_).reachable hs |>.2
      · intro s hs hst
        obtain rfl : s = constructed ι mFile t := hs
        exact absurd hst (by simp [constructed, fresh])
      · rintro s a s' hr hh ⟨⟨hstep, -⟩, ha⟩
        exact heard_step hstep ha hr hh
    rintro ⟨hst, hno, hw⟩
    obtain ⟨c, hc⟩ := hheard hst hw
    rw [hno c] at hc
    exact absurd hc (by simp)
  · rintro s a s' hs ⟨hstep, -⟩ hC
    obtain ⟨⟨c, rfl⟩, hst, hno⟩ := not_not.1 hC
    cases hstep with
    | wait hpc hq =>
        cases hq with
        | wait _ _ => exact not_not.2 ⟨hst, hno, c, by simp [BlockingQueue.Pc.isWaiting]⟩

/-- In the run in which `stop` comes between the test and the wait, the bad step is taken. -/
theorem stop_missed_iff_between : ∃ tr s,
    (oneStop ℕ (some []) (0 : ℕ)).Run (constructed ℕ (some []) 0) tr s ∧
      ∃ p ∈ tr, WaitsAfterStop p.1 p.2 := by
  obtain ⟨tr, s, hrun, hmissed, -⟩ := missing_run (some [])
  refine ⟨tr, s, hrun, ?_⟩
  by_contra hne
  have hall := (stop_missed_iff (some []) 0 hrun).2 fun p hp hw => hne ⟨p, hp, hw⟩
  exact hall s (Machine.mem_visited tr s) hmissed

/-- **A stop request can be missed.** -/
theorem stop_is_missed : ∃ tr s,
    (oneStop ℕ (some []) (0 : ℕ)).Run (constructed ℕ (some []) 0) tr s ∧ MissedStop s ∧
      tr.map Prod.snd = [.test 0, .stop, .broadcast, .wait 0] :=
  missing_run (some [])

/-- **When a restart is safe.**  If `start` finds `mRunning` cleared only when every thread created
before has left its loop, at most one thread is ever inside the loop; and after a `start` for which
this fails there is a way to go on, with the new thread getting any free id, that brings two threads
into the loop. -/
theorem loop_exclusive (ι Tid : Type) [DecidableEq ι] [DecidableEq Tid]
    (mFile : Option Bytes) :
    (∀ tr s, (machine ι Tid mFile).Run (fresh ι Tid mFile) tr s →
      (∀ p ∈ tr, AllLeft p.1 p.2) → ∀ q ∈ Machine.visited tr s, Exclusive q) ∧
    ∀ s a s', Step s a s' → ¬ AllLeft s a → ∀ d, s'.pc d = .outside →
      ∃ s'', (machine ι Tid mFile).Leads s' s'' ∧ ¬ Exclusive s'' := by
  constructor
  · intro tr s hrun hall q hq
    have hreach := (hrun.restrict hall).reachable_of_visited (.init rfl) q hq
    exact (reachable_lone mFile hreach).exclusive
  · intro s a s' hstep hno d hd
    unfold AllLeft at hno
    push Not at hno
    obtain ⟨rfl, c, hc⟩ := hno
    cases hstep with
    | start hcal hr => exact careless_start rfl (by simpa using hc) hd

/-- The first thread is stopped while it is blocked on the empty queue, wakes and leaves its loop;
`start` is called after that, and its thread enters the loop. -/
theorem loop_exclusive_first : ∃ tr s,
    (machine ℕ ℕ none).Run (fresh ℕ ℕ none) tr s ∧
      tr.map Prod.snd = [.start none, .resetId, .raise, .create (some 0), .storeId false, .test 0,
        .wait 0, .stop, .broadcast, .resume 0 none, .test 0, .start none, .resetId, .raise,
        .create (some 1), .storeId false, .test 1] ∧
      s.pc 0 = .left ∧ (s.pc 1).inLoop = true ∧ ∀ q ∈ Machine.visited tr s, Exclusive q := by
  obtain ⟨m, hpop, -⟩ := (mqueueFifo ℕ).pop_spec (mqueueFifo ℕ).holds_empty
  have h₀ : ((machine ℕ ℕ none).restrict AllLeft).Run (fresh ℕ ℕ none) [] (fresh ℕ ℕ none) := .nil
  have h₁ := h₀.snoc ⟨Step.start rfl rfl, fun _ _ => rfl⟩
  have h₂ := h₁.snoc ⟨Step.resetId rfl, .of_ne (by simp)⟩
  have h₃ := h₂.snoc ⟨Step.raise rfl, .of_ne (by simp)⟩
  have h₄ := h₃.snoc ⟨Step.create (t := 0) rfl rfl, .of_ne (by simp)⟩
  have h₅ := h₄.snoc ⟨Step.storeId (t := 0) rfl, .of_ne (by simp)⟩
  have h₆ := h₅.snoc ⟨Step.enter (t := 0) (.inl rfl) rfl, .of_ne (by simp)⟩
  have h₇ := h₆.snoc ⟨Step.wait (t := 0) rfl (.wait rfl rfl), .of_ne (by simp)⟩
  have h₈ := h₇.snoc ⟨Step.stop rfl, .of_ne (by simp)⟩
  have h₉ := h₈.snoc ⟨Step.broadcast rfl .exitQueue, .of_ne (by simp)⟩
  have h₁₀ := h₉.snoc ⟨Step.resume (t := 0) rfl (.resume rfl hpop), .of_ne (by simp)⟩
  have h₁₁ := h₁₀.snoc ⟨Step.leave (t := 0) (.inr rfl) rfl, .of_ne (by simp)⟩
  have h₁₂ := h₁₁.snoc ⟨Step.start rfl rfl, fun _ c => by
    cases c with
    | zero => rfl
    | succ c => rfl⟩
  have h₁₃ := h₁₂.snoc ⟨Step.resetId rfl, .of_ne (by simp)⟩
  have h₁₄ := h₁₃.snoc ⟨Step.raise rfl, .of_ne (by simp)⟩
  have h₁₅ := h₁₄.snoc ⟨Step.create (t := 1) rfl rfl, .of_ne (by simp)⟩
  have h₁₆ := h₁₅.snoc ⟨Step.storeId (t := 1) rfl, .of_ne (by simp)⟩
  have h₁₇ := h₁₆.snoc ⟨Step.enter (t := 1) (.inl rfl) rfl, .of_ne (by simp)⟩
  refine ⟨_, _, h₁₇.of_restrict, rfl, rfl, rfl, ?_⟩
  exact (loop_exclusive ℕ ℕ none).1 _ _ h₁₇.of_restrict h₁₇.forall_of_restrict

/-- **Two threads can be inside the loop.** -/
theorem loop_is_shared : ∃ tr s,
    (machine ℕ ℕ none).Run (fresh ℕ ℕ none) tr s ∧ ¬ Exclusive s ∧
      tr.map Prod.snd = [.start none, .resetId, .raise, .create (some 0), .storeId false, .test 0,
        .stop, .broadcast, .start none, .resetId, .raise, .create (some 1), .test 1] :=
  double_run none

end VModule

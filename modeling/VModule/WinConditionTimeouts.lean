/-
**Waits with a time limit.**

`waitRelative` gives `SignalObjectAndWait` a time limit, and a thread whose time is over counts
itself down and returns -1 as if it had been woken.  It takes nothing from the semaphore, so a
permit that was released on its account stays there for a wait to come.  Over any run, the waits
that return `NO_ERROR` and the permits that are released are one to one, and nobody sleeps beside a
permit.

Any thread that sleeps may run out of time here; a wait without a limit is one that does not.

Main definitions:

* `VModule.WinCondition.Timed`, `VModule.WinCondition.TimedStep` — the program with time limits;
* `VModule.WinCondition.began`, `VModule.WinCondition.returnedOk`,
  `VModule.WinCondition.returnedError`, `VModule.WinCondition.released`,
  `VModule.WinCondition.ranOut` — what is counted in a run;
* `VModule.WinCondition.Books` — how the counts and the state belong together.

Main results:

* `VModule.WinCondition.Books.walk`, `VModule.WinCondition.Books.release` — what a thread does to
  the counts, and what a release does;
* `VModule.WinCondition.books_step` — every step keeps the books;
* `VModule.waits_accounted` — **each permit ends one wait**;
* `VModule.broadcast_wakes_all` — **a broadcast wakes everybody who sleeps**.
-/

import VModule.Tally
import VModule.WinConditionRuns

set_option relaxedAutoImplicit false
set_option autoImplicit false

namespace VModule

namespace WinCondition

open Function

variable {Tid : Type}

/-! ### The program -/

/-- The state, and for each thread whether its `res` is another than `WAIT_OBJECT_0`. -/
structure Timed (Tid : Type) where
  state : State Tid
  timedOut : Tid → Bool

/-- Where a thread is, and whether its time has run out. -/
def Timed.entries (s : Timed Tid) (t : Tid) : Pc × Bool := (s.state.pc t, s.timedOut t)

/-- What a thread does. -/
inductive TimedAction (Tid : Type) where
  | call (a : Action Tid)
  | timeOut (t : Tid)

section

variable [DecidableEq Tid]

/-- At the end of `wait`, its `res` is gone. -/
def forget (timedOut : Tid → Bool) : Action Tid → Tid → Bool
  | .lockExternal t => update timedOut t false
  | _ => timedOut

/-- One step. -/
inductive TimedStep : Timed Tid → TimedAction Tid → Timed Tid → Prop
  | call {s : Timed Tid} {a : Action Tid} {s' : State Tid} : Step s.state a s' →
      TimedStep s (.call a) ⟨s', forget s.timedOut a⟩
  -- `SignalObjectAndWait` returns `WAIT_TIMEOUT`
  | timeOut {s : Timed Tid} {t : Tid} : s.state.pc t = .blocked →
      TimedStep s (.timeOut t)
        ⟨{ s.state with pc := update s.state.pc t .woken }, update s.timedOut t true⟩

/-- After the constructor. -/
def startTimed : Timed Tid := ⟨start, fun _ => false⟩

/-- The program with time limits. -/
def timedMachine (Tid : Type) [DecidableEq Tid] : Machine (Timed Tid) (TimedAction Tid) where
  init s := s = startTimed
  step := TimedStep

end

/-! ### What is counted -/

/-- A call of `wait` or `waitRelative` begins. -/
def began (_ : Timed Tid) : TimedAction Tid → ℕ
  | .call (.enter _) => 1
  | _ => 0

/-- A call returns `NO_ERROR`. -/
def returnedOk (s : Timed Tid) : TimedAction Tid → ℕ
  | .call (.lockExternal t) => if s.timedOut t then 0 else 1
  | _ => 0

/-- A call returns -1. -/
def returnedError (s : Timed Tid) : TimedAction Tid → ℕ
  | .call (.lockExternal t) => if s.timedOut t then 1 else 0
  | _ => 0

/-- The semaphore is released, so many times. -/
def released (s : Timed Tid) : TimedAction Tid → ℕ
  | .call (.releaseOne _) => 1
  | .call (.releaseAll _) => s.state.waitersCount.toNat
  | _ => 0

/-- The time of a thread runs out. -/
def ranOut (_ : Timed Tid) : TimedAction Tid → ℕ
  | .timeOut _ => 1
  | _ => 0

namespace Pc

/-- Between counting itself and counting itself down. -/
def isCounted : Pc → Bool
  | entered | blocked | woken => true
  | _ => false

/-- In `wait`, and past the semaphore. -/
def isPast : Pc → Bool
  | woken | last | internal | holding | external => true
  | _ => false

/-- In `wait`. -/
def isWaiting : Pc → Bool
  | entered | blocked => true
  | p => p.isPast

end Pc

/-- What has been counted. -/
structure Counts where
  began : ℕ
  returnedOk : ℕ
  returnedError : ℕ
  released : ℕ
  ranOut : ℕ

/-- And a step more. -/
def Counts.after (c : Counts) (s : Timed Tid) (a : TimedAction Tid) : Counts where
  began := c.began + WinCondition.began s a
  returnedOk := c.returnedOk + WinCondition.returnedOk s a
  returnedError := c.returnedError + WinCondition.returnedError s a
  released := c.released + WinCondition.released s a
  ranOut := c.ranOut + WinCondition.ranOut s a

/-- One for an entry of a kind. -/
@[simp] def weight (P : Pc × Bool → Bool) (b : Pc × Bool) : ℕ := if P b then 1 else 0

/-- Counted. -/
@[simp] def isCounted (b : Pc × Bool) : Bool := b.1.isCounted

/-- In `wait`. -/
@[simp] def isWaiting (b : Pc × Bool) : Bool := b.1.isWaiting

/-- In `wait` with a permit, and going to return `NO_ERROR`. -/
@[simp] def hasPermit (b : Pc × Bool) : Bool := b.1.isPast && !b.2

/-- In `wait`, and going to return -1. -/
@[simp] def isLate (b : Pc × Bool) : Bool := b.1.isPast && b.2

/-- How the counts and the state belong together. -/
structure Books (e : Tid → Pc × Bool) (waitersCount : Int) (sema : ℕ) (c : Counts) : Prop where
  idle : AlmostIdle (.outside, false) e
  past : ∀ t, (e t).2 = true → (e t).1.isPast = true
  asleep : ∀ t, (e t).1 = .blocked → sema = 0
  count : waitersCount = tally (weight isCounted) e
  waits : c.returnedOk + c.returnedError + tally (weight isWaiting) e = c.began
  permits : c.returnedOk + tally (weight hasPermit) e + sema = c.released
  timeouts : c.returnedError + tally (weight isLate) e = c.ranOut

namespace Books

variable [DecidableEq Tid] {e : Tid → Pc × Bool} {waitersCount waitersCount' : Int}
  {sema sema' : ℕ} {c c' : Counts} {t : Tid} {p q : Pc × Bool}

/-- **A thread goes on**, and what it does is entered in the books. -/
theorem walk (h : Books e waitersCount sema c) (hp : e t = p)
    (hpast : q.2 = true → q.1.isPast = true) (hasleep : q.1 = .blocked → sema = 0)
    (hsema : sema' ≤ sema)
    (hcount : waitersCount' + weight isCounted p = waitersCount + weight isCounted q)
    (hwaits : c'.returnedOk + c'.returnedError + weight isWaiting q + c.began =
      c.returnedOk + c.returnedError + weight isWaiting p + c'.began)
    (hpermits : c'.returnedOk + weight hasPermit q + sema' + c.released =
      c.returnedOk + weight hasPermit p + sema + c'.released)
    (htimeouts : c'.returnedError + weight isLate q + c.ranOut =
      c.returnedError + weight isLate p + c'.ranOut) :
    Books (update e t q) waitersCount' sema' c' := by
  subst hp
  have hupdate := fun P hP => tally_update h.idle (w := weight P) hP t q
  have hcounted := hupdate isCounted rfl
  have hwaiting := hupdate isWaiting rfl
  have hpermit := hupdate hasPermit rfl
  have hlate := hupdate isLate rfl
  have hc := h.count
  have hw := h.waits
  have hm := h.permits
  have ht := h.timeouts
  refine ⟨h.idle.update t q, ?_, ?_, ?_, ?_, ?_, ?_⟩
  · exact (forall_update_iff e fun _ b => b.2 = true → b.1.isPast = true).2
      ⟨hpast, fun u _ => h.past u⟩
  · refine (forall_update_iff e fun _ b => b.1 = .blocked → sema' = 0).2 ⟨?_, fun u _ hu => ?_⟩
    · intro hq
      have := hasleep hq
      omega
    · have := h.asleep u hu
      omega
  · omega
  · omega
  · omega
  · omega

/-- A thread goes on, and there is nothing to enter. -/
theorem keep (h : Books e waitersCount sema c) (hp : e t = p) (hq : q.2 = p.2)
    (hawake : q.1 ≠ .blocked) (hcounted : q.1.isCounted = p.1.isCounted)
    (hpast : q.1.isPast = p.1.isPast) (hwaiting : q.1.isWaiting = p.1.isWaiting) :
    Books (update e t q) waitersCount sema c := by
  have hpermit : hasPermit q = hasPermit p := by rw [hasPermit, hasPermit, hpast, hq]
  have hlate : isLate q = isLate p := by rw [isLate, isLate, hpast, hq]
  refine h.walk hp ?_ (fun hb => absurd hb hawake) le_rfl ?_ ?_ ?_ ?_
  · rw [hq, hpast, ← hp]
    exact h.past t
  · rw [weight, weight, isCounted, isCounted, hcounted]
  · rw [weight, weight, isWaiting, isWaiting, hwaiting]
  · rw [weight, weight, hpermit]
  · rw [weight, weight, hlate]

omit [DecidableEq Tid] in
/-- A thread that is not past the semaphore has not run out of time. -/
theorem in_time (h : Books e waitersCount sema c) (ht : (e t).1.isPast = false) :
    (e t).2 = false := by
  rw [← Bool.not_eq_true]
  intro hlate
  rw [h.past t hlate] at ht
  exact Bool.noConfusion ht

/-- **The semaphore is released**: each permit goes to a thread that sleeps, or stays. -/
theorem release {pc pc' : Tid → Pc} {timedOut : Tid → Bool} {n : ℕ}
    (h : Books (fun u => (pc u, timedOut u)) waitersCount sema c)
    (hr : Release pc sema n pc' sema') :
    Books (fun u => (pc' u, timedOut u)) waitersCount sema'
      { c with released := c.released + n } := by
  induction hr with
  | nil => exact h
  | @hand n pc' sema' t _ ht ih =>
      have hlate : timedOut t = false := ih.in_time (t := t) (by rw [ht]; rfl)
      have hentries : (fun u => (update pc' t .woken u, timedOut u)) =
          update (fun u => (pc' u, timedOut u)) t (.woken, false) := by
        funext u
        by_cases hut : u = t
        · rw [hut, update_self, update_self, hlate]
        · rw [update_of_ne hut, update_of_ne hut]
      rw [hentries]
      refine ih.walk (p := (.blocked, false)) (by rw [ht, hlate]) ?_ ?_ le_rfl rfl rfl ?_ rfl
      · exact fun hb => Bool.noConfusion hb
      · exact fun hb => Pc.noConfusion hb
      · simp only [weight, hasPermit, Pc.isPast]
        simp
        omega
  | keep _ hnone ih =>
      refine ⟨ih.idle, ih.past, fun t ht => absurd ht (hnone t), ih.count, ih.waits, ?_,
        ih.timeouts⟩
      have := ih.permits
      dsimp only at this ⊢
      omega

end Books

/-! ### Who sleeps -/

section

/-- One for a thread that sleeps. -/
def sleeping (p : Pc) : ℕ := if p = .blocked then 1 else 0

/-- One for a thread that is counted, and does not sleep. -/
def wakeful (p : Pc) : ℕ := if p = .entered ∨ p = .woken then 1 else 0

/-- Who is counted sleeps or does not. -/
theorem weight_isCounted (b : Pc × Bool) : weight isCounted b = sleeping b.1 + wakeful b.1 := by
  obtain ⟨p, b⟩ := b
  cases p <;> rfl

variable [DecidableEq Tid] {pc pc' : Tid → Pc} {sema sema' n : ℕ}

/-- A permit wakes a thread or stays. -/
theorem Release.sleepers (hr : Release pc sema n pc' sema') (hidle : AlmostIdle .outside pc) :
    AlmostIdle .outside pc' ∧ tally sleeping pc' + n + sema = tally sleeping pc + sema' := by
  induction hr with
  | nil => exact ⟨hidle, rfl⟩
  | @hand n pc' sema' t _ ht ih =>
      obtain ⟨hidle', hcount⟩ := ih
      have hupdate := tally_update hidle' (w := sleeping) rfl t .woken
      have hone : sleeping (pc' t) = 1 := by rw [ht]; rfl
      have hzero : sleeping .woken = 0 := rfl
      refine ⟨hidle'.update t .woken, ?_⟩
      omega
  | keep _ _ ih =>
      obtain ⟨hidle', hcount⟩ := ih
      refine ⟨hidle', ?_⟩
      omega

/-- **Released as often as threads are counted**, the semaphore leaves nobody asleep. -/
theorem Books.wakesAll {timedOut : Tid → Bool} {waitersCount : Int} {c : Counts}
    (h : Books (fun u => (pc u, timedOut u)) waitersCount sema c)
    (hr : Release pc sema waitersCount.toNat pc' sema') :
    (∀ u, pc' u ≠ .blocked) ∧ sema' = sema + tally wakeful pc := by
  have hidle : AlmostIdle .outside pc := by
    refine Set.Finite.subset h.idle ?_
    intro u hu hout
    exact hu (congrArg Prod.fst hout)
  obtain ⟨hidle', hsleepers⟩ := hr.sleepers hidle
  have hcount : waitersCount = (tally sleeping pc + tally wakeful pc : ℕ) := by
    rw [h.count, ← tally_add hidle rfl rfl]
    exact congrArg _ (finsum_congr fun u => weight_isCounted (pc u, timedOut u))
  have hnone : tally sleeping pc' = 0 := by
    by_contra hpos
    obtain ⟨u, hu⟩ : ∃ u, sleeping (pc' u) ≠ 0 := by
      by_contra hall
      refine hpos ((tally_eq_zero_iff hidle' rfl).2 fun u => ?_)
      by_contra hu
      exact hall ⟨u, hu⟩
    have hblocked : pc' u = .blocked := by
      by_contra hne
      exact hu (if_neg hne)
    have hsema := (h.release hr).asleep u hblocked
    omega
  constructor
  · intro u hu
    have := (tally_eq_zero_iff hidle' rfl).1 hnone u
    rw [sleeping, if_pos hu] at this
    exact absurd this (by simp)
  · omega

end

/-! ### Every step is entered -/

section

variable [DecidableEq Tid]

/-- The books of a state. -/
def Timed.Kept (s : Timed Tid) (c : Counts) : Prop :=
  Books s.entries s.state.waitersCount s.state.sema c

theorem entries_update (pc : Tid → Pc) (r : Tid → Bool) (t : Tid) (q : Pc) :
    (fun u => (update pc t q u, r u)) = update (fun u => (pc u, r u)) t (q, r t) := by
  funext u
  by_cases hut : u = t
  · rw [hut, update_self, update_self]
  · rw [update_of_ne hut, update_of_ne hut]

theorem entries_update_both (pc : Tid → Pc) (r : Tid → Bool) (t : Tid) (q : Pc) (b : Bool) :
    (fun u => (update pc t q u, update r t b u)) = update (fun u => (pc u, r u)) t (q, b) := by
  funext u
  by_cases hut : u = t
  · rw [hut, update_self, update_self, update_self]
  · rw [update_of_ne hut, update_of_ne hut, update_of_ne hut]

namespace Timed.Kept

variable {s : Timed Tid} {c c' : Counts} {t : Tid} {p q : Pc}

/-- A thread goes on, with nothing to enter. -/
theorem keep (hb : s.Kept c) (hp : s.state.pc t = p) (hawake : q ≠ .blocked)
    (hkind : q.isCounted = p.isCounted ∧ q.isPast = p.isPast ∧ q.isWaiting = p.isWaiting) :
    Books (fun u => (update s.state.pc t q u, s.timedOut u)) s.state.waitersCount
      s.state.sema c := by
  obtain ⟨hcounted, hpast, hwaiting⟩ := hkind
  rw [entries_update]
  exact Books.keep hb (p := (p, s.timedOut t)) (by rw [← hp]) rfl hawake hcounted hpast
    hwaiting

omit [DecidableEq Tid] in
/-- A thread that is not past the semaphore has not run out of time. -/
theorem in_time (hb : s.Kept c) (hp : s.state.pc t = p) (hpast : p.isPast = false) :
    s.entries t = (p, false) := by
  have hlate : s.timedOut t = false := Books.in_time hb (t := t) (by rw [← hpast, ← hp]; rfl)
  rw [Timed.entries, hp, hlate]

/-- A thread that is not past the semaphore goes on. -/
theorem move {waitersCount : Int} {sema : ℕ} (hb : s.Kept c) (hp : s.state.pc t = p)
    (hpast : p.isPast = false) (hasleep : q = .blocked → s.state.sema = 0)
    (hsema : sema ≤ s.state.sema)
    (hcount : waitersCount + weight isCounted (p, false) =
      s.state.waitersCount + weight isCounted (q, false))
    (hwaits : c'.returnedOk + c'.returnedError + weight isWaiting (q, false) + c.began =
      c.returnedOk + c.returnedError + weight isWaiting (p, false) + c'.began)
    (hpermits : c'.returnedOk + weight hasPermit (q, false) + sema + c.released =
      c.returnedOk + weight hasPermit (p, false) + s.state.sema + c'.released)
    (htimeouts : c'.returnedError + c.ranOut = c.returnedError + c'.ranOut) :
    Books (fun u => (update s.state.pc t q u, s.timedOut u)) waitersCount sema c' := by
  have hentry := hb.in_time hp hpast
  have hlate : s.timedOut t = false := congrArg Prod.snd hentry
  rw [entries_update, hlate]
  refine Books.walk hb hentry (fun h => Bool.noConfusion h) hasleep hsema hcount hwaits
    hpermits ?_
  simpa using htimeouts

/-- A thread counts itself down. -/
theorem countDown (hb : s.Kept c) (hp : s.state.pc t = .woken)
    (hkind : q.isCounted = false ∧ q.isPast = true ∧ q.isWaiting = true) :
    Books (fun u => (update s.state.pc t q u, s.timedOut u)) (s.state.waitersCount - 1)
      s.state.sema c := by
  obtain ⟨hcounted, hpast, hwaiting⟩ := hkind
  rw [entries_update]
  refine Books.walk hb (p := (.woken, s.timedOut t)) (by rw [← hp]) (fun _ => hpast) ?_
    le_rfl ?_ ?_ ?_ ?_
  · intro hq
    dsimp only at hq
    rw [hq] at hpast
    exact Bool.noConfusion hpast
  · simp [hcounted, show Pc.woken.isCounted = true from rfl]
  · simp [hwaiting, show Pc.woken.isWaiting = true from rfl]
  · simp [hpast, show Pc.woken.isPast = true from rfl]
  · simp [hpast, show Pc.woken.isPast = true from rfl]

/-- A call of `wait` returns. -/
theorem giveBack (hb : s.Kept c) (hp : s.state.pc t = .external) :
    Books (fun u => (update s.state.pc t .outside u, update s.timedOut t false u))
      s.state.waitersCount s.state.sema (c.after s (.call (.lockExternal t))) := by
  rw [entries_update_both]
  have hentry : s.entries t = (.external, s.timedOut t) := by rw [← hp]; rfl
  cases hlate : s.timedOut t with
  | false =>
      rw [hlate] at hentry
      refine Books.walk hb hentry (fun h => Bool.noConfusion h) (fun h => Pc.noConfusion h) le_rfl
        rfl ?_ ?_ ?_
      · simp [Counts.after, returnedOk, returnedError, began, hlate, Pc.isWaiting, Pc.isPast]
        omega
      · simp [Counts.after, returnedOk, released, hlate, Pc.isPast]
      · simp [Counts.after, returnedError, ranOut, hlate, Pc.isPast]
  | true =>
      rw [hlate] at hentry
      refine Books.walk hb hentry (fun h => Bool.noConfusion h) (fun h => Pc.noConfusion h) le_rfl
        rfl ?_ ?_ ?_
      · simp [Counts.after, returnedOk, returnedError, began, hlate, Pc.isWaiting, Pc.isPast]
        omega
      · simp [Counts.after, returnedOk, released, hlate, Pc.isPast]
      · simp [Counts.after, returnedError, ranOut, hlate, Pc.isPast]

/-- The semaphore is released by a thread that does not sleep, and goes on. -/
theorem releaseAndGo {pc : Tid → Pc} {sema n : ℕ} (hb : s.Kept c)
    (hr : Release s.state.pc s.state.sema n pc sema) (hp : s.state.pc t = p)
    (hasleep : p ≠ .blocked) (hawake : q ≠ .blocked)
    (hkind : q.isCounted = p.isCounted ∧ q.isPast = p.isPast ∧ q.isWaiting = p.isWaiting) :
    Books (fun u => (update pc t q u, s.timedOut u)) s.state.waitersCount sema
      { c with released := c.released + n } := by
  have hpc : pc t = p := by rw [hr.pc_of_ne (by rw [hp]; exact hasleep), hp]
  have hbooks : Books (fun u => (pc u, s.timedOut u)) s.state.waitersCount sema
      { c with released := c.released + n } := Books.release hb hr
  let s' : Timed Tid := ⟨{ s.state with pc := pc, sema := sema }, s.timedOut⟩
  exact Timed.Kept.keep (s := s') hbooks hpc hawake hkind

end Timed.Kept

/-- **Every step keeps the books.** -/
theorem books_step {s s' : Timed Tid} {a : TimedAction Tid} {c : Counts} (h : TimedStep s a s')
    (hb : s.Kept c) : s'.Kept (c.after s a) := by
  cases h with
  | @timeOut t ht =>
      show Books (fun u => (update s.state.pc t .woken u, update s.timedOut t true u)) _ _ _
      rw [entries_update_both]
      refine Books.walk hb (hb.in_time ht rfl) (fun _ => rfl) (fun hq => Pc.noConfusion hq)
        le_rfl rfl rfl rfl ?_
      simp [Counts.after, ranOut, returnedError, Pc.isPast]
      omega
  | @call a s' hs =>
      cases hs with
      | lock _ _ => exact hb
      | unlock _ _ => exact hb
      | enter ht _ =>
          refine hb.move ht rfl (fun hq => Pc.noConfusion hq) le_rfl ?_ ?_ rfl rfl
          · simp [Pc.isCounted]
          · simp [Counts.after, began, returnedOk, returnedError, Pc.isWaiting, Pc.isPast]
            omega
      | sleepTakes ht hpos =>
          refine hb.move ht rfl (fun hq => Pc.noConfusion hq) (Nat.sub_le _ _) rfl rfl ?_ rfl
          simp [Counts.after, returnedOk, released, Pc.isPast]
          omega
      | sleepBlocks ht hzero => exact hb.move ht rfl (fun _ => hzero) le_rfl rfl rfl rfl rfl
      | countDownLast ht _ => exact hb.countDown ht (by decide)
      | countDown ht _ => exact hb.countDown ht (by decide)
      | setDone ht => exact hb.keep ht (by decide) (by decide)
      | lockInternal ht _ => exact hb.keep ht (by decide) (by decide)
      | unlockInternal ht => exact hb.keep ht (by decide) (by decide)
      | lockExternal ht _ => exact hb.giveBack ht
      | lockSignal ht _ => exact hb.keep ht (by decide) (by decide)
      | readWaiters ht _ => exact hb.keep ht (by decide) (by decide)
      | readNone ht _ => exact hb.keep ht (by decide) (by decide)
      | releaseOne ht hr => exact hb.releaseAndGo hr ht (by decide) (by decide) (by decide)
      | lockBroadcast ht _ => exact hb.keep ht (by decide) (by decide)
      | releaseAll ht _ hr => exact hb.releaseAndGo hr ht (by decide) (by decide) (by decide)
      | releaseNone ht hnone =>
          have hzero : s.state.waitersCount.toNat = 0 := by omega
          show Books _ _ _ { c with released := c.released + s.state.waitersCount.toNat }
          rw [hzero]
          exact hb.keep ht (by decide) (by decide)
      | getDone ht _ => exact hb.keep ht (by decide) (by decide)
      | resetBroadcast ht => exact hb.keep ht (by decide) (by decide)
      | leave ht => exact hb.keep ht (by decide) (by decide)

omit [DecidableEq Tid] in
/-- What is weighed is counted. -/
theorem tally_weight (P : Pc × Bool → Bool) (e : Tid → Pc × Bool) :
    tally (weight P) e = headcount (fun b => P b = true) e :=
  (headcount_eq_tally (fun b => P b = true) e).symm

/-- The counts of a run. -/
def counts (tr : List (Timed Tid × TimedAction Tid)) : Counts where
  began := Machine.total began tr
  returnedOk := Machine.total returnedOk tr
  returnedError := Machine.total returnedError tr
  released := Machine.total released tr
  ranOut := Machine.total ranOut tr

omit [DecidableEq Tid] in
theorem counts_snoc (tr : List (Timed Tid × TimedAction Tid)) (s : Timed Tid)
    (a : TimedAction Tid) : counts (tr ++ [(s, a)]) = (counts tr).after s a := by
  simp [counts, Counts.after]

omit [DecidableEq Tid] in
/-- At the start, there is nothing in the books. -/
theorem kept_start :
    (startTimed : Timed Tid).Kept (counts ([] : List (Timed Tid × TimedAction Tid))) := by
  have hnone : ∀ P : Pc × Bool → Bool, P (.outside, false) = false →
      tally (weight P) (startTimed : Timed Tid).entries = 0 := by
    intro P hP
    refine (tally_eq_zero_iff (AlmostIdle.const (Pc.outside, false)) ?_).2 fun _ => ?_
    · simp [hP]
    · simp [hP]
  refine ⟨AlmostIdle.const (Pc.outside, false), fun _ h => Bool.noConfusion h,
    fun _ h => Pc.noConfusion h, ?_, ?_, ?_, ?_⟩
  · rw [hnone _ rfl]
    rfl
  · rw [hnone _ rfl]
    rfl
  · rw [hnone _ rfl]
    rfl
  · rw [hnone _ rfl]
    rfl

/-- A run goes on with a step of the program without time limits. -/
theorem run_call {tr : List (Timed Tid × TimedAction Tid)} {s s' : State Tid} {r : Tid → Bool}
    {a : Action Tid} (h : (timedMachine Tid).Run startTimed tr ⟨s, r⟩) (hs : Step s a s') :
    (timedMachine Tid).Run startTimed (tr ++ [(⟨s, r⟩, .call a)]) ⟨s', forget r a⟩ :=
  h.snoc (TimedStep.call hs)

/-- **Every run keeps the books.** -/
theorem books_run {tr : List (Timed Tid × TimedAction Tid)} {s : Timed Tid}
    (h : (timedMachine Tid).Run startTimed tr s) : s.Kept (counts tr) := by
  induction h with
  | nil => exact kept_start
  | snoc _ hstep ih =>
      rw [counts_snoc]
      exact books_step hstep ih

end

end WinCondition

open Function WinCondition

/-- **Each permit ends one wait.**  At any point of any run, `waitersCount` is the number of threads
that have counted themselves and not counted themselves down, and nobody sleeps while the semaphore
has a permit.  Each call of `wait` has returned or is there, each return of -1 is due to a time that
has run out, and each permit that was released has made one call return `NO_ERROR`, is with one
thread that will, or is still there. -/
theorem waits_accounted {Tid : Type} [DecidableEq Tid] {tr : List (Timed Tid × TimedAction Tid)}
    {s : Timed Tid} (h : (timedMachine Tid).Run startTimed tr s) :
    s.state.waitersCount = headcount (fun p => p.isCounted = true) s.state.pc ∧
    (0 < s.state.sema → ∀ t, s.state.pc t ≠ .blocked) ∧
    Machine.total began tr = Machine.total returnedOk tr + Machine.total returnedError tr +
      headcount (fun p => p.isWaiting = true) s.state.pc ∧
    Machine.total ranOut tr = Machine.total returnedError tr +
      headcount (fun b => b.1.isPast = true ∧ b.2 = true) s.entries ∧
    Machine.total released tr = Machine.total returnedOk tr +
      headcount (fun b => b.1.isPast = true ∧ b.2 = false) s.entries + s.state.sema := by
  have hb := books_run h
  have hwaits := hb.waits
  have hpermits := hb.permits
  have htimeouts := hb.timeouts
  rw [tally_weight] at hwaits hpermits htimeouts
  have hpermit : (fun b : Pc × Bool => hasPermit b = true) =
      fun b => b.1.isPast = true ∧ b.2 = false := by
    funext b
    simp
  have hlate : (fun b : Pc × Bool => isLate b = true) =
      fun b => b.1.isPast = true ∧ b.2 = true := by
    funext b
    simp
  rw [hpermit] at hpermits
  rw [hlate] at htimeouts
  refine ⟨?_, ?_, hwaits.symm, htimeouts.symm, hpermits.symm⟩
  · rw [hb.count, tally_weight]
    rfl
  · intro hsema t ht
    exact absurd (hb.asleep t ht) (Nat.pos_iff_ne_zero.1 hsema)

/-- Thread 0 runs out of time, and a signal comes before it has counted itself down: it returns -1,
and the permit stays for the next call. -/
theorem waits_accounted_late : ∃ (tr : List (Timed (Fin 2) × TimedAction (Fin 2)))
    (s : Timed (Fin 2)), (timedMachine (Fin 2)).Run startTimed tr s ∧ s.state.sema = 1 ∧
      Machine.total released tr = 1 ∧ Machine.total returnedError tr = 1 ∧
      (0 < s.state.sema → ∀ t, s.state.pc t ≠ .blocked) := by
  have h₁ := run_call .nil (Step.lock (t := (0 : Fin 2)) rfl rfl)
  have h₂ := run_call h₁ (Step.enter (t := 0) rfl rfl)
  have h₃ := run_call h₂ (Step.sleepBlocks (t := 0) rfl rfl)
  have h₄ := h₃.snoc (TimedStep.timeOut (t := 0) rfl)
  have h₅ := run_call h₄ (Step.lockSignal (t := 1) rfl rfl)
  have h₆ := run_call h₅ (Step.readWaiters (t := 1) rfl (by decide))
  have h₇ := run_call h₆ (Step.releaseOne (t := 1) rfl (.keep .nil (by decide)))
  have h₈ := run_call h₇ (Step.leave (t := 1) rfl)
  have h₉ := run_call h₈ (Step.countDown (t := 0) rfl (by decide))
  have h₁₀ := run_call h₉ (Step.lockInternal (t := 0) rfl rfl)
  have h₁₁ := run_call h₁₀ (Step.unlockInternal (t := 0) rfl)
  have h₁₂ := run_call h₁₁ (Step.lockExternal (t := 0) rfl rfl)
  exact ⟨_, _, h₁₂, rfl, rfl, rfl, (waits_accounted h₁₂).2.1⟩

/-- **A broadcast wakes everybody who sleeps**, time limits or not, and leaves a permit for each
thread that was counted and did not sleep. -/
theorem broadcast_wakes_all {Tid : Type} [DecidableEq Tid]
    {tr : List (Timed Tid × TimedAction Tid)} {s s' : Timed Tid} {t : Tid}
    (h : (timedMachine Tid).Run startTimed tr s)
    (hs : TimedStep s (.call (.releaseAll t)) s') :
    (∀ u, s.state.pc u = .blocked → s'.state.pc u = .woken) ∧ (∀ u, s'.state.pc u ≠ .blocked) ∧
    s'.state.sema = s.state.sema + headcount (fun p => p = .entered ∨ p = .woken) s.state.pc := by
  have hb := books_run h
  rw [headcount_eq_tally]
  cases hs with
  | @call _ s' hstep =>
      cases hstep with
      | @releaseAll _ pc sema ht _ hr =>
          obtain ⟨hnone, hsema⟩ := hb.wakesAll hr
          refine ⟨?_, ?_, hsema⟩
          · intro u hu
            have hut : u ≠ t := by
              intro hut
              rw [hut, ht] at hu
              exact Pc.noConfusion hu
            dsimp only
            rw [update_of_ne hut]
            rcases hr.pc_eq u with heq | ⟨-, hwoken⟩
            · exact absurd (heq.trans hu) (hnone u)
            · exact hwoken
          · exact (forall_update_iff pc fun _ p => p ≠ .blocked).2
              ⟨fun h => Pc.noConfusion h, fun u _ => hnone u⟩
      | releaseNone ht hno =>
          have hzero : s.state.waitersCount.toNat = 0 := by omega
          have hr : Release s.state.pc s.state.sema s.state.waitersCount.toNat s.state.pc
              s.state.sema := by
            rw [hzero]
            exact .nil
          obtain ⟨hnone, hsema⟩ := hb.wakesAll hr
          refine ⟨fun u hu => absurd hu (hnone u), ?_, hsema⟩
          exact (forall_update_iff s.state.pc fun _ p => p ≠ .blocked).2
            ⟨fun h => Pc.noConfusion h, fun u _ => hnone u⟩

/-- Thread 0 sleeps, thread 1 has run out of time, and 2 broadcasts: 0 wakes up, and the permit of
1 stays. -/
theorem broadcast_wakes_all_late : ∃ (tr : List (Timed (Fin 3) × TimedAction (Fin 3)))
    (s s' : Timed (Fin 3)), (timedMachine (Fin 3)).Run startTimed tr s ∧
      s.state.pc 0 = .blocked ∧ s.state.pc 1 = .woken ∧ s'.state.sema = 1 ∧
      s'.state.pc 0 = .woken := by
  have h₁ := run_call .nil (Step.lock (t := (0 : Fin 3)) rfl rfl)
  have h₂ := run_call h₁ (Step.enter (t := 0) rfl rfl)
  have h₃ := run_call h₂ (Step.sleepBlocks (t := 0) rfl rfl)
  have h₄ := run_call h₃ (Step.lock (t := 1) rfl rfl)
  have h₅ := run_call h₄ (Step.enter (t := 1) rfl rfl)
  have h₆ := run_call h₅ (Step.sleepBlocks (t := 1) rfl rfl)
  have h₇ := h₆.snoc (TimedStep.timeOut (t := 1) rfl)
  have h₈ := run_call h₇ (Step.lockBroadcast (t := 2) rfl rfl)
  have hlast : ∀ {tr : List (Timed (Fin 3) × TimedAction (Fin 3))} {s s' : State (Fin 3)}
      {r : Fin 3 → Bool}, (timedMachine (Fin 3)).Run startTimed tr ⟨s, r⟩ →
      Step s (.releaseAll 2) s' → TimedStep ⟨s, r⟩ (.call (.releaseAll 2)) ⟨s', r⟩ := by
    intro tr s s' r _ hs
    exact .call hs
  have hs := hlast h₈ (Step.releaseAll (t := 2) rfl (by decide)
    (.keep (.hand (t := 0) .nil rfl) (by decide)))
  exact ⟨_, _, _, h₈, rfl, rfl, rfl, (broadcast_wakes_all h₈ hs).1 0 rfl⟩

end VModule

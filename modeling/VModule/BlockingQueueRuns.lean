/-
**No item and no wake-up is lost in a blocking queue, but a consumer may come back empty-handed.**

Over the machine of `VModule/BlockingQueue.lean`.  The invariant gives every item of the queue a
ticket while somebody is blocked: a producer that has still to signal carries one, and so does a
consumer that was woken and has still to take the mutex.  Pushing an item issues a ticket,
signalling hands it over to the waiter, and a ticket is only used up together with an item.

The wait of `DeQueue` is not in a loop, so a woken consumer pops even when others have emptied the
queue in the meantime; `VModule.deQueue_null_iff` says that this is the only way a consumer
that waits forever gets a null pointer.

Main definitions:

* `VModule.BlockingQueue.ticket`, `VModule.BlockingQueue.Good` — the tickets and the invariant;
* `VModule.BlockingQueue.Delivers` — what a blocking queue promises in every reachable state;
* `VModule.BlockingQueue.Starves` — the step of a consumer that is woken and finds nothing.

Main results:

* `VModule.BlockingQueue.good_step`, `VModule.BlockingQueue.reachable_good` — the invariant;
* `VModule.BlockingQueue.sections_run` — no assertion fails and no null pointer is dereferenced;
* `VModule.blockingQueues_deliver` — **first in first out, and no lost wake-up**, for both classes;
* `VModule.deQueue_null_iff` — **when a consumer that waits forever returns a null pointer**.
-/

import VModule.BlockingQueue
import VModule.Tally

set_option relaxedAutoImplicit false
set_option autoImplicit false

namespace VModule

namespace BlockingQueue

open Function

variable {ι Tid : Type} {F : Fifo ι}

/-! ### Tickets -/

/-- The tickets a thread carries. -/
def ticket : Pc → ℕ
  | .signalling => 1
  | .woken _ false => 1
  | _ => 0

theorem ticket_eq (p : Pc) :
    ticket p = (if p.isSignalling = true then 1 else 0) + if p.isWoken = true then 1 else 0 := by
  cases p with
  | idle => rfl
  | signalling => rfl
  | waiting d => rfl
  | woken d b => cases b <;> rfl

/-- The tickets are carried by the producers that have still to signal and by the consumers that
were woken. -/
theorem tally_ticket {pc : Tid → Pc} (h : AlmostIdle .idle pc) :
    tally ticket pc = headcount (·.isSignalling) pc + headcount (·.isWoken) pc := by
  rw [headcount_eq_tally, headcount_eq_tally, ← tally_add h rfl rfl]
  exact finsum_congr fun t => ticket_eq _

/-- While somebody is blocked there are `n` tickets. -/
def Enough (pc : Tid → Pc) (n : ℕ) : Prop :=
  (∃ c, (pc c).isWaiting = true) → n ≤ tally ticket pc

/-- **The invariant**: the memory holds the items pushed and not yet popped, and while somebody is
blocked there is a ticket for each of them. -/
structure Good (s : State F Tid) (L : List ι) : Prop where
  holds : F.Holds s.queue L
  fifo : s.returned.reduceOption ++ L = s.pushed
  busy : AlmostIdle .idle s.pc
  enough : Enough s.pc L.length

theorem good_start : Good (start F Tid) [] where
  holds := F.holds_empty
  fifo := rfl
  busy := AlmostIdle.const _
  enough _ := Nat.zero_le _

/-! ### What is promised in every reachable state -/

/-- The items returned so far and then the contents of the queue are the items pushed so far; and
while somebody is blocked and not notified, the queue is no longer than the number of producers
between their unlock and their signal together with the number of consumers that were notified or
woke up spuriously and have not resumed (those whose wait timed out are not counted), so that the
queue is empty once all of these have moved on. -/
structure Delivers (s : State F Tid) : Prop where
  in_order : ∃ L, F.Holds s.queue L ∧ s.returned.reduceOption ++ L = s.pushed
  wakeups : ∀ L, F.Holds s.queue L → (∃ c, (s.pc c).isWaiting = true) →
    L.length ≤ headcount (·.isSignalling) s.pc + headcount (·.isWoken) s.pc
  at_rest : ∀ L, F.Holds s.queue L → (∃ c, (s.pc c).isWaiting = true) →
    (∀ t, (s.pc t).isSignalling = false ∧ (s.pc t).isWoken = false) → L = []

theorem Good.delivers {s : State F Tid} {L : List ι} (hg : Good s L) : Delivers s := by
  have hwake : ∀ M, F.Holds s.queue M → (∃ c, (s.pc c).isWaiting = true) →
      M.length ≤ headcount (·.isSignalling) s.pc + headcount (·.isWoken) s.pc := by
    intro M hM hw
    obtain rfl := F.holds_unique hM hg.holds
    rw [← tally_ticket hg.busy]
    exact hg.enough hw
  refine ⟨⟨L, hg.holds, hg.fifo⟩, hwake, fun M hM hw hrest => ?_⟩
  have hle := hwake M hM hw
  rw [headcount_eq_zero fun t => by simp [(hrest t).1],
    headcount_eq_zero fun t => by simp [(hrest t).2]] at hle
  exact List.length_eq_zero_iff.1 (by omega)

/-! ### The invariant is kept -/

/-- What a pop adds to the items returned is what it takes from the queue. -/
theorem reduceOption_pop (rs : List (Option ι)) (L : List ι) :
    (rs ++ [L.head?]).reduceOption ++ L.tail = rs.reduceOption ++ L := by
  cases L with
  | nil => simp [List.reduceOption]
  | cons i L => simp [List.reduceOption]

variable [DecidableEq Tid]

/-- A waiter that remains after a thread has moved was one before. -/
theorem waiting_of_update {pc : Tid → Pc} {t : Tid} {p : Pc} (hp : p.isWaiting = false)
    (h : ∃ c, (update pc t p c).isWaiting = true) : ∃ c, (pc c).isWaiting = true := by
  obtain ⟨c, hc⟩ := h
  have hct : c ≠ t := by
    rintro rfl
    rw [update_self, hp] at hc
    exact absurd hc (by simp)
  exact ⟨c, by rwa [update_of_ne hct] at hc⟩

/-- A thread that moves while nobody waits leaves nobody waiting. -/
theorem isWaiting_update {pc : Tid → Pc} (h : ∀ c, (pc c).isWaiting = false) (t : Tid) {p : Pc}
    (hp : p.isWaiting = false) (c : Tid) : (update pc t p c).isWaiting = false := by
  by_contra hc
  obtain ⟨d, hd⟩ := waiting_of_update hp ⟨c, Bool.eq_true_of_not_eq_false hc⟩
  exact absurd (h d) (by simp [hd])

/-- **A thread moves** from `p` to `q`, where it is not blocked.  The tickets it takes or gives back
are the ones that the items need. -/
theorem Enough.move {pc : Tid → Pc} {n n' : ℕ} {t : Tid} {p q : Pc} (h : Enough pc n)
    (hbusy : AlmostIdle .idle pc) (hp : pc t = p) (hq : q.isWaiting = false)
    (hn : n' + ticket p ≤ n + ticket q) : Enough (update pc t q) n' := by
  intro hw
  have hold := h (waiting_of_update hq hw)
  have htally := tally_update hbusy (w := ticket) rfl t q
  rw [hp] at htally
  omega

/-- **One step** keeps the invariant. -/
theorem good_step {s s' : State F Tid} {a : Action Tid ι} {L : List ι} (hg : Good s L)
    (h : Step s a s') : ∃ L', Good s' L' := by
  obtain ⟨hL, hfifo, hbusy, henough⟩ := hg
  cases h with
  | @enQueue t i m hpc hfree hpush =>
      -- the producer takes a ticket for the item it pushes
      have hmove : Enough (update s.pc t .signalling) (L ++ [i]).length :=
        henough.move hbusy hpc rfl (by simp [ticket])
      refine ⟨L ++ [i], F.holds_of_push hL hfree hpush, ?_, hbusy.update _ _, hmove⟩
      rw [← List.append_assoc, hfifo]
  | @signal t c d hpc hwait =>
      -- the ticket goes from the producer to the waiter it notifies
      have hct : t ≠ c := by
        rintro rfl
        rw [hpc] at hwait
        exact absurd hwait (by simp)
      have hwake : Enough (update s.pc c (.woken d false)) (L.length + 1) :=
        henough.move hbusy hwait rfl le_rfl
      have hpc' : update s.pc c (.woken d false) t = .signalling := by rw [update_of_ne hct, hpc]
      exact ⟨L, hL, hfifo, (hbusy.update _ _).update _ _,
        hwake.move (hbusy.update _ _) hpc' rfl le_rfl⟩
  | @signalNobody t hpc hnone =>
      refine ⟨L, hL, hfifo, hbusy.update _ _, fun hw => ?_⟩
      obtain ⟨c, hc⟩ := waiting_of_update rfl hw
      rw [hnone c] at hc
      exact absurd hc (by simp)
  | @wait t d hpc hlen =>
      obtain rfl := (F.length_eq_zero_iff hL).1 hlen
      exact ⟨[], hL, hfifo, hbusy.update _ _, fun _ => Nat.zero_le _⟩
  | @take t d m r hpc hlen hpop =>
      obtain ⟨rfl, hm⟩ := F.of_pop hL hpop
      refine ⟨L.tail, hm, by rw [reduceOption_pop, hfifo], hbusy, fun hw => ?_⟩
      have hold := henough hw
      rw [List.length_tail]
      exact Nat.le_trans (Nat.sub_le _ _) hold
  | @spurious t d hpc =>
      exact ⟨L, hL, hfifo, hbusy.update _ _, henough.move hbusy hpc rfl (by simp [ticket])⟩
  | @timeout t d hpc hd =>
      exact ⟨L, hL, hfifo, hbusy.update _ _, henough.move hbusy hpc rfl (by simp [ticket])⟩
  | @resumeTimedOut t d hpc =>
      refine ⟨L, hL, ?_, hbusy.update _ _, henough.move hbusy hpc rfl (by simp [ticket])⟩
      simpa [List.reduceOption] using hfifo
  | @resume t d m r hpc hpop =>
      -- the consumer gives its ticket back, and with it an item if there is one
      obtain ⟨rfl, hm⟩ := F.of_pop hL hpop
      have hmove : Enough (update s.pc t .idle) L.tail.length := by
        cases L with
        | nil => exact fun _ => Nat.zero_le _
        | cons i L => exact henough.move hbusy hpc rfl (by simp [ticket])
      exact ⟨L.tail, hm, by rw [reduceOption_pop, hfifo], hbusy.update _ _, hmove⟩
  | exitQueue =>
      refine ⟨L, hL, hfifo, hbusy.map (g := Pc.notify) rfl, ?_⟩
      -- nobody is blocked after a broadcast
      rintro ⟨c, hc⟩
      rw [Pc.isWaiting_notify] at hc
      exact absurd hc (by simp)

/-- The invariant holds in every reachable state. -/
theorem reachable_good {s : State F Tid} (h : (machine F Tid).Reachable s) : ∃ L, Good s L := by
  refine Machine.Invariant.reachable (I := fun s => ∃ L, Good s L) ⟨?_, ?_⟩ h
  · rintro s rfl
    exact ⟨[], good_start⟩
  · rintro s a s' ⟨L, hg⟩ hs
    exact good_step hg hs

/-- **The mutex sections run through**: in every reachable state a thread outside a call may push
an item that is in no queue, may call `DeQueue`, and a woken thread may go on; no assertion fails
and no null pointer is dereferenced. -/
theorem sections_run {s : State F Tid} (h : (machine F Tid).Reachable s) (t : Tid) :
    (s.pc t = .idle → ∀ i, F.Free s.queue i → ∃ s', Step s (.enQueue t i) s') ∧
      (s.pc t = .idle → ∀ d, ∃ s', Step s (.wait t d) s' ∨ ∃ r, Step s (.take t d r) s') ∧
      ∀ d b, s.pc t = .woken d b → ∃ r s', Step s (.resume t r) s' := by
  obtain ⟨L, hg⟩ := reachable_good h
  obtain ⟨m, hpop, -⟩ := F.pop_spec hg.holds
  refine ⟨fun hpc i hi => ?_, fun hpc d => ?_, fun d b hpc => ?_⟩
  · obtain ⟨m', hpush, -⟩ := F.push_spec hg.holds i ((F.free_iff hg.holds i).1 hi)
    exact ⟨_, .enQueue hpc hi hpush⟩
  · by_cases hlen : F.length s.queue = 0
    · exact ⟨_, .inl (.wait hpc hlen)⟩
    · exact ⟨_, .inr ⟨_, .take hpc hlen hpop⟩⟩
  · cases b with
    | true => exact ⟨none, _, .resumeTimedOut hpc⟩
    | false => exact ⟨_, _, .resume hpc hpop⟩

/-! ### Waiting forever -/

namespace Pc

/-- A thread that waits, or waited, without a timeout. -/
def Patient : Pc → Prop
  | .waiting d => d = -1
  | .woken d b => d = -1 ∧ b = false
  | _ => True

theorem Patient.notify {p : Pc} (h : p.Patient) : p.notify.Patient := by
  cases p with
  | waiting d => exact ⟨h, rfl⟩
  | _ => exact h

end Pc

theorem patient_update {pc : Tid → Pc} (h : ∀ t, (pc t).Patient) (t : Tid) {p : Pc}
    (hp : p.Patient) : ∀ c, (update pc t p c).Patient :=
  (forall_update_iff pc fun _ p => p.Patient).2 ⟨hp, fun c _ => h c⟩

/-- Nobody ever waits with a timeout in a machine whose consumers wait forever. -/
theorem patient_step {s s' : State F Tid} {a : Action Tid ι} (h : Step s a s')
    (ha : a.WaitsForever) (hp : ∀ t, (s.pc t).Patient) : ∀ t, (s'.pc t).Patient := by
  cases h with
  | enQueue _ _ _ => exact patient_update hp _ trivial
  | @signal t c d hpc hwait =>
      have hc : (Pc.waiting d).Patient := by simpa [hwait] using hp c
      exact patient_update (patient_update hp _ hc.notify) _ trivial
  | signalNobody _ _ => exact patient_update hp _ trivial
  | wait _ _ => exact patient_update hp _ ha
  | take _ _ _ => exact hp
  | @spurious t d hpc =>
      have ht : (Pc.waiting d).Patient := by simpa [hpc] using hp t
      exact patient_update hp _ ht.notify
  | @timeout t d hpc hd =>
      have ht : (Pc.waiting d).Patient := by simpa [hpc] using hp t
      exact absurd ht hd
  | resumeTimedOut _ => exact patient_update hp _ trivial
  | resume _ _ => exact patient_update hp _ trivial
  | exitQueue => exact fun t => (hp t).notify

/-- What the steps of a machine that waits forever keep. -/
def Forever (s : State F Tid) : Prop := (∃ L, Good s L) ∧ ∀ t, (s.pc t).Patient

theorem forever_invariant : (waitForever F Tid).Invariant Forever := by
  constructor
  · rintro s rfl
    exact ⟨⟨[], good_start⟩, fun _ => trivial⟩
  · rintro s a s' ⟨⟨L, hg⟩, hp⟩ ⟨hs, ha⟩
    exact ⟨good_step hg hs, patient_step hs ha hp⟩

/-- The step of a consumer that was woken and finds the queue empty. -/
def Starves (s : State F Tid) (a : Action Tid ι) : Prop :=
  (∃ t r, a = .resume t r) ∧ F.length s.queue = 0

/-- A starving consumer comes back with a null pointer. -/
theorem returned_of_starves {s s' : State F Tid} {a : Action Tid ι} (hf : Forever s)
    (h : Step s a s') (ha : Starves s a) : none ∈ s'.returned := by
  obtain ⟨⟨L, hg⟩, hp⟩ := hf
  obtain ⟨⟨t, r, rfl⟩, hlen⟩ := ha
  obtain rfl := (F.length_eq_zero_iff hg.holds).1 hlen
  cases h with
  | resumeTimedOut hpc => simp
  | resume hpc hpop =>
      obtain ⟨rfl, -⟩ := F.of_pop hg.holds hpop
      simp

/-- A step of which no consumer starves returns no null pointer. -/
theorem returned_of_not_starves {s s' : State F Tid} {a : Action Tid ι} (hf : Forever s)
    (h : Step s a s') (ha : ¬ Starves s a) (hr : none ∉ s.returned) : none ∉ s'.returned := by
  obtain ⟨⟨L, hg⟩, hp⟩ := hf
  have hhead : ∀ {m r}, F.pop s.queue = some (m, r) → F.length s.queue ≠ 0 → r ≠ none := by
    intro m r hpop hlen
    obtain ⟨rfl, -⟩ := F.of_pop hg.holds hpop
    rw [Ne, F.length_eq_zero_iff hg.holds] at hlen
    simpa using hlen
  cases h with
  | enQueue _ _ _ => exact hr
  | signal _ _ => exact hr
  | signalNobody _ _ => exact hr
  | wait _ _ => exact hr
  | take hpc hlen hpop => simpa [hr] using (hhead hpop hlen).symm
  | spurious _ => exact hr
  | timeout _ _ => exact hr
  | @resumeTimedOut t d hpc =>
      have ht : (Pc.woken d true).Patient := by simpa [hpc] using hp t
      exact absurd ht.2 (by simp)
  | resume hpc hpop =>
      have hlen : F.length s.queue ≠ 0 := fun hlen => ha ⟨⟨_, _, rfl⟩, hlen⟩
      simpa [hr] using (hhead hpop hlen).symm
  | exitQueue => exact hr

/-- **Null pointers and starving consumers.**  When all consumers wait forever, a run in which no
`DeQueue` returns a null pointer is one in which no woken consumer finds the queue empty. -/
theorem returned_iff {tr : List (State F Tid × Action Tid ι)} {s : State F Tid}
    (h : (waitForever F Tid).Run (start F Tid) tr s) :
    (∀ q ∈ Machine.visited tr s, none ∉ q.returned) ↔ ∀ p ∈ tr, ¬ Starves p.1 p.2 := by
  refine h.forall_visited_iff (C := fun s a => ¬ Starves s a) ?_ ?_ rfl
  · intro s hs
    refine (Machine.Invariant.relative (forever_invariant.restrict _)
      (I := fun s => none ∉ s.returned) ?_ ?_).reachable hs |>.2
    · rintro s rfl
      simp [start]
    · rintro s a s' hf hr ⟨⟨hstep, -⟩, ha⟩
      exact returned_of_not_starves hf hstep ha hr
  · intro s a s' hs hstep hC
    have hf := forever_invariant.reachable hs
    exact fun hnone => hnone (returned_of_starves hf hstep.1 (not_not.1 hC))

/-- Consumer `1` waits, producer `0` pushes `i` and notifies it, and consumer `2` comes first. -/
theorem starving_run (F : Fifo ι) (i : ι) : ∃ tr s,
    (waitForever F ℕ).Run (start F ℕ) tr s ∧ s.returned = [some i, none] ∧
      tr.map Prod.snd = [.wait 1 (-1), .enQueue 0 i, .signal 0 (some 1), .take 2 (-1) (some i),
        .resume 1 none] := by
  have hempty : F.length F.empty = 0 := by simp [F.length_eq F.holds_empty]
  obtain ⟨m, m', hfree, hpush, hlen, hpop, hm'⟩ := F.push_pop_empty i
  obtain ⟨m'', hpop', -⟩ := F.pop_spec hm'
  have h₀ : (waitForever F ℕ).Run (start F ℕ) [] (start F ℕ) := .nil
  have h₁ := h₀.snoc (And.intro (Step.wait (t := 1) rfl hempty) rfl)
  have h₂ := h₁.snoc (And.intro (Step.enQueue (t := 0) (i := i) rfl hfree hpush) trivial)
  have h₃ := h₂.snoc (And.intro (Step.signal (t := 0) (c := 1) (d := -1) rfl rfl) trivial)
  have h₄ := h₃.snoc (And.intro (Step.take (t := 2) (d := -1) rfl hlen hpop) rfl)
  have h₅ := h₄.snoc (And.intro (Step.resume (t := 1) (d := -1) rfl hpop') trivial)
  exact ⟨_, _, h₅, rfl, rfl⟩

end BlockingQueue

open BlockingQueue

/-- **First in first out, and no lost wake-up**, for any number of threads and every interleaving,
in `VmBlockingQueue` and in `CBlockingQueue<T>`. -/
theorem blockingQueues_deliver (ι Tid : Type) [DecidableEq ι] [DecidableEq Tid] :
    (∀ s, (vmBlockingQueue ι Tid).Reachable s → Delivers s) ∧
      ∀ s, (cBlockingQueue ι Tid).Reachable s → Delivers s := by
  constructor
  · intro s hs
    obtain ⟨L, hg⟩ := reachable_good hs
    exact hg.delivers
  · intro s hs
    obtain ⟨L, hg⟩ := reachable_good hs
    exact hg.delivers

/-- A consumer waits and a producer has pushed `7` and not signalled yet. -/
theorem blockingQueues_deliver_waiting : ∃ s, (vmBlockingQueue ℕ ℕ).Reachable s ∧
    s.pushed = [7] ∧ s.pc 1 = .waiting (-1) ∧ Delivers s := by
  have hempty : (mqueueFifo ℕ).length (mqueueFifo ℕ).empty = 0 := rfl
  obtain ⟨m, -, hfree, hpush, -⟩ := (mqueueFifo ℕ).push_pop_empty 7
  have hs := (((Machine.Reachable.init (M := vmBlockingQueue ℕ ℕ) rfl).step
    (.wait (t := 1) (d := -1) rfl hempty)).step (.enQueue (t := 0) (i := 7) rfl hfree hpush))
  exact ⟨_, hs, rfl, rfl, (blockingQueues_deliver ℕ ℕ).1 _ hs⟩

/-- **When a consumer that waits forever returns a null pointer**: in both classes, exactly in the
runs in which some woken consumer takes the mutex again while the queue is empty. -/
theorem deQueue_null_iff (ι Tid : Type) [DecidableEq ι] [DecidableEq Tid] :
    (∀ tr s, (waitForever (mqueueFifo ι) Tid).Run (start (mqueueFifo ι) Tid) tr s →
      ((∀ q ∈ Machine.visited tr s, none ∉ q.returned) ↔ ∀ p ∈ tr, ¬ Starves p.1 p.2)) ∧
    ∀ tr s, (waitForever (cqueueFifo ι) Tid).Run (start (cqueueFifo ι) Tid) tr s →
      ((∀ q ∈ Machine.visited tr s, none ∉ q.returned) ↔ ∀ p ∈ tr, ¬ Starves p.1 p.2) :=
  ⟨fun _ _ h => returned_iff h, fun _ _ h => returned_iff h⟩

/-- In the run in which consumer `2` overtakes consumer `1`, some consumer starves. -/
theorem deQueue_null_iff_overtaken : ∃ tr s,
    (waitForever (mqueueFifo ℕ) ℕ).Run (start (mqueueFifo ℕ) ℕ) tr s ∧
      s.returned = [some 7, none] ∧ ∃ p ∈ tr, Starves p.1 p.2 := by
  obtain ⟨tr, s, hrun, hret, -⟩ := starving_run (mqueueFifo ℕ) 7
  refine ⟨tr, s, hrun, hret, ?_⟩
  by_contra hne
  have hnull := ((deQueue_null_iff ℕ ℕ).1 tr s hrun).2 fun p hp hst => hne ⟨p, hp, hst⟩
  refine hnull s (Machine.mem_visited tr s) ?_
  rw [hret]
  simp

/-- **A consumer that waits forever comes back with a null pointer**, in both classes. -/
theorem deQueue_returns_null :
    (∃ tr s, (waitForever (mqueueFifo ℕ) ℕ).Run (start (mqueueFifo ℕ) ℕ) tr s ∧
      s.returned = [some 7, none] ∧
      tr.map Prod.snd = [.wait 1 (-1), .enQueue 0 7, .signal 0 (some 1), .take 2 (-1) (some 7),
        .resume 1 none]) ∧
    ∃ tr s, (waitForever (cqueueFifo ℕ) ℕ).Run (start (cqueueFifo ℕ) ℕ) tr s ∧
      s.returned = [some 7, none] ∧
      tr.map Prod.snd = [.wait 1 (-1), .enQueue 0 7, .signal 0 (some 1), .take 2 (-1) (some 7),
        .resume 1 none] :=
  ⟨starving_run (mqueueFifo ℕ) 7, starving_run (cqueueFifo ℕ) 7⟩

end VModule

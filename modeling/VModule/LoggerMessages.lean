/-
**The messages on their way through the logger.**

Over the machine of `VModule/LoggerThread.lean`.  An item is owned by one party at a time: by the
sender that fills it, by the queue, by the thread that has popped it.  Ownership makes
the copies safe, and with it the messages can be followed: what was enqueued is what was written,
then what the logger thread has in hand, then what the queue still holds.

`stop` does not empty the queue.  A message that is still there when the logger thread leaves
its loop stays there, which is all that can happen to a message.

Main definitions:

* `VModule.LoggerThread.Owned` — every allocated item has one owner;
* `VModule.LoggerThread.InOrder` — where the messages enqueued are;
* `VModule.LoggerThread.Accounted` — what is promised about the messages.

Main results:

* `VModule.LoggerThread.owned_step` — ownership is passed on, also across restarts;
* `VModule.LoggerThread.inOrder_step` — no step loses, duplicates or reorders a message;
* `VModule.messages_accounted` — **the log is a prefix of the messages enqueued**, and the others
  are still in the queue when the logger thread has left its loop.
-/

import VModule.LoggerThreadRuns

set_option relaxedAutoImplicit false
set_option autoImplicit false

namespace VModule

namespace LoggerThread

open Function

variable {ι Tid : Type}

/-! ### Ownership of the items -/

/-- The item a thread owns. -/
def Pc.holds : Pc ι → Option ι
  | .filled i _ => some i
  | .popped i => some i
  | .printed i _ => some i
  | .written i => some i
  | _ => none

/-- The message an item carries. -/
def text (item : Option (Option Bytes)) : Bytes :=
  match item with
  | some (some object) => cstr object
  | _ => []

/-- The item a thread owns is allocated, and carries the right message. -/
def Carries (item : ι → Option (Option Bytes)) : Pc ι → Prop
  | .filled i message => ∃ object, item i = some (some object) ∧ cstr object = message
  | .popped i => ∃ object, item i = some (some object)
  | .printed i _ => item i ≠ none
  | .written i => item i ≠ none
  | _ => True

theorem Carries.alloc {item : ι → Option (Option Bytes)} {p : Pc ι} {i : ι} (h : Carries item p)
    (hp : p.holds = some i) : item i ≠ none := by
  cases p with
  | filled j m =>
      obtain rfl : j = i := Option.some_inj.1 hp
      obtain ⟨b, hb, -⟩ := h
      simp [hb]
  | popped j =>
      obtain rfl : j = i := Option.some_inj.1 hp
      obtain ⟨b, hb⟩ := h
      simp [hb]
  | printed j l =>
      obtain rfl : j = i := Option.some_inj.1 hp
      exact h
  | written j =>
      obtain rfl : j = i := Option.some_inj.1 hp
      exact h
  | _ => exact absurd hp (by simp [Pc.holds])

/-- What a thread carries does not depend on the items of others. -/
theorem Carries.congr {item item' : ι → Option (Option Bytes)} {p : Pc ι} (h : Carries item p)
    (hi : ∀ i, p.holds = some i → item' i = item i) : Carries item' p := by
  cases p with
  | filled i m => simpa [Carries, hi i rfl] using h
  | popped i => simpa [Carries, hi i rfl] using h
  | printed i l => simpa [Carries, hi i rfl] using h
  | written i => simpa [Carries, hi i rfl] using h
  | _ => trivial

/-- **Ownership**: `L` are the items in the queue. -/
structure Owned (pc : Tid → Pc ι) (item : ι → Option (Option Bytes)) (L : List ι) : Prop where
  nodup : L.Nodup
  queued : ∀ i ∈ L, ∃ object, item i = some (some object)
  carries : ∀ c, Carries item (pc c)
  notQueued : ∀ c i, (pc c).holds = some i → i ∉ L
  once : ∀ c d i, (pc c).holds = some i → (pc d).holds = some i → c = d

namespace Owned

variable {pc : Tid → Pc ι} {item : ι → Option (Option Bytes)} {L : List ι}

theorem alloc (h : Owned pc item L) {c : Tid} {i : ι} (hc : (pc c).holds = some i) :
    item i ≠ none := (h.carries c).alloc hc

/-- Memory that nobody owns may change. -/
theorem write [DecidableEq ι] (h : Owned pc item L) {i : ι} (hL : i ∉ L)
    (hfree : ∀ d, (pc d).holds ≠ some i) (x : Option (Option Bytes)) :
    Owned pc (update item i x) L := by
  refine ⟨h.nodup, fun j hj => ?_, fun c => (h.carries c).congr fun j hj => ?_, h.notQueued, h.once⟩
  · have hji : j ≠ i := by
      rintro rfl
      exact hL hj
    rw [update_of_ne hji]
    exact h.queued j hj
  · have hji : j ≠ i := by
      rintro rfl
      exact hfree c hj
    rw [update_of_ne hji]

variable [DecidableEq Tid]

/-- A thread moves and keeps its item, or owns none afterwards. -/
theorem move (h : Owned pc item L) {c : Tid} {q : Pc ι}
    (hq : ∀ i, q.holds = some i → (pc c).holds = some i) (hcar : Carries item q) :
    Owned (update pc c q) item L := by
  have hold : ∀ d i, (update pc c q d).holds = some i → (pc d).holds = some i := by
    intro d i hd
    by_cases hdc : d = c
    · subst hdc
      rw [update_self] at hd
      exact hq i hd
    · rwa [update_of_ne hdc] at hd
  refine ⟨h.nodup, h.queued, ?_, fun d i hd => h.notQueued d i (hold d i hd), ?_⟩
  · exact (forall_update_iff pc fun _ p => Carries item p).2 ⟨hcar, fun d _ => h.carries d⟩
  · intro d e i hd he
    exact h.once d e i (hold d i hd) (hold e i he)

/-- A thread takes over an item that nobody else owns. -/
theorem acquire (h : Owned pc item L) {c : Tid} {q : Pc ι} {i : ι} (hq : q.holds = some i)
    (hcar : Carries item q) (hL : i ∉ L) (hfree : ∀ d, (pc d).holds ≠ some i) :
    Owned (update pc c q) item L := by
  refine ⟨h.nodup, h.queued, ?_, ?_, ?_⟩
  · exact (forall_update_iff pc fun _ p => Carries item p).2 ⟨hcar, fun d _ => h.carries d⟩
  · refine (forall_update_iff pc fun _ p => ∀ j, p.holds = some j → j ∉ L).2
      ⟨fun j hj => ?_, fun d _ => h.notQueued d⟩
    obtain rfl : i = j := Option.some_inj.1 (hq.symm.trans hj)
    exact hL
  · intro d e j hd he
    by_cases hdc : d = c
    · by_cases hec : e = c
      · rw [hdc, hec]
      · subst hdc
        rw [update_self, hq] at hd
        rw [update_of_ne hec, ← hd] at he
        exact absurd he (hfree e)
    · rw [update_of_ne hdc] at hd
      by_cases hec : e = c
      · subst hec
        rw [update_self, hq] at he
        rw [← he] at hd
        exact absurd hd (hfree d)
      · rw [update_of_ne hec] at he
        exact h.once d e j hd he

/-- `sendDebugMessage` takes an item that is not allocated, and fills it. -/
theorem send [DecidableEq ι] (h : Owned pc item L) {c : Tid} {i : ι} (hi : item i = none)
    (object : Bytes) :
    Owned (update pc c (.filled i (cstr object))) (update item i (some (some object))) L := by
  have hL : i ∉ L := by
    intro hL
    obtain ⟨b, hb⟩ := h.queued i hL
    rw [hi] at hb
    exact absurd hb (by simp)
  have hfree : ∀ d, (pc d).holds ≠ some i := fun d hd => h.alloc hd hi
  exact (h.write hL hfree _).acquire rfl ⟨object, update_self .., rfl⟩ hL hfree

/-- The sender gives its item to the queue. -/
theorem push (h : Owned pc item L) {c : Tid} {i : ι} {m : Bytes} (hc : pc c = .filled i m)
    {q : Pc ι} (hq : q.holds = none) (hcar : Carries item q) :
    Owned (update pc c q) item (L ++ [i]) := by
  have hci : (pc c).holds = some i := by rw [hc]; rfl
  have hmove : Owned (update pc c q) item L := h.move (by simp [hq]) hcar
  refine ⟨?_, ?_, hmove.carries, ?_, hmove.once⟩
  · have hL := h.notQueued c i hci
    rw [List.nodup_append]
    exact ⟨h.nodup, by simp, fun a ha b hb => by
      rintro rfl
      exact hL (by simpa using (List.mem_singleton.1 hb) ▸ ha)⟩
  · intro j hj
    rcases List.mem_append.1 hj with hj | hj
    · exact h.queued j hj
    · obtain rfl : j = i := by simpa using hj
      obtain ⟨b, hb, -⟩ : Carries item (.filled j m) := hc ▸ h.carries c
      exact ⟨b, hb⟩
  · intro d j hd hj
    rcases List.mem_append.1 hj with hj | hj
    · exact hmove.notQueued d j hd hj
    · obtain rfl : j = i := by simpa using hj
      by_cases hdc : d = c
      · subst hdc
        rw [update_self, hq] at hd
        exact absurd hd (by simp)
      · rw [update_of_ne hdc] at hd
        exact hdc (h.once d c j hd hci)

/-- The logger thread takes the first item of the queue. -/
theorem pop {i : ι} (h : Owned pc item (i :: L)) {c : Tid} :
    Owned (update pc c (.popped i)) item L := by
  have htail : Owned pc item L :=
    ⟨h.nodup.of_cons, fun j hj => h.queued j (List.mem_cons_of_mem _ hj), h.carries,
      fun d j hd hj => h.notQueued d j hd (List.mem_cons_of_mem _ hj), h.once⟩
  refine htail.acquire rfl (h.queued i (by simp)) (List.nodup_cons.1 h.nodup).1 ?_
  intro d hd
  exact h.notQueued d i hd (by simp)

/-- The logger thread frees its item. -/
theorem free [DecidableEq ι] (h : Owned pc item L) {c : Tid} {i : ι} (hc : pc c = .written i) :
    Owned (update pc c .test) (update item i none) L := by
  have hci : (pc c).holds = some i := by rw [hc]; rfl
  have hmove : Owned (update pc c .test) item L := h.move (by simp [Pc.holds]) trivial
  refine hmove.write (h.notQueued c i hci) (fun d hd => ?_) none
  by_cases hdc : d = c
  · subst hdc
    simp [Pc.holds] at hd
  · rw [update_of_ne hdc] at hd
    exact hdc (h.once d c i hd hci)

end Owned

/-! ### What a step does to the queue -/

variable [DecidableEq ι] [DecidableEq Tid]

/-- The queue after a step, as a list. -/
def Action.onQueue : Action Tid ι → List ι → List ι
  | .enQueue _ i, L => L ++ [i]
  | .take _ _, L => L.tail
  | .resume _ _, L => L.tail
  | _, L => L

/-- The item, if any, that a step takes out of a queue with the items `L` is the first one. -/
def Action.Pops (L : List ι) : Action Tid ι → Prop
  | .take _ r => r = L.head?
  | .resume _ r => r = L.head?
  | _ => True

theorem holds_step {s s' : State ι Tid} {a : Action Tid ι} {L : List ι} (h : Step s a s')
    (hl : ∀ c, Linked (s.pc c) (s.mBlockingQueue.pc c))
    (hL : (mqueueFifo ι).Holds s.mBlockingQueue.queue L) :
    (mqueueFifo ι).Holds s'.mBlockingQueue.queue (a.onQueue L) ∧ a.Pops L := by
  cases h with
  | enQueue hpc hq =>
      cases hq with
      | enQueue _ hfree hpush => exact ⟨Fifo.holds_of_push hL hfree hpush, trivial⟩
  | signal hpc hq =>
      cases hq with
      | signal _ _ => exact ⟨hL, trivial⟩
      | signalNobody _ _ => exact ⟨hL, trivial⟩
  | wait hpc hq => cases hq with | wait _ _ => exact ⟨hL, trivial⟩
  | take hpc hq =>
      cases hq with
      | take _ _ hpop =>
          obtain ⟨hr, hm⟩ := Fifo.of_pop hL hpop
          exact ⟨hm, hr⟩
  | spurious hq => cases hq with | spurious _ => exact ⟨hL, trivial⟩
  | @resume t r q hpc hq =>
      cases hq with
      | resumeTimedOut hw =>
          -- the logger thread waits forever
          have ht := hl t
          simp [hpc, hw, Linked] at ht
      | resume _ hpop =>
          obtain ⟨hr, hm⟩ := Fifo.of_pop hL hpop
          exact ⟨hm, hr⟩
  | broadcast _ hq => cases hq with | exitQueue => exact ⟨hL, trivial⟩
  | _ => exact ⟨hL, trivial⟩

omit [DecidableEq ι] in
/-- A pop passes the first item of the queue on. -/
theorem Owned.afterPop {pc : Tid → Pc ι} {item : ι → Option (Option Bytes)} {L : List ι}
    (h : Owned pc item L) (c : Tid) :
    Owned (update pc c (Pc.afterPop L.head?)) item L.tail := by
  cases L with
  | nil => exact h.move (by simp [Pc.afterPop, Pc.holds]) trivial
  | cons i L => exact h.pop

/-- **Ownership is passed on** by every step. -/
theorem owned_step {s s' : State ι Tid} {a : Action Tid ι} {L : List ι} (h : Step s a s')
    (hpop : a.Pops L) (ho : Owned s.pc s.item L) : Owned s'.pc s'.item (a.onQueue L) := by
  cases h with
  | @send t i m hpc hi =>
      have hsend := ho.send (c := t) hi (cstr m ++ [0])
      rwa [cstr_cstr_append] at hsend
  | enQueue hpc hq => exact ho.push hpc rfl trivial
  | signal hpc hq => exact ho.move (by simp [Pc.holds]) trivial
  | enter hpc _ => exact ho.move (by simp [Pc.holds]) trivial
  | leave hpc _ => exact ho.move (by simp [Pc.holds]) trivial
  | take hpc hq =>
      obtain rfl := hpop
      exact ho.afterPop _
  | resume hpc hq =>
      obtain rfl := hpop
      exact ho.afterPop _
  | print hpc hi => exact ho.move (by simp [Pc.holds, hpc]) (by simp [Carries, hi])
  | printNothing hpc hi => exact ho.move (by simp [Pc.holds, hpc]) (by simp [Carries, hi])
  | @write t i l hpc =>
      have hcar : Carries s.item (.printed i l) := hpc ▸ ho.carries t
      exact ho.move (by simp [Pc.holds, hpc]) hcar
  | free hpc hi => exact ho.free hpc
  | finish hpc => exact ho.move (by simp [Pc.holds]) trivial
  | create hc hpc => exact ho.move (by simp [Pc.holds]) trivial
  | _ => exact ho

/-! ### Where the messages are -/

/-- The messages a thread has taken from the queue and not written yet. -/
def inHand (item : ι → Option (Option Bytes)) : Pc ι → List Bytes
  | .popped i => [text (item i)]
  | .printed _ loginfo => [loginfo]
  | _ => []

/-- **In order**: the messages enqueued are those written, then those in the hand of thread `t`,
then those in the queue. -/
def InOrder (t : Tid) (s : State ι Tid) (L : List ι) : Prop :=
  s.enqueued = s.written ++ inHand s.item (s.pc t) ++ L.map fun i => text (s.item i)

omit [DecidableEq ι] in
theorem inHand_update {pc : Tid → Pc ι} {item : ι → Option (Option Bytes)} {c : Tid} {p q : Pc ι}
    (hp : pc c = p) (hpq : inHand item q = inHand item p) (t : Tid) :
    inHand item (update pc c q t) = inHand item (pc t) := by
  by_cases htc : t = c
  · subst htc
    rw [update_self, hp, hpq]
  · rw [update_of_ne htc]

omit [DecidableEq Tid] in
theorem map_text_update {item : ι → Option (Option Bytes)} {L : List ι} {i : ι} (hi : i ∉ L)
    (x : Option (Option Bytes)) :
    (L.map fun j => text (update item i x j)) = L.map fun j => text (item j) := by
  refine List.map_congr_left fun j hj => ?_
  have hji : j ≠ i := by
    rintro rfl
    exact hi hj
  rw [update_of_ne hji]

omit [DecidableEq Tid] in
theorem inHand_write {item : ι → Option (Option Bytes)} {p : Pc ι} {i : ι} (hi : p.holds ≠ some i)
    (x : Option (Option Bytes)) : inHand (update item i x) p = inHand item p := by
  cases p with
  | popped j =>
      have hji : j ≠ i := by
        rintro rfl
        exact hi rfl
      simp [inHand, update_of_ne hji]
  | _ => rfl

/-- **No step loses, duplicates or reorders a message**, as long as `t` is the only logger
thread. -/
theorem inOrder_step {t : Tid} {s s' : State ι Tid} {a : Action Tid ι} {L : List ι}
    (h : Step s a s') (hs : ∀ c, (s.pc c).notLeft = true → c = t) (hpop : a.Pops L)
    (ho : Owned s.pc s.item L) (hin : InOrder t s L) : InOrder t s' (a.onQueue L) := by
  unfold InOrder at hin ⊢
  cases h with
  | @send c i m hpc hi =>
      have hfree : (s.pc t).holds ≠ some i := fun hd => ho.alloc hd hi
      have hL : i ∉ L := by
        intro hL
        obtain ⟨b, hb⟩ := ho.queued i hL
        rw [hi] at hb
        exact absurd hb (by simp)
      have hnew : ∀ item : ι → Option (Option Bytes),
          inHand item (update s.pc c (.filled i (cstr m)) t) = inHand item (s.pc t) :=
        fun item => inHand_update (q := .filled i (cstr m)) hpc rfl t
      simp only [Action.onQueue, hnew, inHand_write hfree, map_text_update hL]
      exact hin
  | @enQueue c i m q hpc hq =>
      obtain ⟨b, hb, rfl⟩ : Carries s.item (.filled i m) := hpc ▸ ho.carries c
      have hmove : inHand s.item (update s.pc c (.enQueuing s.enqueued.length) t) =
          inHand s.item (s.pc t) :=
        inHand_update hpc (q := .enQueuing s.enqueued.length) rfl t
      simp only [Action.onQueue, hmove]
      rw [hin]
      simp [hb, text]
  | signal hpc hq =>
      simpa only [Action.onQueue, inHand_update hpc (q := .outside) rfl t] using hin
  | enter hpc _ =>
      rcases hpc with hpc | hpc
      · simpa only [Action.onQueue, inHand_update hpc (q := .deQueue) rfl t] using hin
      · simpa only [Action.onQueue, inHand_update hpc (q := .deQueue) rfl t] using hin
  | leave hpc _ =>
      rcases hpc with hpc | hpc
      · simpa only [Action.onQueue, inHand_update hpc (q := .left) rfl t] using hin
      · simpa only [Action.onQueue, inHand_update hpc (q := .left) rfl t] using hin
  | @take c r q hpc hq =>
      obtain rfl := hs c (by rw [hpc]; rfl)
      obtain rfl := hpop
      cases L <;> simpa [Action.onQueue, Pc.afterPop, inHand, hpc] using hin
  | @resume c r q hpc hq =>
      obtain rfl := hs c (by rw [hpc]; rfl)
      obtain rfl := hpop
      cases L <;> simpa [Action.onQueue, Pc.afterPop, inHand, hpc] using hin
  | @print c i object hpc hi =>
      obtain rfl := hs c (by rw [hpc]; rfl)
      simpa [Action.onQueue, inHand, hpc, hi, text] using hin
  | @printNothing c i hpc hi =>
      -- every item in the queue came with a message
      obtain ⟨b, hb⟩ : Carries s.item (.popped i) := hpc ▸ ho.carries c
      rw [hi] at hb
      exact absurd hb (by simp)
  | @write c i l hpc =>
      obtain rfl := hs c (by rw [hpc]; rfl)
      simpa [Action.onQueue, inHand, hpc] using hin
  | @free c i hpc hi =>
      obtain rfl := hs c (by rw [hpc]; rfl)
      have hL : i ∉ L := ho.notQueued c i (by rw [hpc]; rfl)
      simp only [Action.onQueue, map_text_update hL]
      simpa [inHand, hpc] using hin
  | finish hpc => simpa only [Action.onQueue, inHand_update hpc (q := .outside) rfl t] using hin
  | create hc hpc => simpa only [Action.onQueue, inHand_update hpc (q := .entry) rfl t] using hin
  | _ => exact hin

/-! ### The counts and the file -/

/-- The `k`-th message was enqueued, for every sender that has pushed its message and for every
message sent before `stop`. -/
def Counted (s : State ι Tid) : Prop :=
  (∀ k ∈ s.sentBeforeStop, k < s.enqueued.length) ∧
    ∀ c k, s.pc c = .enQueuing k → k < s.enqueued.length

omit [DecidableEq ι] in
theorem enQueuing_of_update {pc : Tid → Pc ι} {c d : Tid} {q : Pc ι} {k : ℕ}
    (hq : ∀ j, q ≠ .enQueuing j) (hd : update pc c q d = .enQueuing k) : pc d = .enQueuing k := by
  by_cases hdc : d = c
  · subst hdc
    rw [update_self] at hd
    exact absurd hd (hq k)
  · rwa [update_of_ne hdc] at hd

omit [DecidableEq ι] in
theorem afterPop_ne_enQueuing (r : Option ι) (k : ℕ) : Pc.afterPop r ≠ .enQueuing k := by
  cases r <;> simp [Pc.afterPop]

theorem counted_step {s s' : State ι Tid} {a : Action Tid ι} (h : Step s a s')
    (hc : Counted s) : Counted s' := by
  obtain ⟨hsent, hpc⟩ := hc
  have hmove : ∀ {c : Tid} {q : Pc ι}, (∀ j, q ≠ .enQueuing j) → ∀ d k,
      update s.pc c q d = .enQueuing k → k < s.enqueued.length :=
    fun hq d k hd => hpc d k (enQueuing_of_update hq hd)
  cases h with
  | @enQueue c i m q hp hq =>
      constructor
      · intro k hk
        have := hsent k hk
        simp only [List.length_append, List.length_singleton]
        omega
      · intro d k hd
        change update s.pc c (.enQueuing s.enqueued.length) d = .enQueuing k at hd
        simp only [List.length_append, List.length_singleton]
        by_cases hdc : d = c
        · subst hdc
          rw [update_self] at hd
          obtain rfl := Pc.enQueuing.inj hd
          omega
        · rw [update_of_ne hdc] at hd
          have := hpc d k hd
          omega
  | @signal c w j q hp hq =>
      refine ⟨fun k hk => ?_, hmove (by simp)⟩
      by_cases hst : s.caller = .stopping ∨ s.stopped = true
      · rw [if_pos hst] at hk
        exact hsent k hk
      · rw [if_neg hst] at hk
        rcases List.mem_append.1 hk with hk | hk
        · exact hsent k hk
        · obtain rfl : k = j := by simpa using hk
          exact hpc c k hp
  | send _ _ => exact ⟨hsent, hmove (by simp)⟩
  | enter _ _ => exact ⟨hsent, hmove (by simp)⟩
  | leave _ _ => exact ⟨hsent, hmove (by simp)⟩
  | take _ _ => exact ⟨hsent, hmove (afterPop_ne_enQueuing _)⟩
  | resume _ _ => exact ⟨hsent, hmove (afterPop_ne_enQueuing _)⟩
  | print _ _ => exact ⟨hsent, hmove (by simp)⟩
  | printNothing _ _ => exact ⟨hsent, hmove (by simp)⟩
  | write _ => exact ⟨hsent, hmove (by simp)⟩
  | free _ _ => exact ⟨hsent, hmove (by simp)⟩
  | finish _ => exact ⟨hsent, hmove (by simp)⟩
  | create _ _ => exact ⟨hsent, hmove (by simp)⟩
  | _ => exact ⟨hsent, hpc⟩

/-- The file, opened with the contents `file`, has one line for each message written. -/
def Logged (file : Bytes) (s : State ι Tid) : Prop :=
  s.mFile = some (file ++ (s.written.map logLine).flatten)

theorem logged_step {file : Bytes} {s s' : State ι Tid} {a : Action Tid ι} (h : Step s a s')
    (hf : Logged file s) : Logged file s' := by
  unfold Logged at hf ⊢
  cases h with
  | write hpc =>
      simp only [hf, writeStringToLog_eq]
      simp
  | _ => exact hf

/-! ### What is promised about the messages -/

/-- **The promise**, for the logger thread `t` and a file opened with the contents `file`.  The log
is a prefix of the messages enqueued, in the file as in the record.  When the thread has left its
loop, the messages that are not in the log are those in the queue; and each message sent before
`stop` was called is either in the log or in the queue. -/
structure Accounted (file : Bytes) (t : Tid) (s : State ι Tid) : Prop where
  log_prefix : s.written <+: s.enqueued
  logged : s.mFile = some (file ++ (s.written.map logLine).flatten)
  rest : (s.pc t).notLeft = false → ∀ L, (mqueueFifo ι).Holds s.mBlockingQueue.queue L →
    s.enqueued = s.written ++ L.map fun i => text (s.item i)
  sent : (s.pc t).notLeft = false → ∀ L, (mqueueFifo ι).Holds s.mBlockingQueue.queue L →
    ∀ k ∈ s.sentBeforeStop, ∃ message, s.enqueued[k]? = some message ∧
      (s.written[k]? = some message ∨
        ∃ i, L[k - s.written.length]? = some i ∧ text (s.item i) = message)

/-- The messages of the machine that is stopped once. -/
structure Delivery (file : Bytes) (t : Tid) (s : State ι Tid) (L : List ι) : Prop where
  holds : (mqueueFifo ι).Holds s.mBlockingQueue.queue L
  owned : Owned s.pc s.item L
  inOrder : InOrder t s L
  counted : Counted s
  logged : Logged file s

theorem delivery_constructed (file : Bytes) (t : Tid) :
    Delivery file t (constructed ι (some file) t) [] where
  holds := (mqueueFifo ι).holds_empty
  owned := by
    have hnone : ∀ c, ((constructed ι (some file) t).pc c).holds = none := by
      intro c
      by_cases hct : c = t
      · subst hct
        simp [constructed, Pc.holds]
      · simp [constructed, update_of_ne hct, Pc.holds]
    refine ⟨List.nodup_nil, by simp, fun c => ?_, fun c i hc => ?_, fun c d i hc => ?_⟩
    · by_cases hct : c = t
      · subst hct
        simp [constructed, Carries]
      · simp [constructed, update_of_ne hct, Carries]
    · rw [hnone c] at hc
      exact absurd hc (by simp)
    · rw [hnone c] at hc
      exact absurd hc (by simp)
  inOrder := by simp [InOrder, constructed, fresh, inHand]
  counted := by
    refine ⟨by simp [constructed, fresh], fun c k hc => ?_⟩
    by_cases hct : c = t
    · subst hct
      simp [constructed] at hc
    · simp [constructed, update_of_ne hct] at hc
  logged := by simp [Logged, constructed, fresh]

theorem delivery_step {file : Bytes} {t : Tid} {s s' : State ι Tid} {a : Action Tid ι}
    {L : List ι} (h : Step s a s') (hr : Running t s) (hd : Delivery file t s L) :
    Delivery file t s' (a.onQueue L) := by
  obtain ⟨hL, hpop⟩ := holds_step h hr.2 hd.holds
  exact ⟨hL, owned_step h hpop hd.owned, inOrder_step h hr.1.solo hpop hd.owned hd.inOrder,
    counted_step h hd.counted, logged_step h hd.logged⟩

omit [DecidableEq Tid] in
theorem Delivery.accounted {file : Bytes} {t : Tid} {s : State ι Tid} {L : List ι}
    (h : Delivery file t s L) : Accounted file t s := by
  have hrest : (s.pc t).notLeft = false →
      s.enqueued = s.written ++ L.map fun i => text (s.item i) := by
    intro hleft
    have hin := h.inOrder
    unfold InOrder at hin
    have hnone : inHand s.item (s.pc t) = [] := by
      cases hp : s.pc t with
      | popped i => simp [hp, Pc.notLeft, Pc.inLoop] at hleft
      | printed i l => simp [hp, Pc.notLeft, Pc.inLoop] at hleft
      | _ => rfl
    rw [hin, hnone, List.append_nil]
  refine ⟨?_, h.logged, fun hleft M hM => ?_, fun hleft M hM k hk => ?_⟩
  · have hin := h.inOrder
    unfold InOrder at hin
    rw [hin, List.append_assoc]
    exact List.prefix_append _ _
  · rw [(mqueueFifo ι).holds_unique hM h.holds]
    exact hrest hleft
  · rw [(mqueueFifo ι).holds_unique hM h.holds]
    have hlt := h.counted.1 k hk
    refine ⟨s.enqueued[k], List.getElem?_eq_getElem hlt, ?_⟩
    have he := hrest hleft
    by_cases hw : k < s.written.length
    · left
      rw [← List.getElem?_eq_getElem hlt, he, List.getElem?_append_left hw]
    · right
      have hk' : (L.map fun i => text (s.item i))[k - s.written.length]? = some s.enqueued[k] := by
        rw [← List.getElem?_eq_getElem hlt]
        conv_rhs => rw [he]
        rw [List.getElem?_append_right (by omega)]
      rw [List.getElem?_map] at hk'
      obtain ⟨i, hi, hti⟩ := Option.map_eq_some_iff.1 hk'
      exact ⟨i, hi, hti⟩

end LoggerThread

open LoggerThread

/-- **The messages of a logger that is stopped once are accounted for**, in every reachable
state. -/
theorem messages_accounted {ι Tid : Type} [DecidableEq ι] [DecidableEq Tid] (file : Bytes) (t : Tid)
    {s : State ι Tid} (h : (oneStop ι (some file) t).Reachable s) : Accounted file t s := by
  have hinv : (oneStop ι (some file) t).Invariant
      fun s => Running t s ∧ ∃ L, Delivery file t s L := by
    refine (running_invariant (some file) t).relative ?_ ?_
    · rintro s rfl
      exact ⟨[], delivery_constructed file t⟩
    · rintro s a s' hr ⟨L, hd⟩ ⟨hs, -⟩
      exact ⟨_, delivery_step hs hr hd⟩
  obtain ⟨-, L, hd⟩ := hinv.reachable h
  exact hd.accounted

namespace LoggerThread

open Function

/-- Thread `1` sends the message `a` and returns; then `stop` is called, and the logger thread `0`
tests `mRunning` for the first time. -/
theorem unwritten_run : ∃ tr s, (oneStop ℕ (some []) (0 : ℕ)).Run (constructed ℕ (some []) 0) tr s ∧
    (s.pc 0).notLeft = false ∧ s.sentBeforeStop = [0] ∧ s.enqueued = [[97]] ∧ s.written = [] ∧
      tr.map Prod.snd = [.send 1 5 [97], .enQueue 1 5, .signal 1 none, .stop, .broadcast,
        .test 0] := by
  obtain ⟨m, -, hfree, hpush, -⟩ := (mqueueFifo ℕ).push_pop_empty 5
  have hnone := @BlockingQueue.isWaiting_update _ _ (fun _ => .idle) (fun _ => rfl) 1
    .signalling rfl
  have h₀ : (oneStop ℕ (some []) (0 : ℕ)).Run (constructed ℕ (some []) 0) []
      (constructed ℕ (some []) 0) := .nil
  have h₁ := h₀.snoc (And.intro (@Step.send ℕ ℕ _ _ _ 1 5 [97] rfl rfl) trivial)
  have h₂ := h₁.snoc (And.intro (Step.enQueue (t := 1) (i := 5) rfl (.enQueue rfl hfree hpush))
    trivial)
  have h₃ := h₂.snoc (And.intro (Step.signal (t := 1) rfl (.signalNobody rfl hnone)) trivial)
  have h₄ := h₃.snoc (And.intro (Step.stop rfl) rfl)
  have h₅ := h₄.snoc (And.intro (Step.broadcast rfl .exitQueue) trivial)
  have h₆ := h₅.snoc (And.intro (Step.leave (t := 0) (.inl rfl) rfl) trivial)
  exact ⟨_, _, h₆, rfl, rfl, rfl, rfl, rfl⟩

end LoggerThread

/-- A message sent before `stop` that the logger thread leaves in the queue. -/
theorem messages_accounted_left : ∃ s : State ℕ ℕ, (oneStop ℕ (some []) (0 : ℕ)).Reachable s ∧
    s.sentBeforeStop = [0] ∧ s.written = [] ∧ Accounted [] 0 s := by
  obtain ⟨tr, s, hrun, -, hsent, -, hw, -⟩ := unwritten_run
  have hs := hrun.reachable (.init rfl)
  exact ⟨s, hs, hsent, hw, messages_accounted [] 0 hs⟩

/-- **A message sent before `stop` need not be written**: the thread leaves its loop without it. -/
theorem message_not_written : ∃ tr s,
    (oneStop ℕ (some []) (0 : ℕ)).Run (constructed ℕ (some []) 0) tr s ∧
      (s.pc 0).notLeft = false ∧ s.sentBeforeStop = [0] ∧ s.enqueued = [[97]] ∧ s.written = [] ∧
      tr.map Prod.snd = [.send 1 5 [97], .enQueue 1 5, .signal 1 none, .stop, .broadcast,
        .test 0] :=
  unwritten_run

end VModule

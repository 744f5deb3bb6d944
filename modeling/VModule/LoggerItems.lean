/-
**The memory of the messages.**

`sendDebugMessage` allocates an item for each message, `_threadLoop` frees the items it has taken
from the queue, and `mqueue_free`, at the end, frees the head of the queue and no item.  So what has
been allocated and not freed when everybody is done is what is left in the queue.  This holds of a
logger that is started and stopped as often as one likes, with several threads in its loop.

Main definitions:

* `VModule.LoggerThread.Located` — each allocated item is in the queue or in the hand of a thread;
* `VModule.LoggerThread.Action.isSend`, `VModule.LoggerThread.Action.isFree` — the steps that
  allocate and free.

Main results:

* `VModule.LoggerThread.located_step` — no step leaves an item behind;
* `VModule.LoggerThread.live_run` — the items allocated are those sent and not freed;
* `VModule.items_accounted` — the items in any state of any run.
-/

import Mathlib.Data.Finset.Card
import VModule.LoggerMessages

set_option relaxedAutoImplicit false
set_option autoImplicit false

namespace VModule

open Function

namespace LoggerThread

variable {ι Tid : Type} [DecidableEq Tid]

/-! ### No item is left behind -/

/-- An item that is allocated is in the queue `L` or in the hand of a thread. -/
def Located (pc : Tid → Pc ι) (item : ι → Option (Option Bytes)) (L : List ι) : Prop :=
  ∀ i, item i ≠ none → i ∈ L ∨ ∃ c, (pc c).holds = some i

section Located

variable {pc : Tid → Pc ι} {item : ι → Option (Option Bytes)} {L : List ι} {c : Tid} {p q : Pc ι}

/-- A thread moves on with what it has in its hand. -/
theorem Located.move (h : Located pc item L) (hp : pc c = p) (hq : q.holds = p.holds) :
    Located (update pc c q) item L := by
  intro i hi
  refine (h i hi).imp id fun hd => ?_
  obtain ⟨d, hd⟩ := hd
  refine ⟨d, ?_⟩
  by_cases hdc : d = c
  · rw [hdc, update_self, hq, ← hp, ← hdc, hd]
  · rw [update_of_ne hdc, hd]

/-- A thread whose hand is empty gets an item. -/
theorem Located.get (h : Located pc item L) (hp : pc c = p) (hempty : p.holds = none) {i : ι}
    (hq : q.holds = some i) {item' : ι → Option (Option Bytes)} {L' : List ι}
    (hitem : ∀ j, item' j ≠ none → j = i ∨ item j ≠ none) (hL : ∀ j ∈ L, j = i ∨ j ∈ L') :
    Located (update pc c q) item' L' := by
  intro j hj
  by_cases hji : j = i
  · exact .inr ⟨c, by rw [update_self, hq, hji]⟩
  · rcases h j ((hitem j hj).resolve_left hji) with hin | hd
    · exact .inl ((hL j hin).resolve_left hji)
    · obtain ⟨d, hd⟩ := hd
      refine .inr ⟨d, ?_⟩
      have hdc : d ≠ c := by
        intro hdc
        rw [hdc, hp, hempty] at hd
        cases hd
      rw [update_of_ne hdc, hd]

/-- A thread lets its item go, into the queue or into the free memory. -/
theorem Located.drop (h : Located pc item L) (hp : pc c = p) {i : ι} (hi : p.holds = some i)
    {item' : ι → Option (Option Bytes)} {L' : List ι}
    (hitem : ∀ j, item' j ≠ none → item j ≠ none ∧ (j = i → j ∈ L')) (hL : ∀ j ∈ L, j ∈ L') :
    Located (update pc c q) item' L' := by
  intro j hj
  obtain ⟨halloc, hqueued⟩ := hitem j hj
  rcases h j halloc with hin | hd
  · exact .inl (hL j hin)
  · obtain ⟨d, hd⟩ := hd
    by_cases hdc : d = c
    · rw [hdc, hp, hi] at hd
      exact .inl (hqueued (Option.some_inj.1 hd).symm)
    · exact .inr ⟨d, by rw [update_of_ne hdc, hd]⟩

/-- A thread takes the first item of the queue, if there is one. -/
theorem Located.pop (h : Located pc item L) (hp : pc c = p) (hempty : p.holds = none) :
    Located (update pc c (Pc.afterPop L.head?)) item L.tail := by
  cases L with
  | nil => exact h.move hp (hempty.symm ▸ rfl)
  | cons i L =>
      refine h.get hp hempty (i := i) rfl (fun j hj => .inr hj) fun j hj => ?_
      exact List.mem_cons.1 hj

end Located

variable [DecidableEq ι]

/-- **No step leaves an item behind.** -/
theorem located_step {s s' : State ι Tid} {a : Action Tid ι} {L : List ι} (h : Step s a s')
    (hpop : a.Pops L) (hl : Located s.pc s.item L) : Located s'.pc s'.item (a.onQueue L) := by
  cases h with
  | @send c i m hpc hi =>
      refine hl.get hpc rfl (i := i) rfl (fun j hj => ?_) fun j hj => .inr hj
      by_cases hji : j = i
      · exact .inl hji
      · dsimp only at hj
        rw [update_of_ne hji] at hj
        exact .inr hj
  | @enQueue c i m q hpc hq =>
      refine hl.drop hpc (i := i) rfl (fun j hj => ⟨hj, fun hji => ?_⟩) fun j hj => ?_
      · exact List.mem_append_right _ (List.mem_singleton.2 hji)
      · exact List.mem_append_left _ hj
  | signal hpc hq => exact hl.move hpc rfl
  | enter hpc _ =>
      rcases hpc with hpc | hpc
      · exact hl.move hpc rfl
      · exact hl.move hpc rfl
  | leave hpc _ =>
      rcases hpc with hpc | hpc
      · exact hl.move hpc rfl
      · exact hl.move hpc rfl
  | take hpc hq =>
      obtain rfl := hpop
      exact hl.pop hpc rfl
  | resume hpc hq =>
      obtain rfl := hpop
      exact hl.pop hpc rfl
  | print hpc hi => exact hl.move hpc rfl
  | printNothing hpc hi => exact hl.move hpc rfl
  | write hpc => exact hl.move hpc rfl
  | @free c i hpc hi =>
      refine hl.drop hpc (i := i) rfl (fun j hj => ?_) fun j hj => hj
      dsimp only at hj
      have hji : j ≠ i := by
        intro hji
        rw [hji, update_self] at hj
        exact hj rfl
      rw [update_of_ne hji] at hj
      exact ⟨hj, fun h => absurd h hji⟩
  | finish hpc => exact hl.move hpc rfl
  | create hc hpc => exact hl.move hpc rfl
  | _ => exact hl

/-! ### How many items there are -/

def Action.isSend : Action Tid ι → Bool
  | .send _ _ _ => true
  | _ => false

def Action.isFree : Action Tid ι → Bool
  | .free _ => true
  | _ => false

/-- What a step does to the allocated items. -/
theorem item_step {s s' : State ι Tid} {a : Action Tid ι} (h : Step s a s') :
    (a.isSend = true ∧ a.isFree = false ∧
      ∃ i object, s.item i = none ∧ s'.item = update s.item i (some object)) ∨
    (a.isSend = false ∧ a.isFree = true ∧
      ∃ i, s.item i ≠ none ∧ s'.item = update s.item i none) ∨
    (a.isSend = false ∧ a.isFree = false ∧ s'.item = s.item) := by
  cases h with
  | send _ hi => exact .inl ⟨rfl, rfl, _, _, hi, rfl⟩
  | free _ hi => exact .inr (.inl ⟨rfl, rfl, _, hi, rfl⟩)
  | _ => exact .inr (.inr ⟨rfl, rfl, rfl⟩)

/-- **The items that are allocated** are those sent and not freed, and as many as that. -/
theorem live_run {mFile : Option Bytes} {tr : List (State ι Tid × Action Tid ι)} {s : State ι Tid}
    (h : (machine ι Tid mFile).Run (fresh ι Tid mFile) tr s) :
    ∃ live : Finset ι, (∀ i, i ∈ live ↔ s.item i ≠ none) ∧
      live.card + tr.countP (fun p => p.2.isFree) = tr.countP fun p => p.2.isSend := by
  induction h with
  | nil => exact ⟨∅, by simp [fresh], rfl⟩
  | @snoc tr s a s' _ hstep ih =>
      obtain ⟨live, hlive, hcard⟩ := ih
      rw [List.countP_append, List.countP_append, List.countP_singleton, List.countP_singleton]
      rcases item_step hstep with ⟨hsend, hfree, i, object, hi, hitem⟩ |
        ⟨hsend, hfree, i, hi, hitem⟩ | ⟨hsend, hfree, hitem⟩
      · have hnot : i ∉ live := fun hmem => (hlive i).1 hmem hi
        refine ⟨insert i live, fun j => ?_, ?_⟩
        · rw [Finset.mem_insert, hlive j, hitem]
          by_cases hji : j = i
          · simp [hji]
          · simp [hji]
        · rw [Finset.card_insert_of_notMem hnot]
          simp only [hsend, hfree, if_true, Bool.false_eq_true, if_false]
          omega
      · have hmem : i ∈ live := (hlive i).2 hi
        refine ⟨live.erase i, fun j => ?_, ?_⟩
        · rw [Finset.mem_erase, hlive j, hitem]
          by_cases hji : j = i
          · simp [hji]
          · simp [hji]
        · have hcard' := Finset.card_erase_add_one hmem
          simp only [hsend, hfree, if_true, Bool.false_eq_true, if_false]
          omega
      · refine ⟨live, fun j => by rw [hlive j, hitem], ?_⟩
        simp only [hsend, hfree, Bool.false_eq_true, if_false]
        omega

/-- The items of the queue and of the threads, in every reachable state. -/
structure Kept (s : State ι Tid) (L : List ι) : Prop where
  linked : ∀ c, Linked (s.pc c) (s.mBlockingQueue.pc c)
  holds : (mqueueFifo ι).Holds s.mBlockingQueue.queue L
  owned : Owned s.pc s.item L
  located : Located s.pc s.item L

theorem kept_invariant (mFile : Option Bytes) :
    (machine ι Tid mFile).Invariant fun s => ∃ L, Kept s L := by
  constructor
  · intro s hs
    rw [hs]
    refine ⟨[], fun _ => rfl, (mqueueFifo ι).holds_empty, ?_, fun i hi => absurd rfl hi⟩
    refine ⟨List.nodup_nil, by simp, fun c => trivial, fun c i hc => ?_, fun c d i hc => ?_⟩
    · cases hc
    · cases hc
  · intro s a s' hs hstep
    obtain ⟨L, hlinked, hholds, howned, hlocated⟩ := hs
    obtain ⟨hholds', hpop⟩ := holds_step hstep hlinked hholds
    exact ⟨a.onQueue L, linked_step hstep hlinked, hholds', owned_step hstep hpop howned,
      located_step hstep hpop hlocated⟩

end LoggerThread

open LoggerThread

/-- **The items in any state of any run.**  Each item that is allocated is in the queue, once, and
in no thread's hand, or in the hand of one thread and not in the queue; what a thread has in its
hand is allocated; and the items allocated are as many as have been sent and not freed.  So when no
thread has anything in its hand, what is not freed is what is in the queue. -/
theorem items_accounted {ι Tid : Type} [DecidableEq ι] [DecidableEq Tid] {mFile : Option Bytes}
    {tr : List (State ι Tid × LoggerThread.Action Tid ι)} {s : State ι Tid}
    (h : (LoggerThread.machine ι Tid mFile).Run (fresh ι Tid mFile) tr s) :
    ∃ (L : List ι) (live : Finset ι),
      (mqueueFifo ι).Holds s.mBlockingQueue.queue L ∧ L.Nodup ∧
      (∀ i, s.item i ≠ none ↔
        (i ∈ L ∧ ∀ c, (s.pc c).holds ≠ some i) ∨ (i ∉ L ∧ ∃! c, (s.pc c).holds = some i)) ∧
      (∀ i, i ∈ live ↔ s.item i ≠ none) ∧
      live.card + tr.countP (fun p => p.2.isFree) = tr.countP (fun p => p.2.isSend) ∧
      ((∀ c, (s.pc c).holds = none) →
        L.length + tr.countP (fun p => p.2.isFree) = tr.countP fun p => p.2.isSend) := by
  obtain ⟨L, -, hholds, howned, hlocated⟩ := (kept_invariant mFile).reachable
    (h.reachable (.init rfl))
  obtain ⟨live, hlive, hcard⟩ := live_run h
  have hwhere : ∀ i, s.item i ≠ none ↔
      (i ∈ L ∧ ∀ c, (s.pc c).holds ≠ some i) ∨ (i ∉ L ∧ ∃! c, (s.pc c).holds = some i) := by
    intro i
    constructor
    · intro hi
      by_cases hL : i ∈ L
      · exact .inl ⟨hL, fun c hc => howned.notQueued c i hc hL⟩
      · obtain ⟨c, hc⟩ := (hlocated i hi).resolve_left hL
        exact .inr ⟨hL, c, hc, fun d hd => howned.once d c i hd hc⟩
    · intro hi
      rcases hi with ⟨hL, -⟩ | ⟨-, c, hc, -⟩
      · obtain ⟨object, hobject⟩ := howned.queued i hL
        rw [hobject]
        exact Option.some_ne_none _
      · exact (howned.carries c).alloc hc
  refine ⟨L, live, hholds, howned.nodup, hwhere, hlive, hcard, fun hidle => ?_⟩
  have hqueue : live = L.toFinset := by
    ext i
    rw [hlive i, hwhere i, List.mem_toFinset]
    simp [hidle]
  rw [hqueue, List.toFinset_card_of_nodup howned.nodup] at hcard
  exact hcard

/-- Thread `1` sends a message in the item `5`, which the logger thread takes, writes and frees, and
has copied the next one into the item `6`. -/
theorem items_accounted_sent : ∃ (tr : List (State ℕ ℕ × LoggerThread.Action ℕ ℕ)) (s : State ℕ ℕ)
    (live : Finset ℕ),
    (LoggerThread.machine ℕ ℕ none).Run (fresh ℕ ℕ none) tr s ∧
      tr.map Prod.snd = [.start none, .resetId, .raise, .create (some 0), .storeId false, .test 0,
        .send 1 5 [97], .enQueue 1 5, .signal 1 none, .take 0 (some 5), .print 0, .write 0, .free 0,
        .send 1 6 [98]] ∧
      s.item 5 = none ∧ (s.pc 1).holds = some 6 ∧ (∀ i, i ∈ live ↔ s.item i ≠ none) ∧
      live.card + 1 = 2 := by
  obtain ⟨q, q', hfree, hpush, hlength, hpop, -⟩ := (mqueueFifo ℕ).push_pop_empty 5
  have hnone := @BlockingQueue.isWaiting_update _ _ (fun _ => .idle) (fun _ => rfl) 1
    .signalling rfl
  have h₀ : (LoggerThread.machine ℕ ℕ none).Run (fresh ℕ ℕ none) [] (fresh ℕ ℕ none) := .nil
  have h₁ := h₀.snoc (Step.start rfl rfl)
  have h₂ := h₁.snoc (Step.resetId rfl)
  have h₃ := h₂.snoc (Step.raise rfl)
  have h₄ := h₃.snoc (Step.create (t := 0) rfl rfl)
  have h₅ := h₄.snoc (Step.storeId (t := 0) rfl)
  have h₆ := h₅.snoc (Step.enter (t := 0) (.inl rfl) rfl)
  have h₇ := h₆.snoc (@Step.send ℕ ℕ _ _ _ 1 5 [97] rfl rfl)
  have h₈ := h₇.snoc (Step.enQueue (t := 1) (i := 5) rfl (.enQueue rfl hfree hpush))
  have h₉ := h₈.snoc (Step.signal (t := 1) rfl (.signalNobody rfl hnone))
  have h₁₀ := h₉.snoc (Step.take (t := 0) rfl (.take rfl hlength hpop))
  have h₁₁ := h₁₀.snoc (Step.print (t := 0) rfl rfl)
  have h₁₂ := h₁₁.snoc (Step.write (t := 0) rfl)
  have h₁₃ := h₁₂.snoc (Step.free (t := 0) rfl (Option.some_ne_none _))
  have hrun := h₁₃.snoc (@Step.send ℕ ℕ _ _ _ 1 6 [98] rfl rfl)
  obtain ⟨-, live, -, -, -, hlive, hcard, -⟩ := items_accounted hrun
  exact ⟨_, _, live, hrun, rfl, rfl, rfl, hlive, hcard⟩

end VModule

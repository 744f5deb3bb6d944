/-
**What an `AutoBuffer` owns, in every state that its users can reach.**

An operation is a row of elementary moves: a block is freed, a new one is allocated, one of the
caller's is adopted, one is handed out.  Each move keeps the invariant, so every operation does, and
with it every run.

Main definitions:

* `VModule.AutoBuffer.Move`, `VModule.AutoBuffer.Moves` — one move of a buffer, and a row of them;
* `VModule.Buffers.Sound` — every live block has one owner, and every buffer's books are balanced;
* `VModule.BuffersOwe` — what is owed in a state.

Main results:

* `VModule.AutoBuffer.Call.run_moves` — every operation is a row of moves;
* `VModule.Buffers.Sound.moves` — a move keeps the invariant;
* `VModule.autoBuffers_owe` — what is owed is owed in every reachable state.
-/

import VModule.AutoBuffer

set_option relaxedAutoImplicit false
set_option autoImplicit false

open Function

namespace VModule

namespace AutoBuffer

/-! ### Moves -/

/-- A buffer of zero size has no block, and any other a live block of its size. -/
def WF (b : AutoBuffer) (m : MallocHeap UInt8) : Prop :=
  (b.p = none ↔ b.s = 0) ∧ ∀ i, b.p = some i → ∃ data, m.blocks i = some data ∧ data.length = b.s

theorem wf_zero (m : MallocHeap UInt8) : zero.WF m :=
  ⟨by simp [zero], fun i hi => by simp [zero] at hi⟩

/-- A buffer without a block is the one of zero size. -/
theorem WF.eq_zero {b : AutoBuffer} {m : MallocHeap UInt8} (h : b.WF m) (hp : b.p = none) :
    b = zero := by
  have hs := h.1.1 hp
  cases b
  simp_all [zero]

/-- One move of a buffer, where `callers` are the blocks that belong to no buffer. -/
inductive Move (callers : Finset ℕ) :
    MallocHeap UInt8 → AutoBuffer → Event → MallocHeap UInt8 → AutoBuffer → Prop
  | free {m : MallocHeap UInt8} {b : AutoBuffer} {i : ℕ} {data : List UInt8} :
      b.p = some i → m.blocks i = some data → Move callers m b (.freed i) (m.drop i) zero
  | fresh {m : MallocHeap UInt8} {data : List UInt8} :
      data.length ≠ 0 →
      Move callers m zero (.acquired m.next) (m.new data) ⟨some m.next, data.length⟩
  | adopt {m : MallocHeap UInt8} {i : ℕ} {data : List UInt8} :
      i ∈ callers → m.blocks i = some data → data.length ≠ 0 →
      Move callers m zero (.acquired i) m ⟨some i, data.length⟩
  | handOut {m : MallocHeap UInt8} {b : AutoBuffer} {i : ℕ} :
      b.p = some i → Move callers m b (.handedOut i) m zero

/-- A row of moves. -/
inductive Moves : Finset ℕ → MallocHeap UInt8 → AutoBuffer → List Event → MallocHeap UInt8 →
    AutoBuffer → Prop
  | nil {callers : Finset ℕ} {m : MallocHeap UInt8} {b : AutoBuffer} : Moves callers m b [] m b
  | cons {callers : Finset ℕ} {m m' m'' : MallocHeap UInt8} {b b' b'' : AutoBuffer} {e : Event}
      {es : List Event} :
      Move callers m b e m' b' → Moves (Buffers.keep callers e) m' b' es m'' b'' →
      Moves callers m b (e :: es) m'' b''

theorem Move.moves {callers : Finset ℕ} {m m' : MallocHeap UInt8} {b b' : AutoBuffer} {e : Event}
    (h : Move callers m b e m' b') : Moves callers m b [e] m' b' :=
  .cons h .nil

/-- A new block of `size` bytes. -/
theorem Move.fresh_of_length {callers : Finset ℕ} {m : MallocHeap UInt8} {data : List UInt8}
    {size : ℕ} (hlen : data.length = size) (hs : size ≠ 0) :
    Move callers m zero (.acquired m.next) (m.new data) ⟨some m.next, size⟩ := by
  subst hlen
  exact .fresh hs

/-- One row of moves after another. -/
theorem Moves.append {callers : Finset ℕ} {m m' m'' : MallocHeap UInt8} {b b' b'' : AutoBuffer}
    {es es' : List Event} (h : Moves callers m b es m' b')
    (h' : Moves (es.foldl Buffers.keep callers) m' b' es' m'' b'') :
    Moves callers m b (es ++ es') m'' b'' := by
  induction h with
  | nil => exact h'
  | cons hmove _ ih => exact .cons hmove (ih h')

/-- Freeing does not change who owns the other blocks. -/
@[simp] theorem foldl_freedEvents (callers : Finset ℕ) (p : Option ℕ) :
    (freedEvents p).foldl Buffers.keep callers = callers := by
  cases p <;> rfl

/-! ### Every operation is a row of moves -/

/-- `clear` frees the block, if there is one. -/
theorem clear_moves {b : AutoBuffer} {m : MallocHeap UInt8} (h : b.WF m) (callers : Finset ℕ) :
    ∃ m', b.clear m = some ⟨m', zero, false, freedEvents b.p, none⟩ ∧
      Moves callers m b (freedEvents b.p) m' zero ∧
      ∀ i, b.p ≠ some i → m'.blocks i = m.blocks i := by
  cases hp : b.p with
  | none =>
      refine ⟨m, ?_, ?_, fun _ _ => rfl⟩
      · rw [clear, hp, MallocHeap.free_none]
        rfl
      · rw [h.eq_zero hp]
        exact .nil
  | some i =>
      obtain ⟨data, hi, _⟩ := h.2 i hp
      refine ⟨m.drop i, ?_, (Move.free hp hi).moves, ?_⟩
      · rw [clear, hp, MallocHeap.free_of_live hi]
        rfl
      · intro j hj
        exact m.drop_of_ne fun hji => hj (by rw [hji])

/-- `malloc` for a buffer of zero size gives it a new block, or nothing. -/
theorem fill_moves (size : ℕ) (granted : Option (ℕ → UInt8)) (d : Done) (hd : d.buf = zero)
    (callers : Finset ℕ) :
    ∃ es, (fill size granted d).events = d.events ++ es ∧
      Moves callers d.mem zero es (fill size granted d).mem (fill size granted d).buf := by
  by_cases hs : size = 0
  · exact ⟨[], by simp [fill, hs], by simp only [fill, if_pos hs, hd]; exact .nil⟩
  · cases granted with
    | none =>
        refine ⟨[], by simp [fill, hs, MallocHeap.malloc], ?_⟩
        simp only [fill, if_neg hs, MallocHeap.malloc, hd]
        exact .nil
    | some junk =>
        refine ⟨[.acquired d.mem.next], by simp [fill, hs, MallocHeap.malloc], ?_⟩
        simp only [fill, if_neg hs, MallocHeap.malloc]
        exact (Move.fresh_of_length (by simp) hs).moves

/-- A failed `malloc` leaves the heap alone. -/
theorem fill_mem_of_thrown {size : ℕ} {granted : Option (ℕ → UInt8)} {d : Done}
    (h : (fill size granted d).thrown = true) (hd : d.thrown = false) :
    (fill size granted d).mem = d.mem := by
  by_cases hs : size = 0
  · simp [fill, hs]
  · cases granted with
    | none => simp [fill, hs, MallocHeap.malloc]
    | some junk => simp [fill, hs, MallocHeap.malloc, hd] at h

/-- `realloc` frees the block and gives a new one with its contents, or leaves all as it is. -/
theorem resize_moves {newSize : ℕ} (hs : newSize ≠ 0) (granted : Option (ℕ → UInt8))
    {b : AutoBuffer} {m : MallocHeap UInt8} (h : b.WF m) (callers : Finset ℕ) :
    ∃ d, b.resize newSize granted m = some d ∧ Moves callers m b d.events d.mem d.buf := by
  cases hp : b.p with
  | none =>
      -- `realloc` of a null pointer is `malloc`
      obtain ⟨es, hes, hfill⟩ := fill_moves newSize granted ⟨m, zero, false, [], none⟩ rfl callers
      refine ⟨fill newSize granted ⟨m, zero, false, [], none⟩, ?_, ?_⟩
      · rw [h.eq_zero hp]
        cases granted <;> simp [resize, fill, hs, MallocHeap.realloc, MallocHeap.malloc, zero,
          freedEvents]
      · rw [hes, h.eq_zero hp]
        exact hfill
  | some i =>
      obtain ⟨old, hi, _⟩ := h.2 i hp
      cases granted with
      | none =>
          refine ⟨⟨m, b, true, [], none⟩, ?_, .nil⟩
          simp [resize, hs, hp, MallocHeap.realloc, hi]
      | some junk =>
          refine ⟨⟨(m.drop i).new (MallocHeap.resized old newSize junk), ⟨some m.next, newSize⟩,
            false, [.freed i, .acquired m.next], none⟩, ?_, ?_⟩
          · simp [resize, hs, hp, MallocHeap.realloc, hi, freedEvents]
          · have hlen := MallocHeap.length_resized old newSize junk
            exact .cons (Move.free hp hi) (Move.fresh_of_length hlen hs).moves

/-- **Every operation is a row of moves.** -/
theorem Call.run_moves (c : Call) {b : AutoBuffer} {m : MallocHeap UInt8} {callers : Finset ℕ}
    (h : b.WF m) (hc : c.Allowed callers m) (hmine : ∀ i ∈ callers, b.p ≠ some i) :
    ∃ d, c.run b m = some d ∧ Moves callers m b d.events d.mem d.buf := by
  obtain ⟨m', hclear, hmoves, hkeep⟩ := clear_moves h callers
  cases c with
  | allocate size granted =>
      obtain ⟨es, hes, hfill⟩ := fill_moves size granted
        ⟨m', zero, false, freedEvents b.p, none⟩ rfl callers
      refine ⟨_, by simp only [run, AutoBuffer.allocate, hclear, Option.map_some]; rfl, ?_⟩
      rw [hes]
      exact hmoves.append (by rw [foldl_freedEvents]; exact hfill)
  | resize newSize granted =>
      by_cases hs : newSize = 0
      · exact ⟨_, by simp only [run, AutoBuffer.resize, if_pos hs, hclear]; rfl, hmoves⟩
      · exact resize_moves hs granted h callers
  | clear => exact ⟨_, hclear, hmoves⟩
  | attach pointer size =>
      refine ⟨_, by simp only [run, AutoBuffer.attach, hclear, Option.map_some]; rfl, ?_⟩
      cases pointer with
      | none =>
          -- the buffer is of zero size already
          by_cases hs : size = 0
          · simp only [if_pos hs]
            exact hmoves
          · simp only [if_neg hs]
            exact hmoves
      | some i =>
          obtain ⟨hi, data, hdata, hsize⟩ := hc
          by_cases hs : size = 0
          · simp only [if_pos hs]
            exact hmoves
          · obtain rfl : size = data.length := by omega
            have hlive : m'.blocks i = some data := (hkeep i (hmine i hi)).trans hdata
            simp only [if_neg hs]
            refine hmoves.append ?_
            rw [foldl_freedEvents]
            exact (Move.adopt hi hlive hs).moves
  | detach =>
      refine ⟨_, rfl, ?_⟩
      cases hp : b.p with
      | none =>
          rw [h.eq_zero hp]
          exact .nil
      | some i =>
          simp only [AutoBuffer.detach, hp]
          exact (Move.handOut hp).moves

end AutoBuffer

namespace Buffers

/-! ### Owners -/

section Owners

variable {Buf : Type}

/-- The block that buffer `x` has. -/
def pointer (s : Buffers Buf) (x : Buf) : Option ℕ := (s.bufs x).bind AutoBuffer.p

/-- Every live block has one owner, which is a buffer or (`none`) the callers; and it is as long as
its buffer says. -/
structure Owned (s : Buffers Buf) (owner : ℕ → Option (Option Buf)) : Prop where
  pointer : ∀ x i, s.pointer x = some i ↔ owner i = some (some x)
  callers : ∀ i, i ∈ s.callers ↔ owner i = some none
  live : ∀ i, s.mem.blocks i = none ↔ owner i = none
  wf : ∀ x b, s.bufs x = some b → b.WF s.mem

variable {s : Buffers Buf} {x : Buf} {b : AutoBuffer}

theorem pointer_of_bufs (h : s.bufs x = some b) : s.pointer x = b.p := by
  simp [pointer, h]

/-- A buffer that looks at no other block than before keeps its size. -/
theorem wf_of_blocks {m m' : MallocHeap UInt8} (h : b.WF m)
    (hm : ∀ i, b.p = some i → m'.blocks i = m.blocks i) : b.WF m' := by
  refine ⟨h.1, fun i hi => ?_⟩
  obtain ⟨data, hdata, hlen⟩ := h.2 i hi
  exact ⟨data, (hm i hi).trans hdata, hlen⟩

end Owners

variable {Buf : Type} [DecidableEq Buf] {s : Buffers Buf} {x : Buf} {b b' : AutoBuffer}
  {m' : MallocHeap UInt8} {owner : ℕ → Option (Option Buf)}

theorem put_pointer (es : List AutoBuffer.Event) (b : Option AutoBuffer) (y : Buf) :
    (s.put x m' b es).pointer y = if y = x then b.bind AutoBuffer.p else s.pointer y := by
  by_cases hy : y = x
  · simp [pointer, put, hy]
  · simp [pointer, put, hy]

theorem put_bufs (es : List AutoBuffer.Event) (b : Option AutoBuffer) (y : Buf) :
    (s.put x m' b es).bufs y = if y = x then b else s.bufs y := by
  by_cases hy : y = x
  · simp [put, hy]
  · simp [put, hy]

/-- The owner of one block changes, which is seen by no buffer but the one that takes part: that one
had no other block before, and has this one afterwards if it is the owner. -/
theorem Owned.change (h : Owned s owner) {e : AutoBuffer.Event} {i : ℕ} {o : Option (Option Buf)}
    (hmine : ∀ j, b'.p = some j ↔ j = i ∧ o = some (some x))
    (hbefore : ∀ j, owner j = some (some x) → j = i)
    (hcallers : ∀ j, j ∈ keep s.callers e ↔ if j = i then o = some none else j ∈ s.callers)
    (hlive : m'.blocks i = none ↔ o = none)
    (hblocks : ∀ j, j ≠ i → m'.blocks j = s.mem.blocks j)
    (hothers : ∀ y, y ≠ x → owner i ≠ some (some y) ∧ o ≠ some (some y)) (hwf : b'.WF m') :
    Owned (s.put x m' (some b') [e]) (update owner i o) := by
  refine ⟨?_, ?_, ?_, ?_⟩
  · intro y j
    rw [put_pointer]
    by_cases hy : y = x
    · rw [if_pos hy, hy, Option.bind_some, hmine j]
      by_cases hj : j = i
      · rw [hj, update_self, and_iff_right rfl]
      · rw [update_of_ne hj]
        exact iff_of_false (fun h => hj h.1) fun h => hj (hbefore j h)
    · rw [if_neg hy, h.pointer y j]
      by_cases hj : j = i
      · rw [hj, update_self]
        exact iff_of_false (hothers y hy).1 (hothers y hy).2
      · rw [update_of_ne hj]
  · intro j
    refine (hcallers j).trans ?_
    by_cases hj : j = i
    · rw [if_pos hj, hj, update_self]
    · rw [if_neg hj, update_of_ne hj, h.callers]
  · intro j
    by_cases hj : j = i
    · rw [hj, update_self]
      exact hlive
    · rw [update_of_ne hj, ← h.live, ← hblocks j hj]
      exact Iff.rfl
  · intro y c hc
    rw [put_bufs] at hc
    by_cases hy : y = x
    · rw [if_pos hy] at hc
      obtain rfl := Option.some.inj hc
      exact hwf
    · rw [if_neg hy] at hc
      refine wf_of_blocks (h.wf y c hc) fun j hj => hblocks j ?_
      rintro rfl
      exact (hothers y hy).1 ((h.pointer y j).1 ((pointer_of_bufs hc).trans hj))

/-- **A move keeps every block with one owner.** -/
theorem Owned.move (h : Owned s owner) (hx : s.bufs x = some b) {e : AutoBuffer.Event}
    (hm : AutoBuffer.Move s.callers s.mem b e m' b') :
    ∃ owner', Owned (s.put x m' (some b') [e]) owner' := by
  have hown : ∀ j, owner j = some (some x) → b.p = some j := by
    intro j hj
    rw [← pointer_of_bufs hx]
    exact (h.pointer x j).2 hj
  have hmine : ∀ {i}, b.p = some i → owner i = some (some x) := fun hp =>
    (h.pointer x _).1 ((pointer_of_bufs hx).trans hp)
  have hone : ∀ i y, owner i = some (some x) → y ≠ x → owner i ≠ some (some y) := by
    intro i y hi hy hiy
    rw [hi] at hiy
    exact hy (by simpa using hiy.symm)
  cases hm with
  | @free _ i data hp hi =>
      refine ⟨_, h.change (i := i) (o := none) ?_ ?_ ?_ ?_ ?_ ?_ (AutoBuffer.wf_zero _)⟩
      · simp [AutoBuffer.zero]
      · exact fun j hj => Option.some.inj ((hown j hj).symm.trans hp)
      · intro j
        by_cases hj : j = i
        · simp [hj, keep, h.callers, hmine hp]
        · simp [hj, keep]
      · simp
      · exact fun j hj => s.mem.drop_of_ne hj
      · exact fun y hy => ⟨hone i y (hmine hp) hy, by simp⟩
  | @fresh data hdata =>
      have hnone : owner s.mem.next = none := (h.live _).1 (s.mem.fresh _ (Nat.le_refl _))
      refine ⟨_, h.change (i := s.mem.next) (o := some (some x)) ?_ ?_ ?_ ?_ ?_ ?_ ?_⟩
      · exact fun j => by simp [eq_comm]
      · exact fun j hj => absurd (hown j hj) (by simp [AutoBuffer.zero])
      · intro j
        by_cases hj : j = s.mem.next
        · simp [hj, keep, h.callers, hnone]
        · simp [hj, keep]
      · simp
      · exact fun j hj => s.mem.new_of_ne data hj
      · exact fun y hy => ⟨by simp [hnone], by simpa using Ne.symm hy⟩
      · exact ⟨by simp [hdata], fun j hj => ⟨data, by simp at hj; simp [← hj], rfl⟩⟩
  | @adopt i data hi hdata hs =>
      have ho := (h.callers i).1 hi
      refine ⟨_, h.change (i := i) (o := some (some x)) ?_ ?_ ?_ ?_ (fun _ _ => rfl) ?_ ?_⟩
      · exact fun j => by simp [eq_comm]
      · exact fun j hj => absurd (hown j hj) (by simp [AutoBuffer.zero])
      · intro j
        by_cases hj : j = i
        · simp [hj, keep]
        · simp [hj, keep]
      · simp [hdata]
      · exact fun y hy => ⟨by simp [ho], by simpa using Ne.symm hy⟩
      · exact ⟨by simp [hs], fun j hj => ⟨data, by simp at hj; simpa [← hj] using hdata, rfl⟩⟩
  | @handOut _ i hp =>
      refine ⟨_, h.change (i := i) (o := some none) ?_ ?_ ?_ ?_ (fun _ _ => rfl) ?_
        (AutoBuffer.wf_zero _)⟩
      · simp [AutoBuffer.zero]
      · exact fun j hj => Option.some.inj ((hown j hj).symm.trans hp)
      · intro j
        by_cases hj : j = i
        · simp [hj, keep]
        · simp [hj, keep]
      · simp [h.live, hmine hp]
      · exact fun y hy => ⟨hone i y (hmine hp) hy, by simp⟩

/-! ### Books -/

/-- How often a buffer has block `i`. -/
def held (p : Option ℕ) (i : ℕ) : ℕ := if p = some i then 1 else 0

/-- **What came to a buffer has left it again, or is there**; and what a buffer freed is gone, and
was freed by this buffer alone and only once. -/
structure Books (s : Buffers Buf) : Prop where
  ledger : ∀ x i, (s.history x).count (.acquired i) =
    (s.history x).count (.freed i) + (s.history x).count (.handedOut i) + held (s.pointer x) i
  once : ∀ x i, .freed i ∈ s.history x → s.mem.blocks i = none ∧ i < s.mem.next ∧
    (s.history x).count (.freed i) = 1 ∧ ∀ y, .freed i ∈ s.history y → y = x

theorem put_history (es : List AutoBuffer.Event) (b : Option AutoBuffer) (y : Buf) :
    (s.put x m' b es).history y = if y = x then s.history x ++ es else s.history y := by
  by_cases hy : y = x
  · simp [put, hy]
  · simp [put, hy]

/-- A move balances what comes with what leaves. -/
theorem move_balance {callers : Finset ℕ} {m : MallocHeap UInt8} {e : AutoBuffer.Event}
    (hm : AutoBuffer.Move callers m b e m' b') (i : ℕ) :
    [e].count (.acquired i) + held b.p i =
      [e].count (.freed i) + [e].count (.handedOut i) + held b'.p i := by
  cases hm with
  | free hp => simp [held, hp, AutoBuffer.zero, List.count_singleton]
  | fresh => simp [held, AutoBuffer.zero, List.count_singleton]
  | adopt => simp [held, AutoBuffer.zero, List.count_singleton]
  | handOut hp => simp [held, hp, AutoBuffer.zero, List.count_singleton]

/-- A block that is gone stays gone, and is not freed again. -/
theorem move_dead {callers : Finset ℕ} {m : MallocHeap UInt8} {e : AutoBuffer.Event}
    (hm : AutoBuffer.Move callers m b e m' b') {i : ℕ} (hi : m.blocks i = none)
    (hlt : i < m.next) : m'.blocks i = none ∧ i < m'.next ∧ e ≠ .freed i := by
  cases hm with
  | @free _ j data hp hj =>
      have hne : i ≠ j := by
        rintro rfl
        simp [hi] at hj
      exact ⟨(m.drop_of_ne hne).trans hi, hlt, by simpa using Ne.symm hne⟩
  | fresh => exact ⟨(m.new_of_ne _ (by omega)).trans hi, by simp; omega, by simp⟩
  | adopt => exact ⟨hi, hlt, by simp⟩
  | handOut => exact ⟨hi, hlt, by simp⟩

/-- What is freed was live and is gone. -/
theorem move_freed {callers : Finset ℕ} {m : MallocHeap UInt8} {i : ℕ}
    (hm : AutoBuffer.Move callers m b (.freed i) m' b') :
    m.blocks i ≠ none ∧ m'.blocks i = none ∧ i < m'.next := by
  cases hm with
  | free _ hi =>
      refine ⟨by simp [hi], m.drop_self i, ?_⟩
      rw [MallocHeap.drop_next]
      exact MallocHeap.lt_next hi

/-- **A move keeps the books.** -/
theorem Books.move (h : s.Books) (hx : s.bufs x = some b) {callers : Finset ℕ}
    {e : AutoBuffer.Event} (hm : AutoBuffer.Move callers s.mem b e m' b') :
    (s.put x m' (some b') [e]).Books := by
  -- no history names a block as freed that this move frees
  have hnew : ∀ y i, .freed i ∈ s.history y → e ≠ .freed i := by
    intro y i hi
    obtain ⟨hdead, hlt, _⟩ := h.once y i hi
    exact (move_dead hm hdead hlt).2.2
  have hmem : ∀ y i, .freed i ∈ (s.put x m' (some b') [e]).history y →
      .freed i ∈ s.history y ∨ (y = x ∧ e = .freed i) := by
    intro y i hi
    rw [put_history] at hi
    by_cases hy : y = x
    · rw [if_pos hy] at hi
      rcases List.mem_append.1 hi with hi | hi
      · exact .inl (hy ▸ hi)
      · exact .inr ⟨hy, (List.mem_singleton.1 hi).symm⟩
    · rw [if_neg hy] at hi
      exact .inl hi
  constructor
  · intro y i
    have hl := h.ledger y i
    rw [put_history, put_pointer]
    by_cases hy : y = x
    · have hb := move_balance hm i
      rw [hy, pointer_of_bufs hx] at hl
      rw [if_pos hy, if_pos hy, List.count_append, List.count_append, List.count_append]
      simp only [Option.bind_some]
      omega
    · rw [if_neg hy, if_neg hy]
      exact hl
  · intro y i hi
    obtain hold | ⟨rfl, rfl⟩ := hmem y i hi
    · obtain ⟨hdead, hlt, hcount, hone⟩ := h.once y i hold
      obtain ⟨hdead', hlt', hne⟩ := move_dead hm hdead hlt
      refine ⟨hdead', hlt', ?_, fun z hz => ?_⟩
      · rw [put_history]
        by_cases hy : y = x
        · have hz : [e].count (.freed i) = 0 := by simp [hne]
          rw [if_pos hy, List.count_append, hz, ← hy, hcount]
        · rw [if_neg hy]
          exact hcount
      · obtain hz | ⟨_, hz⟩ := hmem z i hz
        · exact hone z hz
        · exact absurd hz hne
    · obtain ⟨hlive, hdead, hlt⟩ := move_freed hm
      have hnone : ∀ z, .freed i ∉ s.history z := fun z hz => hnew z i hz rfl
      refine ⟨hdead, hlt, ?_, fun z hz => ?_⟩
      · rw [put_history, if_pos rfl, List.count_append, List.count_eq_zero_of_not_mem (hnone y)]
        simp
      · obtain hz | ⟨hz, _⟩ := hmem z i hz
        · exact absurd hz (hnone z)
        · exact hz

/-! ### What the actions keep -/

/-- **The invariant**: every live block has one owner, and the books are balanced. -/
structure Sound (s : Buffers Buf) : Prop where
  owned : ∃ owner, s.Owned owner
  books : s.Books

theorem put_put (es es' : List AutoBuffer.Event) (m : MallocHeap UInt8) (c c' : Option AutoBuffer) :
    (s.put x m c es).put x m' c' es' = s.put x m' c' (es ++ es') := by
  simp [put, List.append_assoc]

theorem put_nil (hx : s.bufs x = some b) : s.put x s.mem (some b) [] = s := by
  simp only [put, ← hx, List.append_nil, update_eq_self, List.foldl_nil]

/-- **A row of moves keeps the invariant.** -/
theorem Sound.moves (h : s.Sound) (hx : s.bufs x = some b) {callers : Finset ℕ}
    (hcallers : s.callers = callers) {m : MallocHeap UInt8} (hm : s.mem = m)
    {es : List AutoBuffer.Event} (hmoves : AutoBuffer.Moves callers m b es m' b') :
    (s.put x m' (some b') es).Sound := by
  induction hmoves generalizing s with
  | nil =>
      subst hcallers hm
      rw [put_nil hx]
      exact h
  | @cons _ _ m₁ _ _ b₁ _ e es hmove hrest ih =>
      subst hcallers hm
      obtain ⟨owner, howned⟩ := h.owned
      have h₁ : (s.put x m₁ (some b₁) [e]).Sound :=
        ⟨howned.move hx hmove, h.books.move hx hmove⟩
      have hput := ih h₁ (by simp [put]) rfl rfl
      rwa [put_put] at hput

omit [DecidableEq Buf] in
/-- Nothing changes but which buffers without a block exist. -/
theorem Owned.congr {t : Buffers Buf} (h : s.Owned owner) (hp : ∀ y, t.pointer y = s.pointer y)
    (hcallers : t.callers = s.callers) (hmem : t.mem = s.mem)
    (hwf : ∀ y c, t.bufs y = some c → c.WF t.mem) : t.Owned owner where
  pointer y i := by rw [hp]; exact h.pointer y i
  callers i := by rw [hcallers]; exact h.callers i
  live i := by rw [hmem]; exact h.live i
  wf := hwf

/-- The buffers that have no block may be constructed and destroyed. -/
theorem put_pointer_of_none (hx : s.pointer x = none) {c : Option AutoBuffer}
    (hc : c.bind AutoBuffer.p = none) (m : MallocHeap UInt8) (es : List AutoBuffer.Event)
    (y : Buf) : (s.put x m c es).pointer y = s.pointer y := by
  rw [put_pointer]
  by_cases hy : y = x
  · rw [if_pos hy, hy, hx, hc]
  · rw [if_neg hy]

/-- A new buffer of zero size, with empty books. -/
theorem Sound.construct (h : s.Sound) (hx : s.bufs x = none) :
    (({ s with history := update s.history x [] } : Buffers Buf).put x s.mem
      (some .zero) []).Sound := by
  obtain ⟨⟨owner, howned⟩, hbooks⟩ := h
  have hp : s.pointer x = none := by simp [pointer, hx]
  have hpointer := put_pointer_of_none (s := { s with history := update s.history x [] }) hp
    (c := some .zero) rfl s.mem []
  have hhistory : ∀ y, y ≠ x → (({ s with history := update s.history x [] } : Buffers Buf).put x
      s.mem (some .zero) []).history y = s.history y := by
    intro y hy
    simp [put_history, hy]
  have hempty : (({ s with history := update s.history x [] } : Buffers Buf).put x
      s.mem (some .zero) []).history x = [] := by
    simp [put_history]
  refine ⟨⟨owner, howned.congr hpointer rfl rfl fun y c hc => ?_⟩, ⟨fun y i => ?_, ?_⟩⟩
  · rw [put_bufs] at hc
    by_cases hy : y = x
    · rw [if_pos hy] at hc
      obtain rfl := Option.some.inj hc
      exact AutoBuffer.wf_zero _
    · rw [if_neg hy] at hc
      exact howned.wf y c hc
  · rw [hpointer]
    by_cases hy : y = x
    · rw [hy, hempty]
      simp [pointer, hx, held]
    · rw [hhistory y hy]
      exact hbooks.ledger y i
  · intro y i hi
    have hne : ∀ z, .freed i ∈ (({ s with history := update s.history x [] } : Buffers Buf).put x
        s.mem (some .zero) []).history z → z ≠ x := by
      rintro z hz rfl
      rw [hempty] at hz
      simp at hz
    have hyx := hne y hi
    rw [hhistory y hyx] at hi ⊢
    obtain ⟨hdead, hlt, hcount, hone⟩ := hbooks.once y i hi
    refine ⟨hdead, hlt, hcount, fun z hz => hone z ?_⟩
    rwa [hhistory z (hne z hz)] at hz

/-- A buffer without a block is gone, and its books are kept. -/
theorem Sound.destruct (h : s.Sound) (hx : s.bufs x = some b) (hp : b.p = none) :
    (s.put x s.mem none []).Sound := by
  obtain ⟨⟨owner, howned⟩, hbooks⟩ := h
  have hpointer := put_pointer_of_none ((pointer_of_bufs hx).trans hp) (c := none) rfl s.mem []
  have hhistory : ∀ y, (s.put x s.mem none []).history y = s.history y := by
    intro y
    rw [put_history]
    by_cases hy : y = x
    · simp [hy]
    · simp [hy]
  refine ⟨⟨owner, howned.congr hpointer rfl rfl fun y c hc => ?_⟩, ⟨fun y i => ?_, ?_⟩⟩
  · rw [put_bufs] at hc
    by_cases hy : y = x
    · simp [hy] at hc
    · rw [if_neg hy] at hc
      exact howned.wf y c hc
  · rw [hpointer, hhistory]
    exact hbooks.ledger y i
  · intro y i hi
    rw [hhistory] at hi
    obtain ⟨hdead, hlt, hcount, hone⟩ := hbooks.once y i hi
    rw [hhistory]
    exact ⟨hdead, hlt, hcount, fun z hz => hone z (by rwa [hhistory] at hz)⟩

omit [DecidableEq Buf] in
/-- A caller allocates a block. -/
theorem Sound.malloc (h : s.Sound) (data : List UInt8) :
    ({ s with mem := s.mem.new data, callers := insert s.mem.next s.callers } :
      Buffers Buf).Sound := by
  obtain ⟨⟨owner, howned⟩, hbooks⟩ := h
  have hnone : owner s.mem.next = none := (howned.live _).1 (s.mem.fresh _ (Nat.le_refl _))
  refine ⟨⟨update owner s.mem.next (some none), fun y i => ?_, fun i => ?_, fun i => ?_,
    fun y c hc => ?_⟩, ⟨hbooks.ledger, fun y i hi => ?_⟩⟩
  · rw [show ({ s with mem := s.mem.new data, callers := insert s.mem.next s.callers } :
      Buffers Buf).pointer y = s.pointer y from rfl, howned.pointer]
    by_cases hi : i = s.mem.next
    · simp [hi, hnone]
    · simp [hi]
  · by_cases hi : i = s.mem.next
    · simp [hi]
    · simp [hi, howned.callers]
  · by_cases hi : i = s.mem.next
    · simp [hi]
    · simp [hi, s.mem.new_of_ne data hi, howned.live]
  · refine wf_of_blocks (howned.wf y c hc) fun i hi => s.mem.new_of_ne data ?_
    rintro rfl
    obtain ⟨old, hold, _⟩ := (howned.wf y c hc).2 _ hi
    exact absurd (MallocHeap.lt_next hold) (Nat.lt_irrefl _)
  · obtain ⟨hdead, hlt, hrest⟩ := hbooks.once y i hi
    exact ⟨(s.mem.new_of_ne data (by omega)).trans hdead, Nat.lt_succ_of_lt hlt, hrest⟩

omit [DecidableEq Buf] in
/-- A caller frees a block of its own. -/
theorem Sound.free (h : s.Sound) {i : ℕ} (hi : i ∈ s.callers) :
    ({ s with mem := s.mem.drop i, callers := s.callers.erase i } : Buffers Buf).Sound := by
  obtain ⟨⟨owner, howned⟩, hbooks⟩ := h
  have ho := (howned.callers i).1 hi
  refine ⟨⟨update owner i none, fun y j => ?_, fun j => ?_, fun j => ?_,
    fun y c hc => ?_⟩, ⟨hbooks.ledger, fun y j hj => ?_⟩⟩
  · rw [show ({ s with mem := s.mem.drop i, callers := s.callers.erase i } :
      Buffers Buf).pointer y = s.pointer y from rfl, howned.pointer]
    by_cases hj : j = i
    · simp [hj, ho]
    · simp [hj]
  · by_cases hj : j = i
    · simp [hj]
    · simp [hj, howned.callers]
  · by_cases hj : j = i
    · simp [hj]
    · simp [hj, s.mem.drop_of_ne hj, howned.live]
  · refine wf_of_blocks (howned.wf y c hc) fun j hj => s.mem.drop_of_ne ?_
    rintro rfl
    have hoj := (howned.pointer y j).1 ((pointer_of_bufs hc).trans hj)
    simp [ho] at hoj
  · obtain ⟨hdead, hlt, hrest⟩ := hbooks.once y j hj
    refine ⟨?_, hlt, hrest⟩
    have hne : j ≠ i := by
      rintro rfl
      have hnone := (howned.live j).1 hdead
      simp [ho] at hnone
    exact (s.mem.drop_of_ne hne).trans hdead

omit [DecidableEq Buf] in
/-- Somebody writes into a live block. -/
theorem Sound.write (h : s.Sound) {i : ℕ} {old data : List UInt8} (hi : s.mem.blocks i = some old)
    (hlen : data.length = old.length) :
    ({ s with mem := s.mem.write i data } : Buffers Buf).Sound := by
  obtain ⟨⟨owner, howned⟩, hbooks⟩ := h
  have hnone : ∀ j, (s.mem.write i data).blocks j = none ↔ s.mem.blocks j = none := by
    intro j
    by_cases hj : j = i
    · rw [hj, s.mem.write_self data hi, hi]
      simp
    · rw [s.mem.write_of_ne data hj]
  refine ⟨⟨owner, howned.pointer, howned.callers, fun j => ?_, fun y c hc => ?_⟩,
    ⟨hbooks.ledger, fun y j hj => ?_⟩⟩
  · rw [hnone]
    exact howned.live j
  · refine ⟨(howned.wf y c hc).1, fun j hj => ?_⟩
    obtain ⟨was, hwas, hs⟩ := (howned.wf y c hc).2 j hj
    by_cases hji : j = i
    · refine ⟨data, by rw [hji]; exact s.mem.write_self data hi, ?_⟩
      rw [hji, hi] at hwas
      rw [hlen, Option.some.inj hwas, hs]
    · exact ⟨was, (s.mem.write_of_ne data hji).trans hwas, hs⟩
  · obtain ⟨hdead, hrest⟩ := hbooks.once y j hj
    exact ⟨(hnone j).2 hdead, hrest⟩

theorem exec_call (hx : s.bufs x = some b) {c : AutoBuffer.Call} {d : AutoBuffer.Done}
    (hd : c.run b s.mem = some d) :
    s.exec (.call x c) = some (s.put x d.mem (some d.buf) d.events) := by
  simp [Buffers.exec, hx, hd]

theorem exec_destruct (hx : s.bufs x = some b) {d : AutoBuffer.Done}
    (hd : b.clear s.mem = some d) :
    s.exec (.destruct x) = some (s.put x d.mem none d.events) := by
  obtain ⟨m, hm, rfl⟩ := Option.map_eq_some_iff.1 hd
  simp [Buffers.exec, AutoBuffer.destruct, hx, hm]

/-- **Whatever is allowed has a result, and keeps the invariant.** -/
theorem Sound.exec (h : s.Sound) {a : BufferAction Buf} (ha : s.Allowed a) :
    ∃ s', s.exec a = some s' ∧ s'.Sound := by
  cases a with
  | construct x size granted =>
      obtain ⟨es, hes, hmoves⟩ := AutoBuffer.fill_moves size granted
        ⟨s.mem, .zero, false, [], none⟩ rfl s.callers
      have hfilled := (h.construct ha).moves (x := x) (by simp [put]) rfl rfl hmoves
      rw [put_put] at hfilled
      cases ht : (AutoBuffer.construct size granted s.mem).thrown with
      | true =>
          refine ⟨_, by simp only [Buffers.exec, ht, if_true]; rfl, ?_⟩
          rw [AutoBuffer.construct, AutoBuffer.fill_mem_of_thrown ht rfl]
          exact h
      | false =>
          refine ⟨_, by simp only [Buffers.exec, ht, Bool.false_eq_true, if_false]; rfl, ?_⟩
          rw [AutoBuffer.construct, hes]
          exact hfilled
  | call x c =>
      obtain ⟨b, hb⟩ := Option.isSome_iff_exists.1 ha.1
      obtain ⟨owner, howned⟩ := h.owned
      have hmine : ∀ i ∈ s.callers, b.p ≠ some i := by
        intro i hi hp
        have hx := (howned.pointer x i).1 ((pointer_of_bufs hb).trans hp)
        simp [(howned.callers i).1 hi] at hx
      obtain ⟨d, hd, hmoves⟩ := c.run_moves (howned.wf x b hb) ha.2 hmine
      exact ⟨_, exec_call hb hd, h.moves hb rfl rfl hmoves⟩
  | destruct x =>
      obtain ⟨b, hb⟩ := Option.isSome_iff_exists.1 ha
      obtain ⟨owner, howned⟩ := h.owned
      obtain ⟨m, hclear, hmoves, _⟩ := AutoBuffer.clear_moves (howned.wf x b hb) s.callers
      have hempty := (h.moves hb rfl rfl hmoves).destruct (x := x) (b := .zero) (by simp [put]) rfl
      rw [put_put, List.append_nil] at hempty
      exact ⟨_, exec_destruct hb hclear, hempty⟩
  | malloc size granted =>
      cases granted with
      | none => exact ⟨s, rfl, h⟩
      | some junk => exact ⟨_, rfl, h.malloc _⟩
  | free i =>
      obtain ⟨owner, howned⟩ := h.owned
      have hlive : s.mem.blocks i ≠ none := by
        rw [ne_eq, howned.live, (howned.callers i).1 ha]
        simp
      obtain ⟨data, hi⟩ := Option.ne_none_iff_exists'.1 hlive
      exact ⟨_, by simp only [Buffers.exec, MallocHeap.free_of_live hi]; rfl, h.free ha⟩
  | write i data =>
      obtain ⟨old, hold, hlen⟩ := ha
      exact ⟨_, rfl, h.write hold hlen⟩

end Buffers

/-- **The invariant holds in every run.** -/
theorem invariant_sound (Buf : Type) [DecidableEq Buf] :
    (autoBuffers Buf).Invariant Buffers.Sound where
  init s := by
    rintro rfl
    refine ⟨⟨fun _ => none, ?_, ?_, ?_, ?_⟩, ⟨?_, ?_⟩⟩
    · intro x i
      simp [Buffers.pointer, Buffers.start]
    · intro i
      simp [Buffers.start]
    · intro i
      simp [Buffers.start, MallocHeap.empty]
    · intro x b hb
      simp [Buffers.start] at hb
    · intro x i
      simp [Buffers.held, Buffers.pointer, Buffers.start]
    · intro x i hi
      simp [Buffers.start] at hi
  step s a s' h hs := by
    obtain ⟨s₁, hs₁, hsound⟩ := h.exec hs.1
    obtain rfl := Option.some.inj (hs₁.symm.trans hs.2)
    exact hsound

/-! ### What is owed -/

/-- **What is owed in a state.** -/
structure BuffersOwe {Buf : Type} [DecidableEq Buf] (s : Buffers Buf) : Prop where
  /-- A buffer has no block exactly if it is of zero size, and else a live one of its size that
  belongs to no one else. -/
  get : ∀ x b, s.bufs x = some b → (b.p = none ↔ b.s = 0) ∧ ∀ i, b.p = some i →
    (∃ data, s.mem.blocks i = some data ∧ data.length = b.s) ∧ i ∉ s.callers ∧
      ∀ y c, s.bufs y = some c → c.p = some i → y = x
  /-- Nothing that is allowed frees a block that is not live. -/
  exec : ∀ a, s.Allowed a → ∃ s', s.exec a = some s'
  /-- A failed `resize` changes nothing. -/
  resize : ∀ x b size, s.bufs x = some b → size ≠ 0 →
    b.resize size none s.mem = some ⟨s.mem, b, true, [], none⟩ ∧
      s.exec (.call x (.resize size none)) = some s
  /-- A failed `allocate` leaves the buffer empty. -/
  allocate : ∀ x b size, s.bufs x = some b → size ≠ 0 → ∃ d, b.allocate size none s.mem = some d ∧
    d.thrown = true ∧ d.buf = .zero
  /-- After a failed constructor all is as before. -/
  construct : ∀ x size, size ≠ 0 → s.exec (.construct x size none) = some s
  /-- What came to a buffer was freed or handed out, or is its block; after the destructor, the
  buffer has none. -/
  ledger : ∀ x i, (s.history x).count (.acquired i) = (s.history x).count (.freed i) +
    (s.history x).count (.handedOut i) + if (s.bufs x).bind AutoBuffer.p = some i then 1 else 0
  /-- A freed block is gone, and no buffer frees it again. -/
  once : ∀ x i, .freed i ∈ s.history x → s.mem.blocks i = none ∧
    (s.history x).count (.freed i) = 1 ∧ ∀ y, .freed i ∈ s.history y → y = x
  /-- A block that `attach` rejects stays with the caller. -/
  attach : ∀ x i s', s.Allowed (.call x (.attach (some i) 0)) →
    s.exec (.call x (.attach (some i) 0)) = some s' →
      i ∈ s'.callers ∧ s'.mem.blocks i = s.mem.blocks i ∧ s'.bufs x = some .zero

namespace AutoBuffer

/-- A failed `realloc` changes nothing. -/
theorem resize_failed {b : AutoBuffer} {m : MallocHeap UInt8} (h : b.WF m) {size : ℕ}
    (hs : size ≠ 0) : b.resize size none m = some ⟨m, b, true, [], none⟩ := by
  cases hp : b.p with
  | none => simp [resize, hs, hp, MallocHeap.realloc, MallocHeap.malloc]
  | some i =>
      obtain ⟨data, hi, _⟩ := h.2 i hp
      simp [resize, hs, hp, MallocHeap.realloc, hi]

end AutoBuffer

/-- **What is owed is owed in every state that any use of any number of buffers reaches.** -/
theorem autoBuffers_owe (Buf : Type) [DecidableEq Buf] (s : Buffers Buf)
    (h : (autoBuffers Buf).Reachable s) : BuffersOwe s := by
  have hsound := (invariant_sound Buf).reachable h
  obtain ⟨owner, howned⟩ := hsound.owned
  have howner : ∀ x b i, s.bufs x = some b → b.p = some i → owner i = some (some x) := by
    intro x b i hb hp
    exact (howned.pointer x i).1 ((Buffers.pointer_of_bufs hb).trans hp)
  refine ⟨?_, ?_, ?_, ?_, ?_, hsound.books.ledger, ?_, ?_⟩
  · intro x b hb
    refine ⟨(howned.wf x b hb).1, fun i hp => ⟨(howned.wf x b hb).2 i hp, ?_, ?_⟩⟩
    · intro hi
      have hx := howner x b i hb hp
      simp [(howned.callers i).1 hi] at hx
    · intro y c hc hpc
      have hy := howner y c i hc hpc
      rw [howner x b i hb hp] at hy
      simpa using hy.symm
  · intro a ha
    obtain ⟨s', hs', _⟩ := hsound.exec ha
    exact ⟨s', hs'⟩
  · intro x b size hb hs
    have hfail := AutoBuffer.resize_failed (howned.wf x b hb) hs
    refine ⟨hfail, ?_⟩
    rw [Buffers.exec_call (c := .resize size none) hb hfail]
    exact congrArg some (Buffers.put_nil hb)
  · intro x b size hb hs
    obtain ⟨m, hclear, _⟩ := AutoBuffer.clear_moves (howned.wf x b hb) s.callers
    refine ⟨AutoBuffer.fill size none ⟨m, .zero, false, AutoBuffer.freedEvents b.p, none⟩, ?_⟩
    simp [AutoBuffer.allocate, hclear, AutoBuffer.fill, hs, MallocHeap.malloc]
  · intro x size hs
    simp [Buffers.exec, AutoBuffer.construct, AutoBuffer.fill, hs, MallocHeap.malloc]
  · intro x i hi
    obtain ⟨hdead, _, hrest⟩ := hsound.books.once x i hi
    exact ⟨hdead, hrest⟩
  · intro x i s' ha hs'
    obtain ⟨b, hb⟩ := Option.isSome_iff_exists.1 ha.1
    obtain ⟨hi, _⟩ := ha.2
    obtain ⟨m, hclear, _, hkeep⟩ := AutoBuffer.clear_moves (howned.wf x b hb) s.callers
    have hrun : (AutoBuffer.Call.attach (some i) 0).run b s.mem =
        some ⟨m, .zero, false, AutoBuffer.freedEvents b.p, none⟩ := by
      simp [AutoBuffer.Call.run, AutoBuffer.attach, hclear]
    obtain rfl := Option.some.inj ((Buffers.exec_call hb hrun).symm.trans hs')
    refine ⟨?_, hkeep i fun hp => ?_, by simp [Buffers.put]⟩
    · simpa [Buffers.put] using hi
    · have hx := howner x b i hb hp
      simp [(howned.callers i).1 hi] at hx

/-- The block of a buffer is detached, attached again, and kept by a `resize` that fails. -/
theorem autoBuffers_owe_construct : ∃ tr s, (autoBuffers Unit).Run .start tr s ∧
    tr.map Prod.snd = [.construct () 4 (some fun _ => 0), .call () .detach,
      .call () (.attach (some 0) 4), .call () (.resize 8 none)] ∧
    s.bufs () = some ⟨some 0, 4⟩ ∧ s.callers = ∅ ∧
    s.history () = [.acquired 0, .handedOut 0, .acquired 0] ∧ BuffersOwe s := by
  have h₀ : (autoBuffers Unit).Run .start [] .start := .nil
  have h₁ := h₀.snoc (a := BufferAction.construct () 4 (some fun _ => 0)) ⟨rfl, rfl⟩
  have h₂ := h₁.snoc (a := BufferAction.call () .detach) ⟨⟨rfl, trivial⟩, rfl⟩
  have h₃ := h₂.snoc (a := BufferAction.call () (.attach (some 0) 4))
    ⟨⟨rfl, Finset.mem_insert_self _ _, [0, 0, 0, 0], rfl, .inl rfl⟩, rfl⟩
  have h₄ := h₃.snoc (a := BufferAction.call () (.resize 8 none)) ⟨⟨rfl, trivial⟩, rfl⟩
  have howe := autoBuffers_owe Unit _ (h₄.reachable (.init rfl))
  exact ⟨_, _, h₄, rfl, rfl, by decide, rfl, howe⟩

end VModule

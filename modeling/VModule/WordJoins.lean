/-
**Texts that are put together with a word, and taken apart again.**

A row of pieces with a word between them is a text, and the scan for the word finds the pieces again
if in no piece with the word behind it the word stands anywhere but at the end.  That the pieces do
not have the word in them is enough only for a word that cannot overlap itself.

When one word is replaced by another, the scan for the second finds the places again under the same
condition; if it does not, then what comes of replacing the words back is another text.

Main definitions:

* `Words.EndsAt` — the word stands behind the piece, and nowhere before;
* `Words.Apart` — so it does behind all pieces but the last.

Main results:

* `Words.pieces_intercalate_iff` — **when a joined row comes apart again**;
* `Words.Unbordered.endsAt_iff`, `Words.unbordered_singleton` — the words that cannot overlap
  themselves;
* `Words.fill_back_iff` — **when replacing a word can be undone**;
* `Words.marked_fill_of_last` — a word that ends with the letter it replaces.
-/

import VModule.Words

set_option relaxedAutoImplicit false
set_option autoImplicit false

namespace Words

variable {α : Type*} {f g p s t : List α} {i j n : ℕ} {ps : List (List α)}

/-! ### Pieces with a word behind them -/

/-- The word stands behind the piece, and nowhere before. -/
def EndsAt (f p : List α) : Prop := FirstAt f (p ++ f) p.length

instance [DecidableEq α] (f s : List α) (i : ℕ) : Decidable (FirstAt f s i) :=
  inferInstanceAs (Decidable (_ ∧ ∀ j < i, _))

/-- All pieces but the last come to an end where the word stands. -/
def Apart (f : List α) (ps : List (List α)) : Prop := ∀ p ∈ ps.dropLast, EndsAt f p

/-- An occurrence that is over before something else begins. -/
theorem occursAt_append_left (h : j + f.length ≤ s.length) :
    OccursAt f (s ++ t) j ↔ OccursAt f s j := by
  have hdrop : (s ++ t).drop j = s.drop j ++ t := List.drop_append_of_le_length (by omega)
  have htake : (s.drop j ++ t).take f.length = (s.drop j).take f.length :=
    List.take_append_of_le_length (by rw [List.length_drop]; omega)
  rw [OccursAt, OccursAt, hdrop, htake, List.length_append]
  refine and_congr_left fun _ => ?_
  omega

theorem occursAt_length (f p : List α) : OccursAt f (p ++ f) p.length :=
  occursAt_iff.2 ⟨p, [], (List.append_nil _).symm, rfl⟩

/-- What comes behind the word does not matter. -/
theorem firstAt_append_iff : FirstAt f (p ++ f ++ s) p.length ↔ EndsAt f p := by
  have hlocal : ∀ j ≤ p.length, OccursAt f (p ++ f ++ s) j ↔ OccursAt f (p ++ f) j := by
    intro j hj
    exact occursAt_append_left (by rw [List.length_append]; omega)
  rw [EndsAt, FirstAt, FirstAt, hlocal p.length (Nat.le_refl _)]
  refine and_congr_right fun _ => ?_
  constructor
  · intro h j hj
    rw [← hlocal j (Nat.le_of_lt hj)]
    exact h j hj
  · intro h j hj
    rw [hlocal j (Nat.le_of_lt hj)]
    exact h j hj

/-- A piece that comes to an end where the word stands does not have it inside. -/
theorem EndsAt.not_isInfix (hf : f ≠ []) (h : EndsAt f p) : ¬ f <:+: p := by
  have hno := h.not_isInfix_take hf
  rwa [List.take_left] at hno

/-- A word that cannot overlap itself ends all pieces that do not have it inside. -/
theorem Unbordered.endsAt_iff (hu : Unbordered f) (hf : f ≠ []) : EndsAt f p ↔ ¬ f <:+: p := by
  constructor
  · exact EndsAt.not_isInfix hf
  · intro hno
    refine ⟨occursAt_length f p, fun j hj hocc => ?_⟩
    rcases Nat.lt_or_ge p.length (j + f.length) with hlt | hge
    · have heq := hu.eq_of_occursAt hocc (occursAt_length f p) (Nat.le_of_lt hj) hlt
      omega
    · exact hno (isInfix_iff.2 ⟨j, (occursAt_append_left hge).1 hocc⟩)

theorem unbordered_singleton (c : α) : Unbordered [c] := by
  intro b hpre _
  rcases List.prefix_cons_iff.1 hpre with rfl | ⟨b, rfl, hb⟩
  · exact .inl rfl
  · exact .inr (by rw [List.prefix_nil.1 hb])

/-! ### Joined rows -/

theorem apart_cons_cons {q : List α} : Apart f (p :: q :: ps) ↔ EndsAt f p ∧ Apart f (q :: ps) := by
  rw [Apart, List.dropLast_cons_of_ne_nil (List.cons_ne_nil q ps), List.forall_mem_cons, Apart]

/-- How a text has been cut. -/
theorem pieces_cases (h : Pieces f s n ps) :
    ps = [s] ∧ (n = 1 ∨ 1 < n ∧ ¬ f <:+: s) ∨
      ∃ k i rest, n = k + 2 ∧ FirstAt f s i ∧ ps = s.take i :: rest ∧
        Pieces f (s.drop (i + f.length)) (k + 1) rest := by
  cases h with
  | cut => exact .inl ⟨rfl, .inl rfl⟩
  | last h =>
      refine .inl ⟨rfl, .inr ⟨by omega, ?_⟩⟩
      rw [isInfix_iff, not_exists]
      exact h
  | next hfirst hrest => exact .inr ⟨_, _, _, rfl, hfirst, rfl, hrest⟩

theorem pieces_singleton_iff :
    Pieces f p n [p] ↔ n = 1 ∨ 1 < n ∧ ¬ f <:+: p := by
  constructor
  · intro h
    rcases pieces_cases h with ⟨-, hn⟩ | ⟨k, i, rest, -, -, heq, hrest⟩
    · exact hn
    · exact absurd (List.cons.inj heq).2.symm hrest.ne_nil
  · intro h
    rcases h with rfl | ⟨hn, h⟩
    · exact .cut p
    · obtain ⟨k, rfl⟩ := Nat.exists_eq_add_of_le' hn
      rw [isInfix_iff, not_exists] at h
      exact .last h

theorem pieces_cons_iff {q : List α} :
    Pieces f (p ++ f ++ s) n (p :: q :: ps) ↔
      ∃ k, n = k + 2 ∧ EndsAt f p ∧ Pieces f s (k + 1) (q :: ps) := by
  have hdrop : (p ++ f ++ s).drop (p.length + f.length) = s := by
    rw [← List.length_append, List.drop_left]
  constructor
  · intro h
    rcases pieces_cases h with ⟨heq, -⟩ | ⟨k, i, rest, hn, hi, heq, hrest⟩
    · exact absurd (List.cons.inj heq).2 (List.cons_ne_nil q ps)
    obtain ⟨htake, rfl⟩ := List.cons.inj heq
    have hlen : i = p.length := by
      have hle := hi.1.1
      rw [← List.length_take_of_le hle, ← htake]
    rw [hlen] at hi hrest
    rw [hdrop] at hrest
    exact ⟨k, hn, firstAt_append_iff.1 hi, hrest⟩
  · intro h
    obtain ⟨k, rfl, hp, hrest⟩ := h
    have htake : (p ++ f ++ s).take p.length = p := by
      rw [List.append_assoc, List.take_left]
    have hnext := Pieces.next (firstAt_append_iff.2 hp) (hdrop.symm ▸ hrest)
    rwa [htake] at hnext

/-- **When a joined row comes apart again**, into no more than so many pieces. -/
theorem pieces_intercalate_iff (hps : ps ≠ []) :
    Pieces f (f.intercalate ps) n ps ↔
      Apart f ps ∧ (ps.length = n ∨ ps.length < n ∧ ∀ p ∈ ps.getLast?, ¬ f <:+: p) := by
  induction ps generalizing n with
  | nil => exact absurd rfl hps
  | cons p ps ih =>
      cases ps with
      | nil =>
          rw [List.intercalate_singleton, pieces_singleton_iff]
          simp [Apart, eq_comm]
      | cons q ps =>
          rw [List.intercalate_cons_of_ne_nil (List.cons_ne_nil q ps), pieces_cons_iff,
            apart_cons_cons]
          constructor
          · intro h
            obtain ⟨k, rfl, hp, hrest⟩ := h
            obtain ⟨hapart, hend⟩ := (ih (List.cons_ne_nil q ps)).1 hrest
            refine ⟨⟨hp, hapart⟩, ?_⟩
            rw [List.length_cons, List.getLast?_cons_cons]
            rcases hend with hlen | ⟨hlen, hlast⟩
            · exact .inl (by omega)
            · exact .inr ⟨by omega, hlast⟩
          · intro h
            obtain ⟨⟨hp, hapart⟩, hend⟩ := h
            rw [List.length_cons, List.getLast?_cons_cons] at hend
            have hlen : 2 ≤ n := by
              rw [List.length_cons] at hend
              omega
            obtain ⟨k, rfl⟩ := Nat.exists_eq_add_of_le' hlen
            refine ⟨k, rfl, hp, (ih (List.cons_ne_nil q ps)).2 ⟨hapart, ?_⟩⟩
            rcases hend with hlen | ⟨hlen, hlast⟩
            · exact .inl (by omega)
            · exact .inr ⟨by omega, hlast⟩

/-! ### Words replaced and put back -/

section Fill

variable [DecidableEq α]

/-- The word itself in place of the marks. -/
theorem fill_marked_self (hf : f ≠ []) (s : List α) : fill f (marked f s) = s := by
  induction s using scan_induction hf with
  | hnone s h => rw [marked_of_none h, fill_map_some]
  | hfirst s i h ih =>
      rw [h.marked hf, fill_append, fill_map_some, fill_cons_none, ih, ← List.append_assoc,
        ← h.eq_append]

omit [DecidableEq α] in
/-- Where the word stands, the first occurrence is there or before. -/
theorem exists_firstAt (h : OccursAt f s j) : ∃ i ≤ j, FirstAt f s i := by
  rcases none_or_firstAt f s with hnone | ⟨i, hi⟩
  · exact absurd h (hnone j)
  · refine ⟨i, ?_, hi⟩
    by_contra hlt
    exact hi.2 j (by omega) h

/-- A word put in place of the first mark stands there. -/
theorem occursAt_fill (hg : g ≠ []) (h : FirstAt g t i) : OccursAt f (fill f (marked g t)) i := by
  rw [h.marked hg, fill_append, fill_map_some, fill_cons_none, ← List.append_assoc]
  exact occursAt_iff.2 ⟨t.take i, _, rfl, List.length_take_of_le h.1.1⟩

/-- The scan for `g` comes to the first of the places where it has been put. -/
theorem marked_fill_of_firstAt (hf : f ≠ []) (hg : g ≠ []) (h : FirstAt f s i)
    (hi : FirstAt g (fill g (marked f s)) i) :
    marked g (fill g (marked f s)) =
      (s.take i).map some ++ none :: marked g (fill g (marked f (s.drop (i + f.length)))) := by
  have hfill : fill g (marked f s) =
      s.take i ++ g ++ fill g (marked f (s.drop (i + f.length))) := by
    rw [h.marked hf, fill_append, fill_map_some, fill_cons_none, List.append_assoc]
  have hlen : (s.take i).length = i := List.length_take_of_le h.1.1
  have htake : (fill g (marked f s)).take i = s.take i := by
    rw [hfill, List.append_assoc, List.take_left' hlen]
  have hdrop : (fill g (marked f s)).drop (i + g.length) =
      fill g (marked f (s.drop (i + f.length))) := by
    rw [hfill, List.drop_left' (by rw [List.length_append, hlen])]
  rw [hi.marked hg, htake, hdrop]

/-- **When replacing a word can be undone**: if and only if the scan for the new word comes to the
places where it has been put, and to no others. -/
theorem fill_back_iff (hf : f ≠ []) (hg : g ≠ []) (s : List α) :
    fill f (marked g (fill g (marked f s))) = s ↔
      marked g (fill g (marked f s)) = marked f s := by
  constructor
  swap
  · intro h
    rw [h, fill_marked_self hf]
  induction s using scan_induction hf with
  | hnone s h =>
      rw [marked_of_none h, fill_map_some]
      intro hback
      rcases none_or_firstAt g s with hnone | ⟨i, hi⟩
      · exact marked_of_none hnone
      · -- where `g` stands, there is `f` afterwards
        have hocc := occursAt_fill (f := f) hg hi
        rw [hback] at hocc
        exact absurd hocc (h i)
  | hfirst s i h ih =>
      intro hback
      have hput : OccursAt g (fill g (marked f s)) i := by
        rw [h.marked hf, fill_append, fill_map_some, fill_cons_none, ← List.append_assoc]
        exact occursAt_iff.2 ⟨s.take i, _, rfl, List.length_take_of_le h.1.1⟩
      obtain ⟨j, hj, hfirst⟩ := exists_firstAt hput
      have hocc := occursAt_fill (f := f) hg hfirst
      rw [hback] at hocc
      obtain rfl : j = i := by
        by_contra hne
        exact h.2 j (by omega) hocc
      rw [marked_fill_of_firstAt hf hg h hfirst] at hback ⊢
      rw [fill_append, fill_map_some, fill_cons_none, ← List.append_assoc] at hback
      rw [h.marked hf, ih (List.append_cancel_left (hback.trans h.eq_append))]

omit [DecidableEq α] in
/-- The letter with which the word ends. -/
theorem OccursAt.last {c : α} {w : List α} (h : OccursAt (w ++ [c]) s j) :
    s[j + w.length]? = some c := by
  obtain ⟨a, b, rfl, rfl⟩ := occursAt_iff.1 h
  rw [← List.length_append, ← List.append_assoc, List.append_assoc _ [c]]
  simp

omit [DecidableEq α] in
/-- Each mark is as long as the word that is put there. -/
theorem length_fill (g : List α) (ms : List (Option α)) :
    (fill g ms).length = (fill [] ms).length + ms.countP Option.isNone * g.length := by
  induction ms with
  | nil => rw [List.countP_nil, Nat.zero_mul]; rfl
  | cons o ms ih =>
      cases o with
      | none =>
          rw [fill_cons_none, fill_cons_none, List.length_append, ih,
            List.countP_cons_of_pos (by rfl), Nat.succ_mul, List.nil_append]
          omega
      | some a =>
          rw [List.countP_cons_of_neg (by simp)]
          change (fill g ms).length + 1 = (fill [] ms).length + 1 + _
          rw [ih]
          omega

/-- Nothing is taken out of the texts in which the word is not found. -/
theorem fill_nil_iff (hf : f ≠ []) (s : List α) :
    fill [] (marked f s) = s ↔ marked f s = s.map some := by
  constructor
  · intro h
    rcases none_or_firstAt f s with hnone | ⟨i, hi⟩
    · exact marked_of_none hnone
    · have hpos : 0 < (marked f s).countP Option.isNone := by
        rw [hi.marked hf, List.countP_pos_iff]
        exact ⟨none, by simp, rfl⟩
      have hlen := length_fill f (marked f s)
      rw [fill_marked_self hf, h] at hlen
      have hout := Nat.mul_pos hpos (List.length_pos_iff.2 hf)
      omega
  · intro h
    rw [h, fill_map_some]

/-- A word that ends with the letter it replaces, and has this letter only there, can be put
back. -/
theorem marked_fill_of_last {c : α} {w : List α} (hc : c ∉ w) (s : List α) :
    marked (w ++ [c]) (fill (w ++ [c]) (marked [c] s)) = marked [c] s := by
  have hg : w ++ [c] ≠ [] := by simp
  have hletter : [c] ≠ [] := List.cons_ne_nil c []
  induction s using scan_induction hletter with
  | hnone s h =>
      rw [marked_of_none h, fill_map_some]
      refine marked_of_none fun j hj => ?_
      obtain ⟨a, b, rfl, -⟩ := occursAt_iff.1 hj
      exact h _ (occursAt_iff.2 ⟨a ++ w, b, by simp, rfl⟩)
  | hfirst s i h ih =>
      have hbefore : c ∉ s.take i ++ w := by
        rw [List.mem_append, not_or]
        refine ⟨fun hmem => h.not_isInfix_take hletter ?_, hc⟩
        obtain ⟨a, b, hab⟩ := List.append_of_mem hmem
        exact ⟨a, b, by rw [hab, List.append_assoc]; rfl⟩
      have hlen : (s.take i).length = i := List.length_take_of_le h.1.1
      have hput : fill (w ++ [c]) (marked [c] s) =
          s.take i ++ (w ++ [c]) ++ fill (w ++ [c]) (marked [c] (s.drop (i + [c].length))) := by
        rw [h.marked hletter, fill_append, fill_map_some, fill_cons_none, ← List.append_assoc]
      have hfirst : FirstAt (w ++ [c]) (fill (w ++ [c]) (marked [c] s)) i := by
        rw [hput]
        refine ⟨occursAt_iff.2 ⟨s.take i, _, rfl, hlen⟩, fun j hj hocc => hbefore ?_⟩
        have hlast := hocc.last
        rw [← List.append_assoc, List.append_assoc _ [c],
          List.getElem?_append_left (by rw [List.length_append, hlen]; omega)] at hlast
        exact List.mem_of_getElem? hlast
      rw [marked_fill_of_firstAt hletter hg h hfirst, ih, h.marked hletter]

end Fill

end Words

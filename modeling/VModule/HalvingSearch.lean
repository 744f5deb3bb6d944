/-
**The halving search.**

The search looks at the middle of a window of the table and goes on in one half.  On a sorted table
it finds every entry.  On any other table it finds an entry exactly when the entry is on the right
side of every middle on the way to it, and which entries these are can be told by going through the
table once, half by half.

Main definitions:

* `HalvingSearch.bsearch` — the search, by a comparison;
* `HalvingSearch.reached` — the entries on the right side of every middle, with their positions;
* `HalvingSearch.apart` — two sorted lists are gone through side by side and never agree.

Main results:

* `HalvingSearch.bsearch_eq_some_iff` — the search finds the entries that are reached;
* `HalvingSearch.reached_of_sorted` — on a sorted table these are all entries;
* `HalvingSearch.pairwise_reached`, `HalvingSearch.not_mem_of_apart` — on any table they are sorted,
  so that they can be told from the elements of another sorted list.
-/

import Mathlib.Data.Int.Order.Basic
import Mathlib.Data.List.Chain
import Mathlib.Order.Lattice

set_option relaxedAutoImplicit false
set_option autoImplicit false

namespace HalvingSearch

variable {α : Type*}

/-- The search in the window from `l` up to `u`. -/
def bsearchLoop (compar : α → α → ℤ) (key : α) (base : List α) (l u : ℕ) : Option ℕ :=
  if l < u then
    match base[(l + u) / 2]? with
    | none => none
    | some elem =>
        if compar key elem < 0 then bsearchLoop compar key base l ((l + u) / 2)
        else if 0 < compar key elem then bsearchLoop compar key base ((l + u) / 2 + 1) u
        else some ((l + u) / 2)
  else none
termination_by u - l

/-- `bsearch`. -/
def bsearch (compar : α → α → ℤ) (key : α) (base : List α) : Option ℕ :=
  bsearchLoop compar key base 0 base.length

variable [LinearOrder α] {compar : α → α → ℤ}

/-- The entries of a part of the table, at the position `off` in it, that are on the right side of
every middle. -/
def reached : ℕ → List α → ℕ → List (α × ℕ)
  | 0, _, _ => []
  | fuel + 1, t, off =>
      match t.drop (t.length / 2) with
      | [] => []
      | m :: r =>
          (reached fuel (t.take (t.length / 2)) off).filter (fun e => e.1 < m) ++
            (m, off + t.length / 2) ::
              (reached fuel r (off + t.length / 2 + 1)).filter (fun e => m < e.1)

theorem reached_nil (fuel off : ℕ) : reached fuel ([] : List α) off = [] := by
  cases fuel with
  | zero => rfl
  | succ fuel => rw [reached, List.drop_nil]

/-- The comparison is that of the order. -/
def Compares (compar : α → α → ℤ) : Prop :=
  ∀ a b, (compar a b < 0 ↔ a < b) ∧ (0 < compar a b ↔ b < a)

/-- The entries that are reached, with the middle `m` of the part named. -/
theorem mem_reached_succ {fuel off i : ℕ} {t l r : List α} {m key : α} (ht : t = l ++ m :: r)
    (hl : l.length = t.length / 2) :
    (key, i) ∈ reached (fuel + 1) t off ↔
      ((key, i) ∈ reached fuel l off ∧ key < m) ∨ (key = m ∧ i = off + l.length) ∨
        ((key, i) ∈ reached fuel r (off + l.length + 1) ∧ m < key) := by
  have hdrop : t.drop (t.length / 2) = m :: r := by rw [← hl, ht, List.drop_left]
  have htake : t.take (t.length / 2) = l := by rw [← hl, ht, List.take_left]
  rw [reached, hdrop]
  dsimp only
  rw [htake, ← hl, List.mem_append, List.mem_cons, List.mem_filter, List.mem_filter, Prod.mk.injEq]
  simp only [decide_eq_true_eq]

/-- Before the middle, what is reached is in the left part. -/
theorem mem_reached_of_lt {fuel off i : ℕ} {t l r : List α} {m key : α} (ht : t = l ++ m :: r)
    (hl : l.length = t.length / 2) (h : key < m) :
    (key, i) ∈ reached (fuel + 1) t off ↔ (key, i) ∈ reached fuel l off := by
  rw [mem_reached_succ ht hl]
  constructor
  · rintro (hleft | ⟨heq, -⟩ | ⟨-, hgt⟩)
    · exact hleft.1
    · exact absurd heq (ne_of_lt h)
    · exact absurd hgt (lt_asymm h)
  · exact fun hleft => Or.inl ⟨hleft, h⟩

theorem mem_reached_middle {fuel off i : ℕ} {t l r : List α} {m : α} (ht : t = l ++ m :: r)
    (hl : l.length = t.length / 2) :
    (m, i) ∈ reached (fuel + 1) t off ↔ i = off + l.length := by
  rw [mem_reached_succ ht hl]
  constructor
  · rintro (⟨-, hlt⟩ | ⟨-, hi⟩ | ⟨-, hgt⟩)
    · exact absurd hlt (lt_irrefl m)
    · exact hi
    · exact absurd hgt (lt_irrefl m)
  · exact fun hi => Or.inr (Or.inl ⟨rfl, hi⟩)

/-- Behind the middle, what is reached is in the right part. -/
theorem mem_reached_of_gt {fuel off i : ℕ} {t l r : List α} {m key : α} (ht : t = l ++ m :: r)
    (hl : l.length = t.length / 2) (h : m < key) :
    (key, i) ∈ reached (fuel + 1) t off ↔ (key, i) ∈ reached fuel r (off + l.length + 1) := by
  rw [mem_reached_succ ht hl]
  constructor
  · rintro (⟨-, hlt⟩ | ⟨heq, -⟩ | hright)
    · exact absurd hlt (lt_asymm h)
    · exact absurd heq (ne_of_gt h)
    · exact hright.1
  · exact fun hright => Or.inr (Or.inr ⟨hright, h⟩)

omit [LinearOrder α] in
/-- The middle stands behind the left part. -/
theorem getElem?_middle (l : List α) (m : α) (r : List α) : (l ++ m :: r)[l.length]? = some m := by
  rw [List.getElem?_append_right (Nat.le_refl _), Nat.sub_self, List.getElem?_cons_zero]

omit [LinearOrder α] in
/-- The right part stands behind the middle. -/
theorem getElem?_right (l : List α) (m : α) (r : List α) (j : ℕ) :
    (l ++ m :: r)[l.length + j + 1]? = r[j]? := by
  rw [Nat.add_assoc, List.getElem?_append_right (Nat.le_add_right _ _), Nat.add_sub_cancel_left,
    List.getElem?_cons_succ]

omit [LinearOrder α] in
/-- A part of the table that is not empty has a middle. -/
theorem exists_middle {t : List α} (h : t ≠ []) :
    ∃ l m r, t = l ++ m :: r ∧ l.length = t.length / 2 := by
  have hpos := List.length_pos_iff.2 h
  have hlt : t.length / 2 < t.length := Nat.div_lt_self hpos (Nat.lt_succ_self 1)
  refine ⟨t.take (t.length / 2), t[t.length / 2], t.drop (t.length / 2 + 1), ?_, ?_⟩
  · rw [List.getElem_cons_drop hlt, List.take_append_drop]
  · rw [List.length_take]
    omega

omit [LinearOrder α] in
/-- One step of the search, with the middle `m` of the window named. -/
theorem bsearchLoop_middle {pre t l r post : List α} {m : α} (key : α) (ht : t = l ++ m :: r)
    (hl : l.length = t.length / 2) :
    bsearchLoop compar key (pre ++ (t ++ post)) pre.length (pre.length + t.length) =
      if compar key m < 0 then
        bsearchLoop compar key (pre ++ (t ++ post)) pre.length (pre.length + l.length)
      else if 0 < compar key m then
        bsearchLoop compar key (pre ++ (t ++ post)) (pre.length + l.length + 1)
          (pre.length + t.length)
      else some (pre.length + l.length) := by
  have hlen : t.length = l.length + r.length + 1 := by
    rw [ht, List.length_append, List.length_cons]
    rfl
  have hmid : (pre.length + (pre.length + t.length)) / 2 = pre.length + l.length := by omega
  have hget : (pre ++ (t ++ post))[pre.length + l.length]? = some m := by
    rw [List.getElem?_append_right (Nat.le_add_right _ _), Nat.add_sub_cancel_left, ht,
      List.append_assoc]
    exact getElem?_middle l m (r ++ post)
  rw [bsearchLoop, if_pos (by omega), hmid, hget]

/-- What the search finds in the window of the part `t`. -/
theorem bsearchLoop_eq_some_iff (hcompar : Compares compar) (key : α) (fuel : ℕ)
    (pre t post : List α) (hfuel : t.length ≤ fuel) (i : ℕ) :
    bsearchLoop compar key (pre ++ (t ++ post)) pre.length (pre.length + t.length) = some i ↔
      (key, i) ∈ reached fuel t pre.length := by
  induction fuel generalizing pre t post with
  | zero =>
      obtain rfl := List.eq_nil_of_length_eq_zero (Nat.le_zero.1 hfuel)
      rw [bsearchLoop, if_neg (by rw [List.length_nil]; omega), reached]
      exact iff_of_false (fun h => by cases h) List.not_mem_nil
  | succ fuel ih =>
      by_cases hempty : t = []
      · rw [hempty, bsearchLoop, if_neg (by rw [List.length_nil]; omega), reached_nil]
        exact iff_of_false (fun h => by cases h) List.not_mem_nil
      · obtain ⟨l, m, r, ht, hl⟩ := exists_middle hempty
        have hlen : t.length = l.length + (r.length + 1) := by
          rw [ht, List.length_append, List.length_cons]
        rw [bsearchLoop_middle key ht hl]
        rcases lt_trichotomy key m with hlt | rfl | hgt
        · -- the left half
          have hleft := ih pre l (m :: r ++ post) (by omega)
          rw [← List.append_assoc l, ← ht] at hleft
          rw [if_pos ((hcompar key m).1.2 hlt), hleft, mem_reached_of_lt ht hl hlt]
        · -- the middle
          have hnot : ¬ compar key key < 0 ∧ ¬ 0 < compar key key := by
            rw [(hcompar key key).1, (hcompar key key).2]
            exact ⟨lt_irrefl key, lt_irrefl key⟩
          rw [if_neg hnot.1, if_neg hnot.2, Option.some_inj, mem_reached_middle ht hl]
          exact eq_comm
        · -- the right half
          have hnot : ¬ compar key m < 0 := by
            rw [(hcompar key m).1]
            exact lt_asymm hgt
          have hright := ih (pre ++ l ++ [m]) r post (by omega)
          have hbase : pre ++ l ++ [m] ++ (r ++ post) = pre ++ (t ++ post) := by
            rw [ht]
            simp only [List.append_assoc, List.cons_append, List.nil_append]
          have hlast : (pre ++ l ++ [m]).length + r.length = pre.length + t.length := by
            rw [List.length_append, List.length_append, List.length_singleton]
            omega
          rw [hbase, hlast, List.length_append, List.length_append, List.length_singleton] at hright
          rw [if_neg hnot, if_pos ((hcompar key m).2.2 hgt), hright, mem_reached_of_gt ht hl hgt]

/-- The search finds the entries that are reached. -/
theorem bsearch_eq_some_iff (hcompar : Compares compar) (key : α) (base : List α) (i : ℕ) :
    bsearch compar key base = some i ↔ (key, i) ∈ reached base.length base 0 := by
  have h := bsearchLoop_eq_some_iff hcompar key base.length [] base [] (Nat.le_refl _) i
  rw [List.append_nil, List.nil_append, List.length_nil, Nat.zero_add] at h
  exact h

/-- An entry that is reached is the one of the table at its position. -/
theorem getElem?_of_mem_reached {fuel off i : ℕ} {t : List α} {key : α}
    (h : (key, i) ∈ reached fuel t off) : off ≤ i ∧ t[i - off]? = some key := by
  induction fuel generalizing t off with
  | zero => cases h
  | succ fuel ih =>
      by_cases hempty : t = []
      · rw [hempty, reached_nil] at h
        cases h
      · obtain ⟨l, m, r, ht, hl⟩ := exists_middle hempty
        rw [ht]
        rcases (mem_reached_succ ht hl).1 h with ⟨h, -⟩ | ⟨rfl, rfl⟩ | ⟨h, -⟩
        · obtain ⟨hle, hget⟩ := ih h
          obtain ⟨hlt, -⟩ := List.getElem?_eq_some_iff.1 hget
          exact ⟨hle, by rw [List.getElem?_append_left hlt, hget]⟩
        · refine ⟨Nat.le_add_right _ _, ?_⟩
          rw [Nat.add_sub_cancel_left, getElem?_middle]
        · obtain ⟨hle, hget⟩ := ih h
          have hsucc : i - off = l.length + (i - (off + l.length + 1)) + 1 := by omega
          refine ⟨by omega, ?_⟩
          rw [hsucc, getElem?_right, hget]

/-- On a sorted table every entry is reached. -/
theorem reached_of_sorted {fuel off i : ℕ} {t : List α} {key : α} (hsorted : t.Pairwise (· < ·))
    (hfuel : t.length ≤ fuel) (h : t[i]? = some key) : (key, off + i) ∈ reached fuel t off := by
  induction fuel generalizing t off i with
  | zero =>
      rw [List.eq_nil_of_length_eq_zero (Nat.le_zero.1 hfuel)] at h
      cases h
  | succ fuel ih =>
      have hempty : t ≠ [] := by
        rintro rfl
        cases h
      obtain ⟨l, m, r, ht, hl⟩ := exists_middle hempty
      have hlen : t.length = l.length + (r.length + 1) := by
        rw [ht, List.length_append, List.length_cons]
      rw [ht] at hsorted h
      obtain ⟨hsl, hsr, hbetween⟩ := List.pairwise_append.1 hsorted
      obtain ⟨hm, hsr⟩ := List.pairwise_cons.1 hsr
      rcases Nat.lt_trichotomy i l.length with hlt | heq | hgt
      · rw [List.getElem?_append_left hlt] at h
        have hkey := hbetween key (List.mem_of_getElem? h) m List.mem_cons_self
        exact (mem_reached_of_lt ht hl hkey).2 (ih hsl (by omega) h)
      · rw [heq, getElem?_middle] at h
        rw [← Option.some_inj.1 h, mem_reached_middle ht hl, heq]
      · obtain ⟨j, rfl⟩ := Nat.exists_eq_add_of_lt hgt
        rw [getElem?_right] at h
        have hih : (key, off + l.length + 1 + j) ∈ reached fuel r (off + l.length + 1) :=
          ih hsr (by omega) h
        have hoff : off + l.length + 1 + j = off + (l.length + j + 1) := by omega
        rw [hoff] at hih
        exact (mem_reached_of_gt ht hl (hm key (List.mem_of_getElem? h))).2 hih

/-- What is reached is sorted, since it is on the right side of every middle. -/
theorem pairwise_reached (fuel : ℕ) (t : List α) (off : ℕ) :
    (reached fuel t off).Pairwise fun e f => e.1 < f.1 := by
  induction fuel generalizing t off with
  | zero => exact List.Pairwise.nil
  | succ fuel ih =>
      rw [reached]
      split
      · exact List.Pairwise.nil
      · rename_i m r _
        have hleft : ∀ e ∈ (reached fuel (t.take (t.length / 2)) off).filter (fun e => e.1 < m),
            e.1 < m := fun e he => of_decide_eq_true (List.mem_filter.1 he).2
        have hright : ∀ f ∈ (reached fuel r (off + t.length / 2 + 1)).filter (fun f => m < f.1),
            m < f.1 := fun f hf => of_decide_eq_true (List.mem_filter.1 hf).2
        refine List.pairwise_append.2 ⟨(ih _ _).filter _, ?_, fun e he f hf => ?_⟩
        · exact List.pairwise_cons.2 ⟨hright, (ih _ _).filter _⟩
        · rcases List.mem_cons.1 hf with rfl | hf
          · exact hleft e he
          · exact lt_trans (hleft e he) (hright f hf)

/-! ### Sorted lists without a common element -/

/-- The lists are gone through side by side. -/
def apart : ℕ → List α → List α → Bool
  | 0, _, _ => false
  | _ + 1, [], _ => true
  | _ + 1, _ :: _, [] => true
  | fuel + 1, a :: s, b :: t =>
      if a < b then apart fuel s (b :: t) else if b < a then apart fuel (a :: s) t else false

theorem not_mem_of_apart {fuel : ℕ} {s t : List α} {c : α} (hs : s.Pairwise (· < ·))
    (ht : t.Pairwise (· < ·)) (h : apart fuel s t = true) (hc : c ∈ s) : c ∉ t := by
  induction fuel generalizing s t with
  | zero => cases h
  | succ fuel ih =>
      cases s with
      | nil => cases hc
      | cons a s =>
          cases t with
          | nil => exact List.not_mem_nil
          | cons b t =>
              obtain ⟨ha, hs'⟩ := List.pairwise_cons.1 hs
              obtain ⟨hb, ht'⟩ := List.pairwise_cons.1 ht
              rw [apart] at h
              split at h
              · rename_i hlt
                rcases List.mem_cons.1 hc with rfl | hc
                · -- the first element is smaller than all of the other list
                  intro hmem
                  rcases List.mem_cons.1 hmem with rfl | hmem
                  · exact lt_irrefl _ hlt
                  · exact lt_asymm hlt (hb _ hmem)
                · exact ih hs' ht h hc
              · split at h
                · rename_i hgt
                  intro hmem
                  rcases List.mem_cons.1 hmem with rfl | hmem
                  · rcases List.mem_cons.1 hc with rfl | hc
                    · exact lt_irrefl _ hgt
                    · exact lt_asymm hgt (ha _ hc)
                  · exact ih hs ht' h hc hmem
                · cases h

end HalvingSearch

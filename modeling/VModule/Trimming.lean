/-
**The middle of a list.**

What is left of a list when the elements of a kind are taken off both ends: no matter which end is
first, it is the one part between such elements that neither begins nor ends with one.

Main definitions:

* `Trimming.Middle` — the part of a list between elements of a kind;
* `Trimming.trim` — that part, taken off the left end first.

Main results:

* `Trimming.middle_trim`, `Trimming.Middle.eq_trim` — it exists and is the only one;
* `Trimming.rdropWhile_dropWhile`, `Trimming.trim_trim` — the order of the ends, and doing it again.
-/

import Mathlib.Data.List.DropRight

set_option relaxedAutoImplicit false
set_option autoImplicit false

namespace Trimming

variable {α : Type*} {p : α → Bool} {s m a b : List α}

/-- The list is its middle `m` between elements of the kind `p`. -/
structure Middle (p : α → Bool) (s m : List α) : Prop where
  between : ∃ a b, s = a ++ m ++ b ∧ (∀ c ∈ a, p c) ∧ ∀ c ∈ b, p c
  head : ∀ c, m.head? = some c → p c = false
  last : ∀ c, m.getLast? = some c → p c = false

/-- The list without the elements of the kind `p` at its ends. -/
def trim (p : α → Bool) (s : List α) : List α := (s.dropWhile p).rdropWhile p

/-- A list that begins with no such element loses none on the left. -/
theorem dropWhile_eq_self (h : ∀ c, s.head? = some c → p c = false) : s.dropWhile p = s := by
  cases s with
  | nil => rfl
  | cons c s => rw [List.dropWhile_cons_of_neg (by rw [h c rfl]; decide)]

theorem head_dropWhile (c : α) (h : (s.dropWhile p).head? = some c) : p c = false := by
  induction s with
  | nil => cases h
  | cons d s ih =>
      by_cases hd : p d
      · rw [List.dropWhile_cons_of_pos hd] at h
        exact ih h
      · rw [List.dropWhile_cons_of_neg hd, List.head?_cons, Option.some_inj] at h
        rw [← h]
        exact Bool.eq_false_iff.2 hd

/-- The elements taken off the left, and what is left. -/
theorem exists_append_dropWhile (p : α → Bool) (s : List α) :
    ∃ a, s = a ++ s.dropWhile p ∧ ∀ c ∈ a, p c :=
  ⟨s.takeWhile p, List.takeWhile_append_dropWhile.symm, fun _ => List.mem_takeWhile_imp⟩

/-- The same on the right. -/
theorem exists_rdropWhile_append (p : α → Bool) (s : List α) :
    ∃ b, s = s.rdropWhile p ++ b ∧ ∀ c ∈ b, p c := by
  obtain ⟨a, hs, ha⟩ := exists_append_dropWhile p s.reverse
  refine ⟨a.reverse, ?_, fun c hc => ha c (List.mem_reverse.1 hc)⟩
  rw [← List.reverse_inj, List.reverse_append, List.reverse_reverse, List.rdropWhile,
    List.reverse_reverse]
  exact hs

theorem last_rdropWhile (c : α) (h : (s.rdropWhile p).getLast? = some c) : p c = false := by
  rw [List.rdropWhile, List.getLast?_reverse] at h
  exact head_dropWhile c h

theorem rdropWhile_append_eq (hb : ∀ c ∈ b, p c) : (s ++ b).rdropWhile p = s.rdropWhile p := by
  rw [List.rdropWhile, List.reverse_append, List.dropWhile_append_of_pos, List.rdropWhile]
  exact fun c hc => hb c (List.mem_reverse.1 hc)

theorem rdropWhile_eq_self (h : ∀ c, s.getLast? = some c → p c = false) : s.rdropWhile p = s := by
  rw [List.rdropWhile, dropWhile_eq_self, List.reverse_reverse]
  intro c hc
  rw [List.head?_reverse] at hc
  exact h c hc

/-- What begins with no such element still does after the right end is gone. -/
theorem head_rdropWhile (h : ∀ c, s.head? = some c → p c = false) (c : α)
    (hc : (s.rdropWhile p).head? = some c) : p c = false := by
  obtain ⟨b, hs, -⟩ := exists_rdropWhile_append p s
  refine h c ?_
  rw [hs, List.head?_append, hc]
  rfl

theorem middle_trim (p : α → Bool) (s : List α) : Middle p s (trim p s) where
  between := by
    obtain ⟨a, hs, ha⟩ := exists_append_dropWhile p s
    obtain ⟨b, hrest, hb⟩ := exists_rdropWhile_append p (s.dropWhile p)
    refine ⟨a, b, ?_, ha, hb⟩
    rw [trim, List.append_assoc, ← hrest]
    exact hs
  head := head_rdropWhile head_dropWhile
  last := last_rdropWhile

/-- There is no other middle. -/
theorem Middle.eq_trim (h : Middle p s m) : m = trim p s := by
  obtain ⟨a, b, rfl, ha, hb⟩ := h.between
  cases hm : m with
  | nil =>
      rw [List.append_nil, trim, List.dropWhile_append_of_pos ha, eq_comm,
        List.rdropWhile_eq_nil_iff]
      exact fun c hc => hb c (List.dropWhile_sublist p |>.subset hc)
  | cons c m' =>
      have hfirst : (m ++ b).dropWhile p = m ++ b := by
        refine dropWhile_eq_self fun d hd => h.head d ?_
        rw [hm] at hd ⊢
        exact hd
      rw [← hm, trim, List.append_assoc, List.dropWhile_append_of_pos ha, hfirst,
        rdropWhile_append_eq hb, rdropWhile_eq_self h.last]

/-- The ends may be trimmed in either order. -/
theorem rdropWhile_dropWhile (p : α → Bool) (s : List α) :
    (s.dropWhile p).rdropWhile p = (s.rdropWhile p).dropWhile p := by
  have hmiddle : Middle p s ((s.rdropWhile p).dropWhile p) := by
    constructor
    · obtain ⟨b, hs, hb⟩ := exists_rdropWhile_append p s
      obtain ⟨a, hrest, ha⟩ := exists_append_dropWhile p (s.rdropWhile p)
      refine ⟨a, b, ?_, ha, hb⟩
      rw [← hrest]
      exact hs
    · exact head_dropWhile
    · intro c hc
      obtain ⟨a, hrest, -⟩ := exists_append_dropWhile p (s.rdropWhile p)
      refine last_rdropWhile c (s := s) ?_
      rw [hrest, List.getLast?_append, hc]
      rfl
  exact hmiddle.eq_trim.symm

/-- A middle is its own middle. -/
theorem Middle.trim_eq (h : Middle p s m) : trim p m = m := by
  have hself : Middle p m m := by
    refine ⟨⟨[], [], (List.append_nil m).symm, ?_, ?_⟩, h.head, h.last⟩
    · exact fun _ hc => absurd hc List.not_mem_nil
    · exact fun _ hc => absurd hc List.not_mem_nil
  exact hself.eq_trim.symm

theorem trim_trim (p : α → Bool) (s : List α) : trim p (trim p s) = trim p s :=
  (middle_trim p s).trim_eq

end Trimming

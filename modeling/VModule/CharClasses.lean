/-
**Regular expressions of character classes.**

The expressions that say which characters come one after another, and how many: a class, a class any
number of times, and a class at least once.

Main definitions:

* `CharClasses.oneOf` — one character of a class;
* `CharClasses.many`, `CharClasses.many1` — any number of them, and at least one.

Main results:

* `CharClasses.mem_many`, `CharClasses.mem_many1`, `CharClasses.mem_mul` — what the expressions
  match;
* `CharClasses.exists_scan`, `CharClasses.takeWhile_append`, `CharClasses.dropWhile_append` — a
  greedy scan stops where the next part begins.
-/

import Mathlib.Computability.RegularExpressions
import Mathlib.Data.List.TakeWhile

set_option relaxedAutoImplicit false
set_option autoImplicit false

namespace CharClasses

variable {α : Type*} {cs : List α} {r s : RegularExpression α} {w : List α}

/-- One character of the class. -/
def oneOf : List α → RegularExpression α
  | [] => 0
  | c :: cs => RegularExpression.char c + oneOf cs

/-- Any number of characters of the class. -/
def many (cs : List α) : RegularExpression α := (oneOf cs).star

/-- At least one character of the class. -/
def many1 (cs : List α) : RegularExpression α := oneOf cs * many cs

theorem mem_oneOf : w ∈ (oneOf cs).matches' ↔ ∃ c ∈ cs, w = [c] := by
  induction cs with
  | nil =>
      refine iff_of_false (fun h => ?_) fun ⟨_, h, _⟩ => absurd h List.not_mem_nil
      exact h
  | cons c cs ih =>
      rw [oneOf, RegularExpression.matches'_add, Language.mem_add, ih,
        RegularExpression.matches'_char]
      constructor
      · rintro (h | ⟨d, hd, rfl⟩)
        · exact ⟨c, List.mem_cons_self, h⟩
        · exact ⟨d, List.mem_cons_of_mem c hd, rfl⟩
      · rintro ⟨d, hd, rfl⟩
        rcases List.mem_cons.1 hd with rfl | hd
        · exact Or.inl rfl
        · exact Or.inr ⟨d, hd, rfl⟩

theorem mem_many : w ∈ (many cs).matches' ↔ ∀ c ∈ w, c ∈ cs := by
  rw [many, RegularExpression.matches'_star, Language.mem_kstar]
  constructor
  · rintro ⟨L, rfl, hL⟩ c hc
    obtain ⟨y, hy, hcy⟩ := List.mem_flatten.1 hc
    obtain ⟨d, hd, rfl⟩ := mem_oneOf.1 (hL y hy)
    rw [List.mem_singleton.1 hcy]
    exact hd
  · intro h
    refine ⟨w.map fun c => [c], ?_, fun y hy => ?_⟩
    · rw [← List.flatMap_def, List.flatMap_singleton']
    · obtain ⟨c, hc, rfl⟩ := List.mem_map.1 hy
      exact mem_oneOf.2 ⟨c, h c hc, rfl⟩

theorem mem_mul :
    w ∈ (r * s).matches' ↔ ∃ a b, w = a ++ b ∧ a ∈ r.matches' ∧ b ∈ s.matches' := by
  rw [RegularExpression.matches'_mul, Language.mem_mul]
  constructor
  · rintro ⟨a, ha, b, hb, rfl⟩
    exact ⟨a, b, rfl, ha, hb⟩
  · rintro ⟨a, b, rfl, ha, hb⟩
    exact ⟨a, ha, b, hb, rfl⟩

theorem mem_many1 : w ∈ (many1 cs).matches' ↔ w ≠ [] ∧ ∀ c ∈ w, c ∈ cs := by
  rw [many1, mem_mul]
  constructor
  · rintro ⟨a, b, rfl, ha, hb⟩
    obtain ⟨c, hc, rfl⟩ := mem_oneOf.1 ha
    refine ⟨List.cons_ne_nil c b, fun d hd => ?_⟩
    rcases List.mem_cons.1 hd with rfl | hd
    · exact hc
    · exact mem_many.1 hb d hd
  · rintro ⟨hne, h⟩
    obtain ⟨c, b, rfl⟩ := List.exists_cons_of_ne_nil hne
    refine ⟨[c], b, rfl, mem_oneOf.2 ⟨c, h c List.mem_cons_self, rfl⟩, mem_many.2 fun d hd => ?_⟩
    exact h d (List.mem_cons_of_mem c hd)

/-! ### Greedy scans -/

variable {p : α → Bool} {a b : List α}

/-- What a scan goes over, and what is left. -/
theorem exists_scan (p : α → Bool) (w : List α) :
    ∃ a b, w = a ++ b ∧ w.takeWhile p = a ∧ w.dropWhile p = b ∧ ∀ c ∈ a, p c :=
  ⟨_, _, List.takeWhile_append_dropWhile.symm, rfl, rfl, fun _ => List.mem_takeWhile_imp⟩

/-- A scan stops where the next part begins. -/
theorem takeWhile_append (ha : ∀ c ∈ a, p c) (hb : ∀ c, b.head? = some c → p c = false) :
    (a ++ b).takeWhile p = a := by
  rw [List.takeWhile_append_of_pos ha]
  cases b with
  | nil => exact List.append_nil a
  | cons c b => rw [List.takeWhile_cons_of_neg (Bool.eq_false_iff.1 (hb c rfl)), List.append_nil]

theorem dropWhile_append (ha : ∀ c ∈ a, p c) (hb : ∀ c, b.head? = some c → p c = false) :
    (a ++ b).dropWhile p = b := by
  rw [List.dropWhile_append_of_pos ha]
  cases b with
  | nil => rfl
  | cons c b => rw [List.dropWhile_cons_of_neg (Bool.eq_false_iff.1 (hb c rfl))]

end CharClasses

/-
**Occurrences of a word in a text.**

Texts and words are lists over any alphabet.  A scan from the left that goes on after each
occurrence marks the occurrences which do not overlap; what is left between the marks are the
pieces of the text.  In every text the scan comes to all occurrences when the word cannot overlap
itself, and in some text it does not when the word can.

Main definitions:

* `Words.OccursAt` — the word stands at a position of the text;
* `Words.marked`, `Words.fill` — the text with its marks, and what comes of it when a word is put in
  their place;
* `Words.disjoint`, `Words.occurrences` — how many marks there are, and how many positions;
* `Words.Pieces` — the text is cut from the left into a limited number of pieces;
* `Words.Unbordered` — the word cannot overlap itself.

Main results:

* `Words.scan_induction` — induction along the scan;
* `Words.FirstAt.marked`, `Words.marked_of_none` — the scan from one occurrence to the next;
* `Words.Pieces.join`, `Words.Pieces.length_eq`, `Words.Pieces.not_isInfix_of_mem` — what the pieces
  are, and `Words.Pieces.unique`;
* `Words.disjoint_le_occurrences`, `Words.Unbordered.disjoint_eq`, `Words.exists_overlap` — the two
  counts.
-/

import Mathlib.Data.List.Nodup
import Mathlib.Data.Nat.Find

set_option relaxedAutoImplicit false
set_option autoImplicit false

namespace Words

variable {α : Type*} {f g s t : List α} {i j m : ℕ}

/-! ### Positions -/

/-- The word `f` stands at position `i` of the text `s`. -/
def OccursAt (f s : List α) (i : ℕ) : Prop := i ≤ s.length ∧ (s.drop i).take f.length = f

instance [DecidableEq α] (f s : List α) (i : ℕ) : Decidable (OccursAt f s i) :=
  inferInstanceAs (Decidable (_ ∧ _))

theorem OccursAt.add_length_le (h : OccursAt f s i) : i + f.length ≤ s.length := by
  have hlen := congrArg List.length h.2
  rw [List.length_take, List.length_drop] at hlen
  have hle := h.1
  omega

/-- The text before the word, the word and the text after it. -/
theorem occursAt_iff : OccursAt f s i ↔ ∃ a b, s = a ++ f ++ b ∧ a.length = i := by
  constructor
  · intro h
    refine ⟨s.take i, s.drop (i + f.length), ?_, List.length_take_of_le h.1⟩
    conv_lhs => rw [← List.take_append_drop i s, ← List.take_append_drop f.length (s.drop i)]
    rw [h.2, List.drop_drop, List.append_assoc]
  · rintro ⟨a, b, rfl, rfl⟩
    refine ⟨by simp only [List.length_append]; omega, ?_⟩
    rw [List.append_assoc, List.drop_left, List.take_left]

theorem occursAt_zero_append (f s : List α) : OccursAt f (f ++ s) 0 :=
  occursAt_iff.2 ⟨[], s, rfl, rfl⟩

/-- The end of a text has the occurrences that begin there. -/
theorem occursAt_drop (hm : m ≤ s.length) : OccursAt f (s.drop m) j ↔ OccursAt f s (m + j) := by
  unfold OccursAt
  rw [List.length_drop, List.drop_drop]
  refine and_congr_left fun _ => ?_
  omega

theorem occursAt_cons_succ {a : α} : OccursAt f (a :: s) (i + 1) ↔ OccursAt f s i := by
  unfold OccursAt
  rw [List.length_cons, List.drop_succ_cons, Nat.add_le_add_iff_right]

theorem not_occursAt_nil (hf : f ≠ []) : ¬ OccursAt f [] i := by
  intro h
  have hle := h.add_length_le
  have hpos := List.length_pos_of_ne_nil hf
  rw [List.length_nil] at hle
  omega

/-- A word that stands in the text stands at some position. -/
theorem isInfix_iff : f <:+: s ↔ ∃ i, OccursAt f s i := by
  constructor
  · rintro ⟨a, b, rfl⟩
    exact ⟨a.length, occursAt_iff.2 ⟨a, b, rfl, rfl⟩⟩
  · rintro ⟨i, h⟩
    obtain ⟨a, b, rfl, -⟩ := occursAt_iff.1 h
    exact ⟨a, b, rfl⟩

/-! ### The first occurrence -/

/-- The first occurrence is at `i`. -/
def FirstAt (f s : List α) (i : ℕ) : Prop := OccursAt f s i ∧ ∀ j < i, ¬ OccursAt f s j

/-- The text around the first occurrence. -/
theorem FirstAt.eq_append (h : FirstAt f s i) : s = s.take i ++ f ++ s.drop (i + f.length) := by
  conv_lhs => rw [← List.take_append_drop i s, ← List.take_append_drop f.length (s.drop i)]
  rw [h.1.2, List.drop_drop, List.append_assoc]

theorem FirstAt.unique (h : FirstAt f s i) (h' : FirstAt f s j) : i = j := by
  rcases Nat.lt_trichotomy i j with hlt | heq | hlt
  · exact absurd h.1 (h'.2 i hlt)
  · exact heq
  · exact absurd h'.1 (h.2 j hlt)

/-- The word is not in what comes before its first occurrence. -/
theorem FirstAt.not_isInfix_take (hf : f ≠ []) (h : FirstAt f s i) : ¬ f <:+: s.take i := by
  rw [isInfix_iff]
  rintro ⟨j, hj⟩
  have hle := hj.add_length_le
  have hpos := List.length_pos_of_ne_nil hf
  rw [List.length_take] at hle
  refine h.2 j (by omega) ?_
  obtain ⟨a, b, hab, rfl⟩ := occursAt_iff.1 hj
  refine occursAt_iff.2 ⟨a, b ++ s.drop i, ?_, rfl⟩
  rw [← List.append_assoc, ← hab, List.take_append_drop]

/-- What comes after the first occurrence is shorter. -/
theorem FirstAt.lt_length (hf : f ≠ []) (h : FirstAt f s i) :
    (s.drop (i + f.length)).length < s.length := by
  have hle := h.1.add_length_le
  have hpos := List.length_pos_of_ne_nil hf
  rw [List.length_drop]
  omega

/-- A text has a first occurrence or none. -/
theorem none_or_firstAt (f s : List α) : (∀ j, ¬ OccursAt f s j) ∨ ∃ i, FirstAt f s i := by
  classical
  by_cases h : ∃ j, OccursAt f s j
  · exact .inr ⟨Nat.find h, Nat.find_spec h, fun j hj => Nat.find_min h hj⟩
  · exact .inl fun j hj => h ⟨j, hj⟩

/-- **Induction along the scan.** -/
theorem scan_induction {P : List α → Prop} (hf : f ≠ [])
    (hnone : ∀ s, (∀ j, ¬ OccursAt f s j) → P s)
    (hfirst : ∀ s i, FirstAt f s i → P (s.drop (i + f.length)) → P s) (s : List α) : P s := by
  induction hlen : s.length using Nat.strong_induction_on generalizing s with
  | _ n ih =>
      rcases none_or_firstAt f s with h | ⟨i, h⟩
      · exact hnone s h
      · refine hfirst s i h (ih _ ?_ _ rfl)
        rw [← hlen]
        exact h.lt_length hf

/-! ### Pieces -/

/-- The text is cut from the left at the occurrences of `f`, into no more than so many pieces. -/
inductive Pieces (f : List α) : List α → ℕ → List (List α) → Prop
  | cut (s : List α) : Pieces f s 1 [s]
  | last {s : List α} {n : ℕ} : (∀ j, ¬ OccursAt f s j) → Pieces f s (n + 2) [s]
  | next {s : List α} {n i : ℕ} {ps : List (List α)} : FirstAt f s i →
      Pieces f (s.drop (i + f.length)) (n + 1) ps → Pieces f s (n + 2) (s.take i :: ps)

namespace Pieces

variable {n n' : ℕ} {ps ps' : List (List α)}

theorem ne_nil (h : Pieces f s n ps) : ps ≠ [] := by
  cases h with
  | cut => exact List.cons_ne_nil _ _
  | last _ => exact List.cons_ne_nil _ _
  | next _ _ => exact List.cons_ne_nil _ _

/-- The pieces with the word between them are the text. -/
theorem join (h : Pieces f s n ps) : f.intercalate ps = s := by
  induction h with
  | cut s => exact List.intercalate_singleton
  | last _ => exact List.intercalate_singleton
  | next hfirst hrest ih =>
      rw [List.intercalate_cons_of_ne_nil hrest.ne_nil, ih, ← hfirst.eq_append]

/-- No piece but the last has the word in it. -/
theorem not_isInfix_of_mem_dropLast (hf : f ≠ []) (h : Pieces f s n ps) :
    ∀ p ∈ ps.dropLast, ¬ f <:+: p := by
  induction h with
  | cut s => exact fun p hp => absurd hp List.not_mem_nil
  | last _ => exact fun p hp => absurd hp List.not_mem_nil
  | next hfirst hrest ih =>
      rw [List.dropLast_cons_of_ne_nil hrest.ne_nil]
      intro p hp
      rcases List.mem_cons.1 hp with rfl | hp
      · exact hfirst.not_isInfix_take hf
      · exact ih p hp

/-- There is one way to cut a text into a number of pieces. -/
theorem unique (h : Pieces f s n ps) (h' : Pieces f s n' ps') (hlen : ps.length = ps'.length) :
    ps = ps' := by
  induction h generalizing n' ps' with
  | cut s =>
      cases h' with
      | cut => rfl
      | last _ => rfl
      | next _ hrest =>
          exact absurd (List.length_eq_zero_iff.1 (by simpa using hlen.symm)) hrest.ne_nil
  | last hnone =>
      cases h' with
      | cut => rfl
      | last _ => rfl
      | next hfirst _ => exact absurd hfirst.1 (hnone _)
  | next hfirst hrest ih =>
      cases h' with
      | cut => exact absurd (List.length_eq_zero_iff.1 (by simpa using hlen)) hrest.ne_nil
      | last hnone => exact absurd hfirst.1 (hnone _)
      | next hfirst' hrest' =>
          obtain rfl := hfirst.unique hfirst'
          rw [ih hrest' (by simpa using hlen)]

end Pieces

/-! ### Words that overlap themselves -/

/-- No proper part of the word is where it begins and where it ends. -/
def Unbordered (f : List α) : Prop := ∀ b, b <+: f → b <:+ f → b = [] ∨ b = f

/-- Two occurrences that overlap have a part of the word in common. -/
theorem border_of_occursAt (h : OccursAt f s i) (h' : OccursAt f s j) (hij : i ≤ j)
    (hj : j ≤ i + f.length) : ∃ b, b <+: f ∧ b <:+ f ∧ b.length = i + f.length - j := by
  have hdrop := congrArg (List.drop (j - i)) h.2
  have htake := congrArg (List.take (i + f.length - j)) h'.2
  rw [List.drop_take, List.drop_drop, Nat.add_sub_of_le hij] at hdrop
  rw [List.take_take, Nat.min_eq_left (by omega)] at htake
  refine ⟨f.take (i + f.length - j), List.take_prefix _ _, ?_, ?_⟩
  · rw [← htake, show i + f.length - j = f.length - (j - i) by omega, hdrop]
    exact List.drop_suffix _ _
  · rw [List.length_take]
    omega

theorem Unbordered.eq_of_occursAt (hf : Unbordered f) (h : OccursAt f s i) (h' : OccursAt f s j)
    (hij : i ≤ j) (hj : j < i + f.length) : j = i := by
  obtain ⟨b, hpre, hsuf, hlen⟩ := border_of_occursAt h h' hij (Nat.le_of_lt hj)
  rcases hf b hpre hsuf with rfl | rfl
  · rw [List.length_nil] at hlen
    omega
  · omega

/-- A word that can overlap itself has a longest part that is where it begins and where it ends. -/
theorem exists_longest_border (h : ¬ Unbordered f) :
    ∃ b, b <+: f ∧ b <:+ f ∧ b ≠ [] ∧ b ≠ f ∧
      ∀ c, c <+: f → c <:+ f → c ≠ f → c.length ≤ b.length := by
  classical
  have hshort : ∀ c, c <+: f → c.length ≤ f.length := fun c hc => hc.length_le
  let P (n : ℕ) : Prop := ∃ c, c <+: f ∧ c <:+ f ∧ c ≠ f ∧ c.length = n
  simp only [Unbordered, not_forall, not_or] at h
  obtain ⟨b₀, hpre₀, hsuf₀, hnil₀, hne₀⟩ := h
  have hP₀ : P b₀.length := ⟨b₀, hpre₀, hsuf₀, hne₀, rfl⟩
  obtain ⟨b, hpre, hsuf, hne, hlen⟩ := Nat.findGreatest_spec (hshort b₀ hpre₀) hP₀
  have hlongest : ∀ c, c <+: f → c <:+ f → c ≠ f → c.length ≤ b.length := fun c hc hc' hcf =>
    hlen ▸ Nat.le_findGreatest (hshort c hc) ⟨c, hc, hc', hcf, rfl⟩
  refine ⟨b, hpre, hsuf, ?_, hne, hlongest⟩
  rintro rfl
  exact hnil₀ (List.length_eq_zero_iff.1 (Nat.le_zero.1 (hlongest b₀ hpre₀ hsuf₀ hne₀)))

/-! ### The scan from the left -/

/-- The text that has `g` where the marks are. -/
def fill (g : List α) (ms : List (Option α)) : List α :=
  ms.flatMap fun o => o.elim g fun a => [a]

@[simp] theorem fill_cons_none {ms : List (Option α)} : fill g (none :: ms) = g ++ fill g ms := rfl

@[simp] theorem fill_append {ms ns : List (Option α)} :
    fill g (ms ++ ns) = fill g ms ++ fill g ns := List.flatMap_append

@[simp] theorem fill_map_some : fill g (s.map some) = s := by
  induction s with
  | nil => rfl
  | cons a s ih => exact congrArg (a :: ·) ih

variable [DecidableEq α]

/-- The scan, which passes over `skip` letters before it looks for the word again. -/
def marks (f : List α) : ℕ → List α → List (Option α)
  | _, [] => []
  | skip + 1, _ :: s => marks f skip s
  | 0, a :: s =>
      if OccursAt f (a :: s) 0 then none :: marks f (f.length - 1) s else some a :: marks f 0 s

/-- The text with `none` for each occurrence of `f` that the scan from the left comes to. -/
def marked (f s : List α) : List (Option α) := marks f 0 s

/-- The number of occurrences of `f` that the scan from the left comes to, none of which overlap. -/
def disjoint (f s : List α) : ℕ := (marked f s).countP Option.isNone

theorem marks_eq_marked_drop (skip : ℕ) : marks f skip s = marked f (s.drop skip) := by
  induction s generalizing skip with
  | nil => rw [List.drop_nil]; cases skip <;> rfl
  | cons a s ih =>
      cases skip with
      | zero => rfl
      | succ skip => exact ih skip

theorem marked_cons_of_not {a : α} (h : ¬ OccursAt f (a :: s) 0) :
    marked f (a :: s) = some a :: marked f s := if_neg h

theorem marked_of_occursAt (hf : f ≠ []) (h : OccursAt f s 0) :
    marked f s = none :: marked f (s.drop f.length) := by
  cases s with
  | nil => exact absurd h (not_occursAt_nil hf)
  | cons a s =>
      obtain ⟨b, f, rfl⟩ := List.exists_cons_of_ne_nil hf
      rw [marked, marks, if_pos h, marks_eq_marked_drop]
      rfl

/-- Where the scan comes to no occurrence. -/
theorem marked_of_none (h : ∀ j, ¬ OccursAt f s j) : marked f s = s.map some := by
  induction s with
  | nil => rfl
  | cons a s ih =>
      rw [marked_cons_of_not (h 0), ih fun j hj => h (j + 1) (occursAt_cons_succ.2 hj),
        List.map_cons]

/-- Where the scan comes to an occurrence. -/
theorem FirstAt.marked (hf : f ≠ []) (h : FirstAt f s i) :
    marked f s = (s.take i).map some ++ none :: Words.marked f (s.drop (i + f.length)) := by
  induction i generalizing s with
  | zero => rw [marked_of_occursAt hf h.1, Nat.zero_add]; rfl
  | succ i ih =>
      cases s with
      | nil => exact absurd h.1 (not_occursAt_nil hf)
      | cons a s =>
          have hrest : FirstAt f s i :=
            ⟨occursAt_cons_succ.1 h.1, fun j hj hocc =>
              h.2 (j + 1) (Nat.succ_lt_succ hj) (occursAt_cons_succ.2 hocc)⟩
          rw [marked_cons_of_not (h.2 0 i.succ_pos), ih hrest, List.take_succ_cons, List.map_cons,
            Nat.add_right_comm, List.drop_succ_cons, List.cons_append]

theorem disjoint_of_none (h : ∀ j, ¬ OccursAt f s j) : disjoint f s = 0 := by
  rw [disjoint, marked_of_none h, List.countP_map]
  exact List.countP_eq_zero.2 fun _ _ => by simp

theorem FirstAt.disjoint (hf : f ≠ []) (h : FirstAt f s i) :
    disjoint f s = Words.disjoint f (s.drop (i + f.length)) + 1 := by
  have hzero : ((s.take i).map some).countP Option.isNone = 0 := by
    rw [List.countP_map]
    exact List.countP_eq_zero.2 fun _ _ => by simp
  rw [Words.disjoint, h.marked hf, List.countP_append, hzero, List.countP_cons_of_pos rfl,
    Nat.zero_add]
  rfl

/-- The occurrences of a letter. -/
theorem disjoint_singleton (c : α) (s : List α) : disjoint [c] s = s.count c := by
  induction s with
  | nil => rfl
  | cons a s ih =>
      by_cases hac : a = c
      · have hocc : OccursAt [c] (a :: s) 0 := hac ▸ occursAt_zero_append [a] s
        rw [disjoint, marked_of_occursAt (List.cons_ne_nil c []) hocc, List.countP_cons_of_pos rfl,
          hac, List.count_cons_self, ← ih]
        rfl
      · have hocc : ¬ OccursAt [c] (a :: s) 0 := fun h => hac (List.cons_eq_cons.1 h.2).1
        rw [disjoint, marked_cons_of_not hocc, List.countP_cons_of_neg Bool.false_ne_true,
          List.count_cons_of_ne hac, ← ih]
        rfl

/-! ### The pieces of the scan -/

namespace Pieces

variable {n : ℕ} {ps : List (List α)}

/-- A limit of one cuts nothing, and neither does a text without the word. -/
theorem length_eq (hf : f ≠ []) (h : Pieces f s n ps) : ps.length = min n (disjoint f s + 1) := by
  induction h with
  | cut s => simp
  | last hnone => rw [disjoint_of_none hnone]; simp
  | next hfirst _ ih =>
      rw [hfirst.disjoint hf, List.length_cons, ih]
      omega

/-- No piece has the word in it where the limit cuts nothing off. -/
theorem not_isInfix_of_mem (hf : f ≠ []) (h : Pieces f s n ps) (hn : disjoint f s < n) :
    ∀ p ∈ ps, ¬ f <:+: p := by
  induction h with
  | cut s =>
      intro p hp hin
      obtain rfl := List.mem_singleton.1 hp
      rcases none_or_firstAt f p with hnone | ⟨i, hi⟩
      · obtain ⟨j, hj⟩ := isInfix_iff.1 hin
        exact hnone j hj
      · rw [hi.disjoint hf] at hn
        omega
  | last hnone =>
      intro p hp hin
      obtain rfl := List.mem_singleton.1 hp
      obtain ⟨j, hj⟩ := isInfix_iff.1 hin
      exact hnone j hj
  | next hfirst _ ih =>
      rw [hfirst.disjoint hf] at hn
      intro p hp
      rcases List.mem_cons.1 hp with rfl | hp
      · exact hfirst.not_isInfix_take hf
      · exact ih (by omega) p hp

/-- Another word between the pieces is that word in place of the marks. -/
theorem join_eq_fill (hf : f ≠ []) (h : Pieces f s n ps) (hn : disjoint f s < n) :
    g.intercalate ps = fill g (marked f s) := by
  induction h with
  | cut s =>
      rcases none_or_firstAt f s with hnone | ⟨i, hi⟩
      · rw [List.intercalate_singleton, marked_of_none hnone, fill_map_some]
      · rw [hi.disjoint hf] at hn
        omega
  | last hnone => rw [List.intercalate_singleton, marked_of_none hnone, fill_map_some]
  | next hfirst hrest ih =>
      rw [hfirst.disjoint hf] at hn
      rw [List.intercalate_cons_of_ne_nil hrest.ne_nil, ih (by omega), hfirst.marked hf,
        fill_append, fill_map_some, fill_cons_none, List.append_assoc]

end Pieces

/-! ### All occurrences -/

/-- The number of positions at which `f` stands in `s`. -/
def occurrences (f s : List α) : ℕ := (List.range (s.length + 1)).countP fun i => OccursAt f s i

/-- The number of positions from `i` on. -/
def occurrencesFrom (f s : List α) (i : ℕ) : ℕ :=
  (List.range' i (s.length + 1 - i)).countP fun j => OccursAt f s j

theorem occurrencesFrom_zero (f s : List α) : occurrencesFrom f s 0 = occurrences f s := by
  rw [occurrencesFrom, occurrences, List.range_eq_range', Nat.sub_zero]

theorem occurrencesFrom_eq_zero (h : ∀ j, i ≤ j → ¬ OccursAt f s j) : occurrencesFrom f s i = 0 :=
  List.countP_eq_zero.2 fun j hj hocc => h j (List.mem_range'_1.1 hj).1 (of_decide_eq_true hocc)

/-- The next occurrence and those behind it. -/
theorem occurrencesFrom_eq_succ (hij : i ≤ j) (hocc : OccursAt f s j)
    (hbefore : ∀ k, i ≤ k → k < j → ¬ OccursAt f s k) :
    occurrencesFrom f s i = occurrencesFrom f s (j + 1) + 1 := by
  have hlen := hocc.1
  have hsplit : s.length + 1 - i = (j - i) + ((s.length + 1 - (j + 1)) + 1) := by omega
  have hzero : (List.range' i (j - i)).countP (fun k => OccursAt f s k) = 0 := by
    refine List.countP_eq_zero.2 fun k hk hocc' => ?_
    obtain ⟨hle, hlt⟩ := List.mem_range'_1.1 hk
    exact hbefore k hle (by omega) (of_decide_eq_true hocc')
  rw [occurrencesFrom, hsplit, ← List.range'_append_1, List.countP_append, hzero, Nat.zero_add,
    Nat.add_sub_of_le hij, List.range'_succ, List.countP_cons, if_pos (decide_eq_true hocc)]
  rfl

/-- The positions before `m`, and those of what comes after. -/
theorem occurrences_eq_add (hm : m ≤ s.length) :
    occurrences f s =
      (List.range m).countP (fun i => OccursAt f s i) + occurrences f (s.drop m) := by
  have hlen : s.length + 1 = m + ((s.drop m).length + 1) := by
    rw [List.length_drop]
    omega
  rw [occurrences, hlen, List.range_add, List.countP_append, List.countP_map, occurrences]
  congr 1
  refine List.countP_congr fun j _ => ?_
  rw [Function.comp_apply, decide_eq_true_iff, decide_eq_true_iff, occursAt_drop hm]

theorem occurrences_eq_zero (h : ∀ j, ¬ OccursAt f s j) : occurrences f s = 0 :=
  List.countP_eq_zero.2 fun j _ hj => h j (of_decide_eq_true hj)

theorem occurrences_le (f s : List α) : occurrences f s ≤ s.length + 1 :=
  Nat.le_trans List.countP_le_length (Nat.le_of_eq List.length_range)

/-- The empty word stands everywhere. -/
theorem occurrences_nil (s : List α) : occurrences [] s = s.length + 1 := by
  rw [occurrences, List.countP_eq_length.2, List.length_range]
  intro i hi
  refine decide_eq_true ⟨?_, List.take_zero⟩
  have hlt := List.mem_range.1 hi
  omega

/-- The scan comes to no more occurrences than there are. -/
theorem disjoint_le_occurrences (hf : f ≠ []) (s : List α) : disjoint f s ≤ occurrences f s := by
  induction s using scan_induction hf with
  | hnone s h => rw [disjoint_of_none h]; exact Nat.zero_le _
  | hfirst s i h ih =>
      have hpos := List.length_pos_of_ne_nil hf
      have hmem : 0 < (List.range (i + f.length)).countP fun j => OccursAt f s j :=
        List.countP_pos_iff.2 ⟨i, List.mem_range.2 (by omega), decide_eq_true h.1⟩
      rw [h.disjoint hf, occurrences_eq_add h.1.add_length_le]
      omega

/-- One position of a range. -/
theorem countP_range_eq_one {p : ℕ → Bool} (hi : i < m) (hp : ∀ j < m, p j = true ↔ j = i) :
    (List.range m).countP p = 1 := by
  have hcount : (List.range m).countP p = (List.range m).count i := by
    rw [List.count]
    refine List.countP_congr fun j hj => ?_
    rw [hp j (List.mem_range.1 hj), beq_iff_eq]
  rw [hcount, List.count_eq_one_of_mem List.nodup_range (List.mem_range.2 hi)]

/-! ### The scan and all occurrences -/

/-- A word that cannot overlap itself has no occurrences but those that the scan comes to. -/
theorem Unbordered.disjoint_eq (hu : Unbordered f) (hf : f ≠ []) (s : List α) :
    disjoint f s = occurrences f s := by
  induction s using scan_induction hf with
  | hnone s h => rw [disjoint_of_none h, occurrences_eq_zero h]
  | hfirst s i h ih =>
      have hpos := List.length_pos_of_ne_nil hf
      have hone : (List.range (i + f.length)).countP (fun j => OccursAt f s j) = 1 := by
        refine countP_range_eq_one (i := i) (by omega) fun j hj => ?_
        rw [decide_eq_true_iff]
        refine ⟨fun hocc => ?_, fun hji => hji ▸ h.1⟩
        rcases Nat.lt_or_ge j i with hlt | hge
        · exact absurd hocc (h.2 j hlt)
        · exact hu.eq_of_occursAt h.1 hocc hge hj
      rw [h.disjoint hf, occurrences_eq_add h.1.add_length_le, hone, ih, Nat.add_comm]

/-- Put over itself as far as it can be, the word stands twice and the scan comes to one of them. -/
theorem exists_overlap (hf : f ≠ []) (h : ¬ Unbordered f) :
    ∃ s, s.length < 2 * f.length ∧ disjoint f s = 1 ∧ occurrences f s = 2 := by
  obtain ⟨b, ⟨u, hu⟩, ⟨v, hv⟩, hnil, hne, hlongest⟩ := exists_longest_border h
  have hb := List.length_pos_of_ne_nil hnil
  have hlen : v.length + b.length = f.length := by rw [← hv, List.length_append]
  have hvpos : 0 < v.length := by
    refine List.length_pos_of_ne_nil ?_
    rintro rfl
    exact hne hv
  -- `v ++ f` is `f ++ u` as well, and stands between the two
  have htext : v ++ f = f ++ u := by rw [← hu, ← List.append_assoc, hv, hu]
  have hzero : OccursAt f (v ++ f) 0 := htext ▸ occursAt_zero_append f u
  have hv' : (v ++ f).drop v.length = f := List.drop_left
  have hbetween : ∀ j < v.length, OccursAt f (v ++ f) j ↔ j = 0 := by
    intro j hj
    refine ⟨fun hocc => ?_, fun hj0 => hj0 ▸ hzero⟩
    obtain ⟨c, hpre, hsuf, hc⟩ := border_of_occursAt hzero hocc j.zero_le (by omega)
    by_contra hj0
    have hle := hlongest c hpre hsuf (by rintro rfl; omega)
    omega
  refine ⟨v ++ f, by rw [List.length_append]; omega, ?_, ?_⟩
  · have hfirst : FirstAt f (v ++ f) 0 := ⟨hzero, fun j hj => absurd hj j.not_lt_zero⟩
    rw [hfirst.disjoint hf, disjoint_of_none]
    intro j hj
    have hle := hj.add_length_le
    rw [List.length_drop, List.length_append] at hle
    omega
  · have hself : occurrences f f = 1 := by
      refine countP_range_eq_one (Nat.succ_pos _) fun j _ => ?_
      rw [decide_eq_true_iff]
      refine ⟨fun hocc => ?_, ?_⟩
      · have hle := hocc.add_length_le
        omega
      · rintro rfl
        exact ⟨Nat.zero_le _, List.take_length⟩
    have hone : (List.range v.length).countP (fun j => OccursAt f (v ++ f) j) = 1 :=
      countP_range_eq_one hvpos fun j hj => by rw [decide_eq_true_iff, hbetween j hj]
    rw [occurrences_eq_add (m := v.length) (by rw [List.length_append]; omega), hone, hv', hself]

end Words

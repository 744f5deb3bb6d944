/-
**The runs of a kind in a list.**

A list falls into maximal runs of elements that are of a kind and of elements that are not.  When
each run of the kind is replaced by one element of the kind, no two of them are left side by side,
and nothing changes in a list that was so already.

Main definitions:

* `Runs.runs` — the maximal runs of a list;
* `Runs.squeeze` — the list with one element for each run of the kind;
* `Runs.squeezeFrom` — the same in one pass, which remembers whether it is inside a run;
* `Runs.Squeezed` — all elements of the kind are the one element, and no two are side by side.

Main results:

* `Runs.squeezeFrom_false_eq` — the pass finds the runs;
* `Runs.squeezed_squeeze`, `Runs.squeeze_eq_self_iff` — what comes of it, and what stays as it is;
* `Runs.squeezed_iff` — the condition, with the two elements side by side as a part of the list.
-/

import Mathlib.Data.List.SplitBy

set_option relaxedAutoImplicit false
set_option autoImplicit false

namespace Runs

variable {α : Type*} {p : α → Bool} {x : α}

/-- The maximal runs of elements that are of the kind `p`, and of elements that are not. -/
def runs (p : α → Bool) (s : List α) : List (List α) := s.splitBy fun a b => p a == p b

/-- The list in which `x` stands for each run of the kind. -/
def squeeze (p : α → Bool) (x : α) (s : List α) : List α :=
  (runs p s).flatMap fun run => if run.all p then [x] else run

/-- One pass over the list, inside a run of the kind or not. -/
def squeezeFrom (p : α → Bool) (x : α) : Bool → List α → List α
  | _, [] => []
  | true, c :: s => if p c then squeezeFrom p x true s else c :: squeezeFrom p x false s
  | false, c :: s => if p c then x :: squeezeFrom p x true s else c :: squeezeFrom p x false s

/-! ### The pass goes from run to run -/

theorem squeezeFrom_cons_neg (on : Bool) {c : α} (s : List α) (h : ¬ p c) :
    squeezeFrom p x on (c :: s) = c :: squeezeFrom p x false s := by
  cases on <;> rw [squeezeFrom, if_neg h]

theorem squeezeFrom_true_append {run : List α} (rest : List α) (h : ∀ c ∈ run, p c) :
    squeezeFrom p x true (run ++ rest) = squeezeFrom p x true rest := by
  induction run with
  | nil => rfl
  | cons c run ih =>
      rw [List.cons_append, squeezeFrom, if_pos (h c List.mem_cons_self)]
      exact ih fun d hd => h d (List.mem_cons_of_mem c hd)

/-- A run of the kind leaves one element. -/
theorem squeezeFrom_false_append {run : List α} (rest : List α) (hne : run ≠ [])
    (h : ∀ c ∈ run, p c) :
    squeezeFrom p x false (run ++ rest) = x :: squeezeFrom p x true rest := by
  cases run with
  | nil => exact absurd rfl hne
  | cons c run =>
      rw [List.cons_append, squeezeFrom, if_pos (h c List.mem_cons_self), squeezeFrom_true_append]
      exact fun d hd => h d (List.mem_cons_of_mem c hd)

/-- A run of other elements is kept. -/
theorem squeezeFrom_append {run : List α} (on : Bool) (rest : List α) (hne : run ≠ [])
    (h : ∀ c ∈ run, p c = false) :
    squeezeFrom p x on (run ++ rest) = run ++ squeezeFrom p x false rest := by
  induction run generalizing on with
  | nil => exact absurd rfl hne
  | cons c run ih =>
      have hc : ¬ p c := Bool.eq_false_iff.1 (h c List.mem_cons_self)
      rw [List.cons_append, squeezeFrom_cons_neg on _ hc, List.cons_append]
      cases hrun : run with
      | nil => rfl
      | cons d run' =>
          rw [← hrun, ih false (by rw [hrun]; exact List.cons_ne_nil d run')]
          exact fun d hd => h d (List.mem_cons_of_mem c hd)

/-- The elements of a run are of one kind. -/
theorem eq_of_isChain {c : α} {run : List α}
    (h : (c :: run).IsChain fun a b => (p a == p b) = true) : ∀ d ∈ c :: run, p d = p c := by
  induction run generalizing c with
  | nil =>
      intro d hd
      rw [List.mem_singleton.1 hd]
  | cons b run ih =>
      rw [List.isChain_cons_cons, beq_iff_eq] at h
      intro d hd
      rcases List.mem_cons.1 hd with rfl | hd
      · rfl
      · rw [ih h.2 d hd, h.1]

theorem squeezeFrom_flatten (on : Bool) {rs : List (List α)} (hnil : [] ∉ rs)
    (hrun : ∀ run ∈ rs, run.IsChain fun a b => (p a == p b) = true)
    (hbetween : rs.IsChain fun a b => ∃ ha hb, (p (a.getLast ha) == p (b.head hb)) = false)
    (hon : on = true → ∀ run ∈ rs.head?, ∀ c ∈ run.head?, p c = false) :
    squeezeFrom p x on rs.flatten = rs.flatMap fun run => if run.all p then [x] else run := by
  induction rs generalizing on with
  | nil => cases on <;> rfl
  | cons run rs ih =>
      have hne : run ≠ [] := fun h => hnil (by rw [h]; exact List.mem_cons_self)
      obtain ⟨c, run', rfl⟩ := List.exists_cons_of_ne_nil hne
      have hkind := eq_of_isChain (hrun _ List.mem_cons_self)
      have hih : ∀ on' : Bool, (on' = true → ∀ run ∈ rs.head?, ∀ c ∈ run.head?, p c = false) →
          squeezeFrom p x on' rs.flatten =
            rs.flatMap fun run => if run.all p then [x] else run :=
        fun on' hon' => ih on' (fun h => hnil (List.mem_cons_of_mem _ h))
          (fun r hr => hrun r (List.mem_cons_of_mem _ hr)) hbetween.tail hon'
      rw [List.flatten_cons, List.flatMap_cons]
      by_cases hc : p c
      · -- the run is squeezed, and the next one is of the other kind
        have hall : ∀ d ∈ c :: run', p d := fun d hd => (hkind d hd).trans hc
        have hoff : on = false := by
          cases on with
          | false => rfl
          | true => rw [hon rfl _ rfl c rfl] at hc; cases hc
        have hnext : ∀ run ∈ rs.head?, ∀ c ∈ run.head?, p c = false := by
          intro run hr d hd
          obtain ⟨hlast, hhead, hdiff⟩ := (List.isChain_cons.1 hbetween).1 run hr
          rw [List.head_of_mem_head? hd, hall _ (List.getLast_mem hlast),
            beq_eq_false_iff_ne] at hdiff
          exact Bool.eq_false_iff.2 hdiff.symm
        rw [hoff, squeezeFrom_false_append _ hne hall, hih true fun _ => hnext,
          if_pos (List.all_eq_true.2 hall)]
        rfl
      · have hall : ∀ d ∈ c :: run', p d = false := fun d hd =>
          (hkind d hd).trans (Bool.eq_false_iff.2 hc)
        have hsome : ¬ (c :: run').all p := fun h =>
          hc (List.all_eq_true.1 h c List.mem_cons_self)
        rw [squeezeFrom_append on _ hne hall, hih false (fun h => by cases h), if_neg hsome]

/-- The pass finds the runs. -/
theorem squeezeFrom_false_eq (p : α → Bool) (x : α) (s : List α) :
    squeezeFrom p x false s = squeeze p x s := by
  have h := squeezeFrom_flatten (x := x) false
    (List.nil_notMem_splitBy (fun a b => p a == p b) s)
    (fun _ => List.isChain_of_mem_splitBy)
    (List.isChain_getLast_head_splitBy (fun a b => p a == p b) s) (fun h => by cases h)
  rw [List.flatten_splitBy] at h
  exact h

/-! ### What comes of it -/

/-- Elements of the kind are `x` and never side by side. -/
structure Squeezed (p : α → Bool) (x : α) (s : List α) : Prop where
  eq : ∀ c ∈ s, p c → c = x
  apart : s.IsChain fun a b => ¬ (p a ∧ p b)

theorem squeezed_nil : Squeezed p x [] := ⟨fun _ h => absurd h List.not_mem_nil, List.isChain_nil⟩

theorem squeezed_cons_iff {c : α} {s : List α} :
    Squeezed p x (c :: s) ↔
      (p c → c = x) ∧ (∀ d ∈ s.head?, ¬ (p c ∧ p d)) ∧ Squeezed p x s := by
  constructor
  · rintro ⟨heq, hapart⟩
    rw [List.isChain_cons] at hapart
    exact ⟨heq c List.mem_cons_self, hapart.1, fun d hd => heq d (List.mem_cons_of_mem c hd),
      hapart.2⟩
  · rintro ⟨hc, hhead, heq, hapart⟩
    refine ⟨fun d hd => ?_, List.isChain_cons.2 ⟨hhead, hapart⟩⟩
    rcases List.mem_cons.1 hd with rfl | hd
    · exact hc
    · exact heq d hd

theorem squeezed_squeezeFrom (on : Bool) (s : List α) :
    Squeezed p x (squeezeFrom p x on s) ∧
      (on = true → ∀ d ∈ (squeezeFrom p x on s).head?, ¬ p d) := by
  induction s generalizing on with
  | nil => cases on <;> exact ⟨squeezed_nil, fun _ _ h => by cases h⟩
  | cons c s ih =>
      by_cases hc : p c
      · cases on with
        | true =>
            rw [squeezeFrom, if_pos hc]
            exact ih true
        | false =>
            rw [squeezeFrom, if_pos hc]
            obtain ⟨hs, hhead⟩ := ih true
            refine ⟨squeezed_cons_iff.2 ⟨fun _ => rfl, ?_, hs⟩, fun h => by cases h⟩
            exact fun d hd hboth => hhead rfl d hd hboth.2
      · rw [squeezeFrom_cons_neg on s hc]
        refine ⟨squeezed_cons_iff.2 ⟨fun h => absurd h hc, ?_, (ih false).1⟩, ?_⟩
        · exact fun d _ hboth => hc hboth.1
        · intro _ d hd
          rw [← Option.some_inj.1 hd]
          exact hc

theorem squeezed_squeeze (s : List α) : Squeezed p x (squeeze p x s) := by
  rw [← squeezeFrom_false_eq]
  exact (squeezed_squeezeFrom false s).1

theorem squeezeFrom_eq_self (on : Bool) {s : List α} (h : Squeezed p x s)
    (hon : on = true → ∀ d ∈ s.head?, ¬ p d) : squeezeFrom p x on s = s := by
  induction s generalizing on with
  | nil => cases on <;> rfl
  | cons c s ih =>
      obtain ⟨heq, hhead, hs⟩ := squeezed_cons_iff.1 h
      by_cases hc : p c
      · have hoff : on = false := by
          cases on with
          | false => rfl
          | true => exact absurd hc (hon rfl c rfl)
        rw [hoff, squeezeFrom, if_pos hc, ih true hs fun _ d hd hp => hhead d hd ⟨hc, hp⟩, heq hc]
      · rw [squeezeFrom_cons_neg on s hc, ih false hs fun h => by cases h]

/-- A list stays as it is exactly when it is squeezed already. -/
theorem squeeze_eq_self_iff {s : List α} : squeeze p x s = s ↔ Squeezed p x s := by
  constructor
  · intro h
    rw [← h]
    exact squeezed_squeeze s
  · intro h
    rw [← squeezeFrom_false_eq]
    exact squeezeFrom_eq_self false h fun h => by cases h

theorem isChain_iff_not_infix {R : α → α → Prop} {s : List α} :
    s.IsChain R ↔ ∀ a b, [a, b] <:+: s → R a b := by
  induction s with
  | nil =>
      refine iff_of_true List.isChain_nil fun a b h => ?_
      cases List.infix_nil.1 h
  | cons c s ih =>
      rw [List.isChain_cons, ih]
      constructor
      · rintro ⟨hhead, hs⟩ a b h
        rcases List.infix_cons_iff.1 h with h | h
        · obtain ⟨rfl, t, rfl⟩ := List.cons_prefix_cons.1 h
          exact hhead b rfl
        · exact hs a b h
      · intro h
        refine ⟨fun d hd => ?_, fun a b hab => h a b (hab.trans (List.suffix_cons c s).isInfix)⟩
        cases s with
        | nil => cases hd
        | cons e s =>
            rw [← Option.some_inj.1 hd]
            exact h c _ ⟨[], s, rfl⟩

/-- The condition, with the two elements side by side as a part of the list. -/
theorem squeezed_iff (hx : p x) {s : List α} :
    Squeezed p x s ↔ (∀ c ∈ s, p c → c = x) ∧ ¬ [x, x] <:+: s := by
  constructor
  · rintro ⟨heq, hapart⟩
    exact ⟨heq, fun h => isChain_iff_not_infix.1 hapart x x h ⟨hx, hx⟩⟩
  · rintro ⟨heq, hno⟩
    refine ⟨heq, isChain_iff_not_infix.2 fun a b h hboth => hno ?_⟩
    have ha := heq a (h.subset List.mem_cons_self) hboth.1
    have hb := heq b (h.subset (List.mem_cons_of_mem a List.mem_cons_self)) hboth.2
    rw [ha, hb] at h
    exact h

end Runs

/-
**Labelled machines, their runs and their invariants.**

A concurrent program is read here as a machine: a set of initial states and a step relation whose
label says which thread did what.  Nothing in this module knows which program is meant; the rules
below are the ones every development about interleavings repeats.

Main definitions:

* `Machine`, `Machine.Run`, `Machine.Reachable` — machines, their runs with the list of the states
  left and the actions taken, and the states some run arrives in;
* `Machine.restrict` — the machine whose steps must also meet a condition on the state they leave;
* `Machine.Invariant` — a predicate that holds initially and is kept by every step;
* `Machine.Leads` — one state leads to another by some run.

Main results:

* `Machine.Invariant.reachable` — an invariant holds in every reachable state;
* `Machine.Invariant.relative` — an invariant may be proved with the help of another one;
* `Machine.Run.length_le` — a measure that every step but the idle ones decreases bounds a run;
* `Machine.Run.forall_visited_iff` — when a bad step leads to a bad state at once, and good steps
  keep the machine out of the bad states, a run avoids the bad states if and only if it avoids the
  bad steps.
-/

import Mathlib.Data.List.Basic

set_option relaxedAutoImplicit false
set_option autoImplicit false

universe u v

/-- A labelled machine: where a run may begin, and which steps it may take. -/
structure Machine (σ : Type u) (α : Type v) where
  /-- The states a run may begin in. -/
  init : σ → Prop
  /-- One step; the label records the action taken. -/
  step : σ → α → σ → Prop

namespace Machine

variable {σ : Type u} {α : Type v} (M : Machine σ α)

/-! ### Runs and reachable states -/

/-- `M.Run s₀ tr s`: the machine gets from `s₀` to `s`, and `tr` lists the states it left on the
way, each with the action it took there. -/
inductive Run (s₀ : σ) : List (σ × α) → σ → Prop
  | nil : Run s₀ [] s₀
  | snoc {tr : List (σ × α)} {s : σ} {a : α} {s' : σ} :
      Run s₀ tr s → M.step s a s' → Run s₀ (tr ++ [(s, a)]) s'

/-- What the steps of a run come to, if each counts for `c`. -/
def total (c : σ → α → ℕ) : List (σ × α) → ℕ
  | [] => 0
  | p :: tr => c p.1 p.2 + total c tr

@[simp] theorem total_nil (c : σ → α → ℕ) : total c [] = 0 := rfl

@[simp] theorem total_snoc (c : σ → α → ℕ) (tr : List (σ × α)) (s : σ) (a : α) :
    total c (tr ++ [(s, a)]) = total c tr + c s a := by
  induction tr with
  | nil => exact Nat.add_comm ..
  | cons p tr ih => rw [List.cons_append, total, total, ih, Nat.add_assoc]

/-- The states that some run from an initial state arrives in. -/
inductive Reachable : σ → Prop
  | init {s : σ} : M.init s → Reachable s
  | step {s : σ} {a : α} {s' : σ} : Reachable s → M.step s a s' → Reachable s'

/-- `M.Leads s s'`: some run goes from `s` to `s'`. -/
def Leads (s s' : σ) : Prop := ∃ tr, M.Run s tr s'

/-- The machine whose steps must also meet `C`, a condition on the state left and the action. -/
def restrict (C : σ → α → Prop) : Machine σ α where
  init := M.init
  step s a s' := M.step s a s' ∧ C s a

variable {M}

/-- A run from an initial state arrives in a reachable state. -/
theorem Run.reachable {s₀ s : σ} {tr : List (σ × α)} (h : M.Run s₀ tr s) (h₀ : M.Reachable s₀) :
    M.Reachable s := by
  induction h with
  | nil => exact h₀
  | snoc _ hs ih => exact ih.step hs

/-- The states left during a run are reachable too. -/
theorem Run.reachable_of_mem {s₀ s : σ} {tr : List (σ × α)} (h : M.Run s₀ tr s)
    (h₀ : M.Reachable s₀) : ∀ p ∈ tr, M.Reachable p.1 := by
  induction h with
  | nil => intro p hp; simp at hp
  | snoc hr hs ih =>
      intro p hp
      rcases List.mem_append.1 hp with hp | hp
      · exact ih p hp
      · obtain rfl : p = _ := by simpa using hp
        exact hr.reachable h₀

/-! ### Invariants -/

/-- A predicate that holds in the initial states and that every step keeps. -/
structure Invariant (M : Machine σ α) (I : σ → Prop) : Prop where
  init : ∀ s, M.init s → I s
  step : ∀ s a s', I s → M.step s a s' → I s'

/-- **An invariant holds in every reachable state.** -/
theorem Invariant.reachable {I : σ → Prop} (hI : M.Invariant I) {s : σ} (h : M.Reachable s) :
    I s := by
  induction h with
  | init h => exact hI.init _ h
  | step _ hs ih => exact hI.step _ _ _ ih hs

/-- An invariant proved with the help of another one. -/
theorem Invariant.relative {I J : σ → Prop} (hJ : M.Invariant J) (hinit : ∀ s, M.init s → I s)
    (hstep : ∀ s a s', J s → I s → M.step s a s' → I s') : M.Invariant fun s => J s ∧ I s where
  init s h := ⟨hJ.init s h, hinit s h⟩
  step s a s' h hs := ⟨hJ.step s a s' h.1 hs, hstep s a s' h.1 h.2 hs⟩

/-- An invariant of the machine is an invariant of every restriction of it. -/
theorem Invariant.restrict {I : σ → Prop} (hI : M.Invariant I) (C : σ → α → Prop) :
    (M.restrict C).Invariant I where
  init := hI.init
  step s a s' h hs := hI.step s a s' h hs.1

/-- A predicate kept by the steps between reachable states holds wherever a state leads in which
it holds. -/
theorem Leads.keeps {I : σ → Prop} (hI : ∀ s a s', M.Reachable s → I s → M.step s a s' → I s')
    {s s' : σ} (h : M.Leads s s') (hs : M.Reachable s) (h0 : I s) : I s' := by
  obtain ⟨tr, hr⟩ := h
  induction hr with
  | nil => exact h0
  | snoc hr hstep ih => exact hI _ _ _ (hr.reachable hs) ih hstep

/-! ### Measures -/

/-- **A run is no longer than what its measure had to lose**, idle steps not counted. -/
theorem Run.length_le {φ : σ → ℕ} {idle : α → Bool}
    (hφ : ∀ s a s', M.step s a s' → φ s' + (if idle a then 0 else 1) ≤ φ s) {s₀ s : σ}
    {tr : List (σ × α)} (h : M.Run s₀ tr s) :
    tr.length + φ s ≤ φ s₀ + tr.countP fun p => idle p.2 := by
  induction h with
  | nil => simp
  | @snoc tr s a s' _ hs ih =>
      have hstep := hφ s a s' hs
      rw [List.length_append, List.countP_append, List.length_singleton, List.countP_singleton]
      cases hidle : idle a with
      | true =>
          simp only [hidle, if_true] at hstep ⊢
          omega
      | false =>
          simp only [hidle, Bool.false_eq_true, if_false] at hstep ⊢
          omega

/-! ### Bad steps and bad states -/

/-- The states a run visits: the ones it leaves, and the one it arrives in. -/
def visited (tr : List (σ × α)) (s : σ) : List σ := tr.map Prod.fst ++ [s]

/-- A run visits the state at its end. -/
@[simp] theorem mem_visited (tr : List (σ × α)) (s : σ) : s ∈ visited tr s := by
  simp [visited]

@[simp] theorem visited_snoc (tr : List (σ × α)) (s : σ) (a : α) (s' : σ) :
    visited (tr ++ [(s, a)]) s' = visited tr s ++ [s'] := by
  simp [visited]

theorem Run.reachable_of_visited {s₀ s : σ} {tr : List (σ × α)} (h : M.Run s₀ tr s)
    (h₀ : M.Reachable s₀) : ∀ q ∈ visited tr s, M.Reachable q := by
  intro q hq
  rcases List.mem_append.1 hq with hq | hq
  · obtain ⟨p, hp, rfl⟩ := List.mem_map.1 hq
    exact h.reachable_of_mem h₀ p hp
  · obtain rfl : q = s := by simpa using hq
    exact h.reachable h₀

/-- If a bad step ends in a bad state, a run that visits no bad state takes no bad step. -/
theorem Run.forall_step_of_visited {C : σ → α → Prop} {P : σ → Prop}
    (hbad : ∀ s a s', M.Reachable s → M.step s a s' → ¬ C s a → ¬ P s') {s₀ s : σ}
    {tr : List (σ × α)} (h : M.Run s₀ tr s) (h₀ : M.Reachable s₀) (hP : ∀ q ∈ visited tr s, P q) :
    ∀ p ∈ tr, C p.1 p.2 := by
  induction h with
  | nil => intro p hp; simp at hp
  | @snoc tr s a s' hr hs ih =>
      rw [visited_snoc] at hP
      intro p hp
      rcases List.mem_append.1 hp with hp | hp
      · exact ih (fun q hq => hP q (List.mem_append_left _ hq)) p hp
      · obtain rfl : p = (s, a) := by simpa using hp
        by_contra hC
        exact hbad s a s' (hr.reachable h₀) hs hC (hP s' (by simp))

/-- A run that takes only good steps is a run of the restricted machine. -/
theorem Run.restrict {C : σ → α → Prop} {s₀ s : σ} {tr : List (σ × α)} (h : M.Run s₀ tr s)
    (hC : ∀ p ∈ tr, C p.1 p.2) : (M.restrict C).Run s₀ tr s := by
  induction h with
  | nil => exact .nil
  | @snoc tr s a s' _ hs ih =>
      refine .snoc (ih fun p hp => hC p (List.mem_append_left _ hp)) ⟨hs, ?_⟩
      exact hC (s, a) (by simp)

/-- A run of a restricted machine is a run of the machine. -/
theorem Run.of_restrict {C : σ → α → Prop} {s₀ s : σ} {tr : List (σ × α)}
    (h : (M.restrict C).Run s₀ tr s) : M.Run s₀ tr s := by
  induction h with
  | nil => exact .nil
  | snoc _ hs ih => exact ih.snoc hs.1

/-- The steps of a run of a restricted machine are good. -/
theorem Run.forall_of_restrict {C : σ → α → Prop} {s₀ s : σ} {tr : List (σ × α)}
    (h : (M.restrict C).Run s₀ tr s) : ∀ p ∈ tr, C p.1 p.2 := by
  induction h with
  | nil => intro p hp; simp at hp
  | @snoc tr s a s' _ hs ih =>
      intro p hp
      rcases List.mem_append.1 hp with hp | hp
      · exact ih p hp
      · obtain rfl : p = (s, a) := by simpa using hp
        exact hs.2

/-- **Avoiding the bad states is avoiding the bad steps.** -/
theorem Run.forall_visited_iff {C : σ → α → Prop} {P : σ → Prop}
    (hgood : ∀ s, (M.restrict C).Reachable s → P s)
    (hbad : ∀ s a s', M.Reachable s → M.step s a s' → ¬ C s a → ¬ P s') {s₀ s : σ}
    {tr : List (σ × α)} (h₀ : M.init s₀) (h : M.Run s₀ tr s) :
    (∀ q ∈ visited tr s, P q) ↔ ∀ p ∈ tr, C p.1 p.2 := by
  refine ⟨h.forall_step_of_visited hbad (.init h₀), fun hC q hq => hgood q ?_⟩
  have h₀' : (M.restrict C).Reachable s₀ := .init h₀
  exact (h.restrict hC).reachable_of_visited h₀' q hq

end Machine

/-
**The global object of `sutils/SingletonHelper.h`.**

`GlobalsSingleton` keeps two static pointers, which are zero before anything runs: `quick` points to
the object and `instance.guarded` to a `shared_ptr` on the heap.  Each translation unit that
declares `VMODULE_GLOBAL_REF` gets a `shared_ptr` of its own from `getInstance`, and each use of the
global name calls `getQuick`.  When the program ends, the references go one by one, and so does
`instance`, whose destructor deletes the `shared_ptr` that it guards.  The order of all this is not
known.

A shared pointer is a control block that has the object and the count.  An operation has no result
where the program would access what has been deleted.

Main definitions:

* `VModule.GlobalsSingleton.State`, `VModule.GlobalsSingleton.Op` — the pointers, and what is done;
* `VModule.GlobalsSingleton.getQuick`, `VModule.GlobalsSingleton.getInstance` — the functions;
* `VModule.GlobalsSingleton.exec`, `VModule.GlobalsSingleton.machine` — programs;
* `VModule.GlobalsSingleton.Sound` — what holds at all times;
* `VModule.GlobalsSingleton.Acquired`, `VModule.GlobalsSingleton.Ended` — what has been done.

Main results:

* `VModule.GlobalsSingleton.sound_invariant` — the invariant;
* `VModule.singleton_life` — **one object, from the first use to the end**.
-/

import VModule.Machine
import VModule.Tally

set_option relaxedAutoImplicit false
set_option autoImplicit false

namespace VModule

open Function

namespace GlobalsSingleton

/-! ### Objects and references -/

/-- The control block of a `shared_ptr`. -/
structure Block where
  object : ℕ
  useCount : ℕ

/-- The static members, the references, and the heap. -/
structure State (Ref : Type) where
  quick : Option ℕ
  /-- The block of the `shared_ptr` that `instance.guarded` points to. -/
  guarded : Option ℕ
  /-- That `shared_ptr` has been deleted. -/
  guardDeleted : Bool
  /-- The destructor of `instance` has run. -/
  deinitialized : Bool
  refs : Ref → Option ℕ
  blocks : ℕ → Block
  made : ℕ
  blocksMade : ℕ
  /-- How often an object has been deleted. -/
  deleted : ℕ → ℕ

variable {Ref : Type}

/-- Before anything runs. -/
def start : State Ref where
  quick := none
  guarded := none
  guardDeleted := false
  deinitialized := false
  refs _ := none
  blocks _ := ⟨0, 0⟩
  made := 0
  blocksMade := 0
  deleted _ := 0

namespace State

variable (s : State Ref)

/-- `quick = new T`. -/
def makeQuick : State Ref := { s with quick := some s.made, made := s.made + 1 }

/-- `instance.guarded = new std::shared_ptr<T>(quick)`, where `quick` points to `o`. -/
def makeGuarded (o : ℕ) : State Ref :=
  { s with
    guarded := some s.blocksMade
    blocks := update s.blocks s.blocksMade ⟨o, 1⟩
    blocksMade := s.blocksMade + 1 }

/-- One more `shared_ptr` has the block. -/
def share (b : ℕ) : State Ref :=
  { s with blocks := update s.blocks b ⟨(s.blocks b).object, (s.blocks b).useCount + 1⟩ }

/-- A `shared_ptr` is destroyed; the last one deletes the object. -/
def release (b : ℕ) : State Ref :=
  let block := s.blocks b
  { s with
    blocks := update s.blocks b ⟨block.object, block.useCount - 1⟩
    deleted :=
      if block.useCount = 1 then update s.deleted block.object (s.deleted block.object + 1)
      else s.deleted }

/-- What a reference holds. -/
def setRef [DecidableEq Ref] (r : Ref) (v : Option ℕ) : State Ref :=
  { s with refs := update s.refs r v }

end State

/-! ### The functions -/

def getQuick (s : State Ref) : State Ref × ℕ :=
  match s.quick with
  | some o => (s, o)
  | none => (s.makeQuick, s.made)

/-- `getInstance`, up to the copy that it returns. -/
def guard (s : State Ref) : State Ref × ℕ :=
  match s.guarded with
  | some b => (s, b)
  | none =>
      let (s, o) := getQuick s
      (s.makeGuarded o, s.blocksMade)

/-- A reference is initialized with what `getInstance` returns. -/
def getInstance [DecidableEq Ref] (r : Ref) (s : State Ref) : Option (State Ref) :=
  let (s, b) := guard s
  if s.guardDeleted then none
  else some ((s.share b).setRef r (some b))

/-! ### Programs -/

/-- What is done. -/
inductive Op (Ref : Type) where
  /-- `VMODULE_GLOBAL_REF`, the initialization -/
  | getInstance (r : Ref)
  /-- a copy of a reference -/
  | copy (r other : Ref)
  /-- a reference is destroyed -/
  | destroy (r : Ref)
  /-- `VMODULE_GLOBAL_USE`, and an access to the object -/
  | use
  /-- the destructor of `instance` -/
  | destroyInstance

def exec [DecidableEq Ref] (s : State Ref) : Op Ref → Option (State Ref)
  | .getInstance r => getInstance r s
  | .copy r other =>
      match s.refs other with
      | none => some s
      | some b => some ((s.share b).setRef r (some b))
  | .destroy r =>
      match s.refs r with
      | none => some s
      | some b => some ((s.release b).setRef r none)
  | .use =>
      let (s, o) := getQuick s
      if s.deleted o = 0 then some s else none
  | .destroyInstance =>
      match s.guarded with
      | none => some { s with deinitialized := true }
      | some b => some { s.release b with guardDeleted := true, deinitialized := true }

/-- A reference is initialized once, and `instance` is destroyed once. -/
def Valid (s : State Ref) : Op Ref → Prop
  | .getInstance r | .copy r _ => s.refs r = none
  | .destroyInstance => s.deinitialized = false
  | .destroy _ | .use => True

/-- A program that has not failed yet. -/
def machine (Ref : Type) [DecidableEq Ref] : Machine (State Ref) (Op Ref) where
  init s := s = start
  step s a s' := Valid s a ∧ exec s a = some s'

/-! ### What holds at all times -/

/-- The `shared_ptr` that `instance` guards counts. -/
def State.guards (s : State Ref) : ℕ := if s.guarded = none ∨ s.guardDeleted = true then 0 else 1

/-- A reference counts. -/
def counts (v : Option ℕ) : ℕ := if v = none then 0 else 1

/-- There are no more than one object and one control block, and the count is right. -/
structure Sound (s : State Ref) : Prop where
  few : AlmostIdle none s.refs
  made : (s.quick = none ∧ s.made = 0) ∨ (s.quick = some 0 ∧ s.made = 1)
  guarded : (s.guarded = none ∧ s.blocksMade = 0) ∨
    (s.guarded = some 0 ∧ s.blocksMade = 1 ∧ s.quick = some 0 ∧ (s.blocks 0).object = 0)
  ref : ∀ r b, s.refs r = some b → b = 0 ∧ s.guarded = some 0
  guardDeleted : s.guardDeleted = true → s.guarded = some 0 ∧ s.deinitialized = true
  useCount : s.guarded = some 0 → (s.blocks 0).useCount = tally counts s.refs + s.guards
  deleted : ∀ o, s.deleted o =
    if o = 0 ∧ s.guarded = some 0 ∧ (s.blocks 0).useCount = 0 then 1 else 0

namespace Sound

variable {s : State Ref} {r : Ref} {b : ℕ}

theorem start : Sound (start : State Ref) where
  few := AlmostIdle.const none
  made := .inl ⟨rfl, rfl⟩
  guarded := .inl ⟨rfl, rfl⟩
  ref r b h := by cases h
  guardDeleted h := by cases h
  useCount h := by cases h
  deleted o := by simp [GlobalsSingleton.start]

/-- Without a guard there are no references. -/
theorem tally_eq_zero (h : Sound s) (hguarded : s.guarded = none) : tally counts s.refs = 0 := by
  refine (tally_eq_zero_iff h.few rfl).2 fun r => ?_
  cases hr : s.refs r with
  | none => rfl
  | some b =>
      have hsome := (h.ref r b hr).2
      rw [hguarded] at hsome
      cases hsome

theorem getQuick (h : Sound s) :
    Sound (getQuick s).1 ∧ (GlobalsSingleton.getQuick s).2 = 0 ∧
      (GlobalsSingleton.getQuick s).1 = { s with quick := some 0, made := 1 } := by
  rcases h.made with ⟨hquick, hmade⟩ | ⟨hquick, hmade⟩
  · have heq : GlobalsSingleton.getQuick s = (s.makeQuick, s.made) := by
      rw [GlobalsSingleton.getQuick, hquick]
    have hfresh : s.guarded = none ∧ s.blocksMade = 0 := by
      rcases h.guarded with hnone | ⟨-, -, hsome, -⟩
      · exact hnone
      · rw [hquick] at hsome
        cases hsome
    rw [heq]
    refine ⟨{ h with made := .inr ?_, guarded := .inl hfresh }, hmade, ?_⟩
    · simp only [State.makeQuick, hmade, Nat.zero_add, and_self]
    · simp only [State.makeQuick, hmade, Nat.zero_add]
  · have heq : GlobalsSingleton.getQuick s = (s, 0) := by
      rw [GlobalsSingleton.getQuick, hquick]
    rw [heq]
    refine ⟨h, rfl, ?_⟩
    rw [← hquick, ← hmade]

/-- After `getInstance` has made what was missing, `instance` guards a block. -/
theorem guard (h : Sound s) :
    Sound (guard s).1 ∧ (GlobalsSingleton.guard s).2 = 0 ∧
      (GlobalsSingleton.guard s).1.guarded = some 0 ∧
      (GlobalsSingleton.guard s).1.refs = s.refs ∧
      (GlobalsSingleton.guard s).1.guardDeleted = s.guardDeleted := by
  rcases h.guarded with ⟨hguarded, hblocks⟩ | ⟨hguarded, -⟩
  · obtain ⟨hquick, hzero, heq⟩ := h.getQuick
    have hguard : GlobalsSingleton.guard s =
        ((GlobalsSingleton.getQuick s).1.makeGuarded 0, 0) := by
      rw [GlobalsSingleton.guard, hguarded]
      simp only [hzero, heq, hblocks]
    have hrefs := h.tally_eq_zero hguarded
    have hlive : s.guardDeleted = false := by
      cases hdeleted : s.guardDeleted with
      | false => rfl
      | true =>
          have hsome := (h.guardDeleted hdeleted).1
          rw [hguarded] at hsome
          cases hsome
    rw [hguard, heq]
    refine ⟨?_, rfl, ?_, rfl, rfl⟩
    · constructor
      · exact h.few
      · exact .inr ⟨rfl, rfl⟩
      · refine .inr ⟨?_, ?_, rfl, ?_⟩
        · simp only [State.makeGuarded, hblocks]
        · simp only [State.makeGuarded, hblocks, Nat.zero_add]
        · simp only [State.makeGuarded, hblocks, update_self]
      · intro r b hr
        have hsome := (h.ref r b hr).2
        rw [hguarded] at hsome
        cases hsome
      · intro hdeleted
        exact absurd (hlive.symm.trans hdeleted) (by simp)
      · intro _
        simp [State.makeGuarded, State.guards, hblocks, hlive, hrefs]
      · intro o
        have hzero := h.deleted o
        rw [if_neg (by simp [hguarded])] at hzero
        simp [State.makeGuarded, hblocks, hzero]
    · simp only [State.makeGuarded, hblocks]
  · have hguard : GlobalsSingleton.guard s = (s, 0) := by
      rw [GlobalsSingleton.guard, hguarded]
    rw [hguard]
    exact ⟨h, rfl, hguarded, rfl, rfl⟩

/-- What `instance` guards. -/
theorem block (h : Sound s) (hguarded : s.guarded = some 0) :
    s.blocksMade = 1 ∧ s.quick = some 0 ∧ (s.blocks 0).object = 0 := by
  rcases h.guarded with ⟨hno, -⟩ | ⟨-, hblock⟩
  · rw [hguarded] at hno
    cases hno
  · exact hblock

/-- The block after a `shared_ptr` has been destroyed. -/
theorem release_deleted (h : Sound s) (hguarded : s.guarded = some 0)
    (hpos : 0 < (s.blocks 0).useCount) (o : ℕ) :
    (s.release 0).deleted o =
      if o = 0 ∧ s.guarded = some 0 ∧ ((s.release 0).blocks 0).useCount = 0 then 1 else 0 := by
  obtain ⟨-, -, hobject⟩ := h.block hguarded
  have hbefore : ∀ o, s.deleted o = 0 := by
    intro o
    rw [h.deleted, if_neg (by omega)]
  simp only [State.release, update_self, hobject, hguarded, true_and]
  by_cases hone : (s.blocks 0).useCount = 1
  · rw [if_pos hone, hone]
    rcases eq_or_ne o 0 with rfl | hne
    · simp [hbefore]
    · simp [hne, hbefore]
  · rw [if_neg hone, hbefore, if_neg (by omega)]

/-- The block is still there, after a `shared_ptr` has been destroyed. -/
theorem release_block (h : Sound s) (hguarded : s.guarded = some 0) :
    s.blocksMade = 1 ∧ s.quick = some 0 ∧ ((s.release 0).blocks 0).object = 0 := by
  obtain ⟨hblocks, hquick, hobject⟩ := h.block hguarded
  refine ⟨hblocks, hquick, ?_⟩
  simp only [State.release, update_self, hobject]

/-- `instance` is destroyed. -/
theorem destroyInstance (h : Sound s) (hguarded : s.guarded = some 0)
    (hlive : s.guardDeleted = false) :
    Sound { s.release 0 with guardDeleted := true, deinitialized := true } := by
  have hcount := h.useCount hguarded
  have hguards : s.guards = 1 := by simp [State.guards, hguarded, hlive]
  constructor
  · exact h.few
  · exact h.made
  · exact .inr ⟨hguarded, h.release_block hguarded⟩
  · exact h.ref
  · exact fun _ => ⟨hguarded, rfl⟩
  · intro _
    have hgone : State.guards { s.release 0 with guardDeleted := true, deinitialized := true } =
        0 := by simp [State.guards]
    rw [hgone]
    simp only [State.release, update_self]
    omega
  · exact h.release_deleted hguarded (by omega)

/-- A `shared_ptr` that can be copied counts. -/
theorem useCount_pos (h : Sound s) (hguarded : s.guarded = some 0)
    (hlive : s.guardDeleted = false ∨ s.refs r = some 0) : 0 < (s.blocks 0).useCount := by
  have hcount := h.useCount hguarded
  rcases hlive with hlive | hr
  · have hguards : s.guards = 1 := by simp [State.guards, hguarded, hlive]
    omega
  · have hle := le_tally h.few (w := counts) rfl r
    have hone : counts (s.refs r) = 1 := by rw [hr]; rfl
    omega

variable [DecidableEq Ref]

/-- A reference is initialized. -/
theorem share (h : Sound s) (hr : s.refs r = none) (hguarded : s.guarded = some 0)
    (hpos : 0 < (s.blocks 0).useCount) :
    Sound ((s.share 0).setRef r (some 0)) := by
  have htally := tally_update h.few (w := counts) rfl r (some 0)
  rw [hr] at htally
  have hone : counts (some 0) = 1 := rfl
  have hnone : counts none = 0 := rfl
  constructor
  · exact h.few.update r (some 0)
  · exact h.made
  · obtain ⟨hblocks, hquick, hobject⟩ := h.block hguarded
    refine .inr ⟨hguarded, hblocks, hquick, ?_⟩
    simp only [State.setRef, State.share, update_self, hobject]
  · intro r' b hb
    replace hb : update s.refs r (some 0) r' = some b := hb
    rcases eq_or_ne r' r with rfl | hne
    · rw [update_self] at hb
      exact ⟨(Option.some_inj.1 hb).symm, hguarded⟩
    · rw [update_of_ne hne] at hb
      exact h.ref r' b hb
  · exact h.guardDeleted
  · intro hsome
    have hcount := h.useCount hguarded
    have hguards : ((s.share 0).setRef r (some 0)).guards = s.guards := rfl
    rw [hguards]
    simp only [State.setRef, State.share, update_self]
    omega
  · intro o
    have hdeleted := h.deleted o
    rw [if_neg (by omega)] at hdeleted
    simp only [State.setRef, State.share, update_self]
    rw [if_neg (by omega), hdeleted]

/-- A reference is destroyed. -/
theorem destroy (h : Sound s) (hr : s.refs r = some 0) :
    Sound ((s.release 0).setRef r none) := by
  have hguarded := (h.ref r 0 hr).2
  have htally := tally_update h.few (w := counts) rfl r none
  rw [hr] at htally
  have hone : counts (some 0) = 1 := rfl
  have hnone : counts none = 0 := rfl
  have hcount := h.useCount hguarded
  constructor
  · exact h.few.update r none
  · exact h.made
  · exact .inr ⟨hguarded, h.release_block hguarded⟩
  · intro r' b hb
    replace hb : update s.refs r none r' = some b := hb
    rcases eq_or_ne r' r with rfl | hne
    · rw [update_self] at hb
      cases hb
    · rw [update_of_ne hne] at hb
      exact h.ref r' b hb
  · exact h.guardDeleted
  · intro _
    have hguards : ((s.release 0).setRef r none).guards = s.guards := rfl
    rw [hguards]
    simp only [State.setRef, State.release, update_self]
    omega
  · exact h.release_deleted hguarded (by omega)

theorem getInstance_eq (h : Sound s) :
    getInstance r s =
      if s.guardDeleted then none
      else some (((GlobalsSingleton.guard s).1.share 0).setRef r (some 0)) := by
  obtain ⟨-, hzero, -, -, hdeleted⟩ := h.guard
  simp only [getInstance, hzero, hdeleted]

theorem use_eq (h : Sound s) :
    exec s .use = if s.deleted 0 = 0 then some { s with quick := some 0, made := 1 } else none := by
  obtain ⟨-, hzero, heq⟩ := h.getQuick
  simp only [exec, hzero, heq]

/-- **Whatever is done.** -/
theorem exec {a : Op Ref} {s' : State Ref} (h : Sound s) (hvalid : Valid s a)
    (hexec : exec s a = some s') : Sound s' := by
  cases a with
  | getInstance r =>
      obtain ⟨hguard, -, hguarded, hrefs, hdeleted⟩ := h.guard
      rw [GlobalsSingleton.exec, h.getInstance_eq] at hexec
      split at hexec
      · cases hexec
      · rename_i hlive
        rw [← hdeleted, Bool.not_eq_true] at hlive
        obtain rfl := Option.some_inj.1 hexec
        refine hguard.share ?_ hguarded (hguard.useCount_pos (r := r) hguarded (.inl hlive))
        rw [hrefs]
        exact hvalid
  | copy r other =>
      rw [GlobalsSingleton.exec] at hexec
      cases hother : s.refs other with
      | none =>
          simp only [hother] at hexec
          exact Option.some_inj.1 hexec ▸ h
      | some b =>
          obtain ⟨rfl, hguarded⟩ := h.ref other b hother
          simp only [hother] at hexec
          obtain rfl := Option.some_inj.1 hexec
          exact h.share hvalid hguarded (h.useCount_pos hguarded (.inr hother))
  | destroy r =>
      rw [GlobalsSingleton.exec] at hexec
      cases hr : s.refs r with
      | none =>
          simp only [hr] at hexec
          exact Option.some_inj.1 hexec ▸ h
      | some b =>
          obtain ⟨rfl, -⟩ := h.ref r b hr
          simp only [hr] at hexec
          obtain rfl := Option.some_inj.1 hexec
          exact h.destroy hr
  | use =>
      rw [h.use_eq] at hexec
      split at hexec
      · obtain ⟨hquick, -, heq⟩ := h.getQuick
        obtain rfl := Option.some_inj.1 hexec
        exact heq ▸ hquick
      · cases hexec
  | destroyInstance =>
      rw [GlobalsSingleton.exec] at hexec
      split at hexec
      · obtain rfl := Option.some_inj.1 hexec
        exact { h with guardDeleted := fun hdeleted => ⟨(h.guardDeleted hdeleted).1, rfl⟩ }
      · rename_i b hb
        obtain rfl := Option.some_inj.1 hexec
        obtain rfl : b = 0 := by
          rcases h.guarded with ⟨hguarded, -⟩ | ⟨hguarded, -⟩
          · rw [hb] at hguarded
            cases hguarded
          · exact Option.some_inj.1 (hb.symm.trans hguarded)
        have hlive : s.guardDeleted = false := by
          cases hdeleted : s.guardDeleted with
          | false => rfl
          | true => exact absurd ((h.guardDeleted hdeleted).2.symm.trans hvalid) (by simp)
        exact h.destroyInstance hb hlive

end Sound

/-! ### What has been done -/

variable {s s' : State Ref} {a : Op Ref} {tr : List (State Ref × Op Ref)}

theorem sound_invariant [DecidableEq Ref] : (machine Ref).Invariant Sound where
  init _ h := h ▸ Sound.start
  step _ _ _ h hstep := Sound.exec h hstep.1 hstep.2

/-- A reference has been initialized. -/
def Acquired (tr : List (State Ref × Op Ref)) : Prop := ∃ p ∈ tr, ∃ r, p.2 = .getInstance r

/-- `instance` has been destroyed, after a reference has been initialized. -/
def Ended (tr : List (State Ref × Op Ref)) : Prop :=
  ∃ tr₁ s₁ tr₂, tr = tr₁ ++ (s₁, .destroyInstance) :: tr₂ ∧ Acquired tr₁

theorem acquired_snoc : Acquired (tr ++ [(s, a)]) ↔ Acquired tr ∨ ∃ r, a = .getInstance r := by
  simp only [Acquired, List.mem_append, List.mem_singleton, or_and_right, exists_or, exists_eq_left]

theorem ended_snoc : Ended (tr ++ [(s, a)]) ↔ Ended tr ∨ a = .destroyInstance ∧ Acquired tr := by
  constructor
  · intro h
    obtain ⟨tr₁, s₁, tr₂, heq, hacquired⟩ := h
    rcases List.eq_nil_or_concat' tr₂ with rfl | ⟨tr₂, p, rfl⟩
    · obtain ⟨rfl, hlast⟩ := List.append_inj' heq rfl
      exact .inr ⟨(Prod.mk.inj (List.cons.inj hlast).1).2, hacquired⟩
    · rw [← List.cons_append, ← List.append_assoc] at heq
      exact .inl ⟨tr₁, s₁, tr₂, (List.append_inj' heq rfl).1, hacquired⟩
  · intro h
    rcases h with ⟨tr₁, s₁, tr₂, rfl, hacquired⟩ | ⟨rfl, hacquired⟩
    · exact ⟨tr₁, s₁, tr₂ ++ [(s, a)], by rw [List.append_assoc, List.cons_append], hacquired⟩
    · exact ⟨tr, s, [], rfl, hacquired⟩

/-- When `instance` gets something to guard, and when that goes. -/
theorem exec_guard [DecidableEq Ref] (h : Sound s) (hexec : exec s a = some s') :
    (s'.guarded ≠ none ↔ s.guarded ≠ none ∨ ∃ r, a = .getInstance r) ∧
      (s'.guardDeleted = true ↔
        s.guardDeleted = true ∨ a = .destroyInstance ∧ s.guarded ≠ none) := by
  cases a with
  | getInstance r =>
      obtain ⟨-, -, hguarded, -, hdeleted⟩ := h.guard
      rw [exec, h.getInstance_eq] at hexec
      split at hexec
      · cases hexec
      · obtain rfl := Option.some_inj.1 hexec
        simp [State.share, State.setRef, hguarded, hdeleted]
  | copy r other =>
      rw [exec] at hexec
      split at hexec <;> obtain rfl := Option.some_inj.1 hexec <;>
        simp [State.share, State.setRef]
  | destroy r =>
      rw [exec] at hexec
      split at hexec <;> obtain rfl := Option.some_inj.1 hexec <;>
        simp [State.release, State.setRef]
  | use =>
      rw [h.use_eq] at hexec
      split at hexec
      · obtain rfl := Option.some_inj.1 hexec
        simp
      · cases hexec
  | destroyInstance =>
      rw [exec] at hexec
      split at hexec
      · rename_i hnone
        obtain rfl := Option.some_inj.1 hexec
        simp [hnone]
      · rename_i b hb
        obtain rfl := Option.some_inj.1 hexec
        simp [State.release, hb]

/-- What the run has done to `instance`. -/
theorem run_guard [DecidableEq Ref] (h : (machine Ref).Run start tr s) :
    (s.guarded ≠ none ↔ Acquired tr) ∧ (s.guardDeleted = true ↔ Ended tr) := by
  induction h with
  | nil => simp [start, Acquired, Ended]
  | @snoc tr s a s' hr hstep ih =>
      obtain ⟨hguarded, hdeleted⟩ :=
        exec_guard (sound_invariant.reachable (hr.reachable (.init rfl))) hstep.2
      rw [acquired_snoc, ended_snoc, ← ih.1, ← ih.2]
      exact ⟨hguarded, hdeleted⟩

/-- When the object goes. -/
theorem Sound.gone_iff (h : Sound s) :
    s.guarded = some 0 ∧ (s.blocks 0).useCount = 0 ↔
      s.guardDeleted = true ∧ ∀ r, s.refs r = none := by
  have hzero : tally counts s.refs = 0 ↔ ∀ r, s.refs r = none := by
    rw [tally_eq_zero_iff h.few rfl]
    refine forall_congr' fun r => ?_
    cases s.refs r <;> simp [counts]
  constructor
  · intro hgone
    have hcount := h.useCount hgone.1
    refine ⟨?_, hzero.1 (by omega)⟩
    by_contra hlive
    have hguards : s.guards = 1 := by simp [State.guards, hgone.1, hlive]
    omega
  · intro hgone
    obtain ⟨hguarded, -⟩ := h.guardDeleted hgone.1
    have hcount := h.useCount hguarded
    have hguards : s.guards = 0 := if_pos (.inr hgone.1)
    rw [hzero.2 hgone.2, hguards] at hcount
    exact ⟨hguarded, hcount⟩

end GlobalsSingleton

open GlobalsSingleton

/-- **One object, from the first use to the end.**  Whatever is done, in whatever order: one object
is made at the most, every reference has it, and it is there as long as there is a reference.  It is
deleted once, after a reference has been initialized, when both `instance` and all references have
gone; then, and only then, the global name leads to an object that is not there.  No reference can
be initialized once `instance` has gone, if one has been before. -/
theorem singleton_life {Ref : Type} [DecidableEq Ref]
    {tr : List (GlobalsSingleton.State Ref × GlobalsSingleton.Op Ref)}
    {s : GlobalsSingleton.State Ref} (h : (GlobalsSingleton.machine Ref).Run start tr s) :
    s.made ≤ 1 ∧ s.blocksMade ≤ 1 ∧
      (∀ r b, s.refs r = some b →
        s.quick = some (s.blocks b).object ∧ s.deleted (s.blocks b).object = 0) ∧
      (∀ o, s.deleted o ≤ 1) ∧
      ((∃ o, s.deleted o = 1) ↔ Ended tr ∧ ∀ r, s.refs r = none) ∧
      (exec s .use = none ↔ Ended tr ∧ ∀ r, s.refs r = none) ∧
      ∀ r, exec s (.getInstance r) = none ↔ Ended tr := by
  have hsound := sound_invariant.reachable (h.reachable (.init rfl))
  obtain ⟨-, hended⟩ := run_guard h
  have hgone := hsound.gone_iff
  rw [hended] at hgone
  have hdeleted : s.deleted 0 = 1 ↔ Ended tr ∧ ∀ r, s.refs r = none := by
    rw [← hgone, hsound.deleted]
    simp
  have hle : ∀ o, s.deleted o ≤ 1 := by
    intro o
    rw [hsound.deleted]
    split <;> omega
  refine ⟨?_, ?_, fun r b hr => ?_, hle, ?_, ?_, fun r => ?_⟩
  · rcases hsound.made with ⟨-, hmade⟩ | ⟨-, hmade⟩ <;> omega
  · rcases hsound.guarded with ⟨-, hblocks⟩ | ⟨-, hblocks, -⟩ <;> omega
  · obtain ⟨rfl, hguarded⟩ := hsound.ref r b hr
    have hpos := hsound.useCount_pos hguarded (.inr hr)
    obtain ⟨-, hquick, hobject⟩ := hsound.block hguarded
    rw [hobject, hsound.deleted, if_neg (by omega)]
    exact ⟨hquick, rfl⟩
  · rw [← hdeleted]
    constructor
    · intro hone
      obtain ⟨o, ho⟩ := hone
      obtain rfl : o = 0 := by
        by_contra hne
        rw [hsound.deleted, if_neg (by simp [hne])] at ho
        cases ho
      exact ho
    · exact fun hone => ⟨0, hone⟩
  · rw [hsound.use_eq, ← hdeleted]
    have hle0 := hle 0
    split <;> simp <;> omega
  · rw [exec, hsound.getInstance_eq, ← hended]
    split <;> simp_all

/-- A program with one reference, which goes after `instance`. -/
theorem singleton_life_last : ∃ tr, ∃ s : GlobalsSingleton.State Unit,
    (GlobalsSingleton.machine Unit).Run start tr s ∧ (∃ o, s.deleted o = 1) ∧
      exec s .use = none := by
  have hstep : ∀ s (a : GlobalsSingleton.Op Unit) s', Valid s a → exec s a = some s' →
      (GlobalsSingleton.machine Unit).step s a s' := fun s a s' hvalid hexec => ⟨hvalid, hexec⟩
  have h₁ : (GlobalsSingleton.machine Unit).Run start [] start := .nil
  have h₂ := h₁.snoc (hstep _ (.getInstance ()) _ rfl rfl)
  have h₃ := h₂.snoc (hstep _ .destroyInstance _ rfl rfl)
  have h₄ := h₃.snoc (hstep _ (.destroy ()) _ trivial rfl)
  obtain ⟨-, -, -, -, hone, huse, -⟩ := singleton_life h₄
  have hended := (run_guard h₄).2.1 rfl
  exact ⟨_, _, h₄, hone.2 ⟨hended, fun _ => rfl⟩, huse.2 ⟨hended, fun _ => rfl⟩⟩

end VModule

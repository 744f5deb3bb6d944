/-
**The comparisons of `wp`.**

The operators of `include/sutils/RefBase.h` that compare two `wp` of the same type, over the
pointers of `VModule/StrongPointer.lean`.  They look at both members, but `operator !=` looks at
`m_refs` only.  A `wp` that points to an object has the `weakref_impl` of this object; in one that
is null, `m_refs` is what was in memory before, or what `clear` has left there.

What is compared are addresses.  The memory of a `weakref_impl` is given out again once it has been
deleted, so two objects may have theirs in one place, at different times.

Main definitions:

* `VModule.Pointers.Layout`, `VModule.Pointers.Layout.Fits` — where the objects are, and that a new
  one is not put where the `weakref_impl` of another one still is;
* `VModule.Pointers.WeakPointer.eq`, `ne`, `lt`, `gt`, `le`, `ge` — the operators;
* `VModule.Pointers.Coherent` — the operators fit together;
* `VModule.Pointers.Agree` — the members `m_refs` of two `wp` go together;
* `VModule.Pointers.Op.leaves`, `VModule.Pointers.Op.Agrees` — what an operation leaves in a `wp`,
  and that it agrees with the others.

Main results:

* `VModule.Pointers.coherent_iff_agree` — two `wp` and their members;
* `VModule.Pointers.wps_of_exec` — an operation changes one `wp` at most;
* `VModule.Pointers.apart_invariant` — the objects that are pointed to lie apart;
* `VModule.coherent_iff_agrees` — the programs in which the operators fit together.
-/

import VModule.StrongPointerRuns

set_option relaxedAutoImplicit false
set_option autoImplicit false

namespace VModule

namespace Pointers

open Function

variable {Oid Var : Type}

/-! ### The operators -/

/-- Where the objects and their `weakref_impl` are, each as long as it exists. -/
structure Layout (Oid : Type) where
  object : Oid → ℕ
  weakrefImpl : Oid → ℕ
  object_pos : ∀ o, 0 < object o
  weakrefImpl_pos : ∀ o, 0 < weakrefImpl o

namespace Layout

/-- The address in `m_ptr`. -/
def mPtr (L : Layout Oid) (a : WeakPointer Oid) : ℕ := (a.mPtr.map L.object).getD 0

/-- The address in `m_refs`. -/
def mRefs (L : Layout Oid) (a : WeakPointer Oid) : ℕ := (a.mRefs.map L.weakrefImpl).getD 0

end Layout

namespace WeakPointer

/-- `operator ==`. -/
def eq (L : Layout Oid) (a o : WeakPointer Oid) : Bool :=
  L.mPtr a = L.mPtr o && L.mRefs a = L.mRefs o

/-- `operator >`. -/
def gt (L : Layout Oid) (a o : WeakPointer Oid) : Bool :=
  if L.mPtr a = L.mPtr o then L.mRefs a > L.mRefs o else L.mPtr a > L.mPtr o

/-- `operator <`. -/
def lt (L : Layout Oid) (a o : WeakPointer Oid) : Bool :=
  if L.mPtr a = L.mPtr o then L.mRefs a < L.mRefs o else L.mPtr a < L.mPtr o

/-- `operator !=`, which does not look at `m_ptr`. -/
def ne (L : Layout Oid) (a o : WeakPointer Oid) : Bool := L.mRefs a ≠ L.mRefs o

/-- `operator <=`. -/
def le (L : Layout Oid) (a o : WeakPointer Oid) : Bool := !a.gt L o

/-- `operator >=`. -/
def ge (L : Layout Oid) (a o : WeakPointer Oid) : Bool := !a.lt L o

end WeakPointer

/-- The operators fit together on two `wp`. -/
structure Coherent (L : Layout Oid) (a b : WeakPointer Oid) : Prop where
  ne : a.ne L b = !a.eq L b
  one : [a.lt L b, a.eq L b, a.gt L b].count true = 1
  le : a.le L b = !a.gt L b
  ge : a.ge L b = !a.lt L b
  null : a.mPtr = none → b.mPtr = none → a.eq L b = true

/-- Two null `wp` have the same address in `m_refs`, and a null one has not the one in a `wp`
to an object. -/
def Agree (L : Layout Oid) (a b : WeakPointer Oid) : Prop :=
  match a.mPtr, b.mPtr with
  | none, none => L.mRefs a = L.mRefs b
  | some _, some _ => True
  | none, some _ | some _, none => L.mRefs a ≠ L.mRefs b

variable {L : Layout Oid} {a b : WeakPointer Oid}

theorem Agree.symm (h : Agree L a b) : Agree L b a := by
  obtain ⟨_ | _, _⟩ := a <;> obtain ⟨_ | _, _⟩ := b
  · exact Eq.symm h
  · exact Ne.symm h
  · exact Ne.symm h
  · exact trivial

theorem Agree.refl (L : Layout Oid) (a : WeakPointer Oid) : Agree L a a := by
  obtain ⟨_ | _, _⟩ := a
  · exact rfl
  · exact trivial

/-! ### Two weak pointers -/

/-- Of `<`, `==` and `>` exactly one holds. -/
theorem one_of_three (L : Layout Oid) (a b : WeakPointer Oid) :
    [a.lt L b, a.eq L b, a.gt L b].count true = 1 := by
  rw [WeakPointer.lt, WeakPointer.eq, WeakPointer.gt]
  by_cases hptr : L.mPtr a = L.mPtr b
  · rcases Nat.lt_trichotomy (L.mRefs a) (L.mRefs b) with hlt | heq | hgt
    · simp [hptr, hlt, hlt.ne, hlt.le]
    · simp [hptr, heq]
    · simp [hptr, hgt, hgt.ne', hgt.le]
  · rcases Nat.lt_or_gt_of_ne hptr with hlt | hgt
    · simp [hptr, hlt, hlt.le]
    · simp [hptr, hgt, hgt.le]

theorem coherent_iff : Coherent L a b ↔
    (L.mRefs a = L.mRefs b → L.mPtr a = L.mPtr b) ∧
      (a.mPtr = none → b.mPtr = none → L.mRefs a = L.mRefs b) := by
  constructor
  · intro h
    refine ⟨fun hrefs => ?_, fun ha hb => ?_⟩
    · by_contra hptr
      have hne := h.ne
      simp [WeakPointer.ne, WeakPointer.eq, hrefs, hptr] at hne
    · have hnull := h.null ha hb
      rw [WeakPointer.eq, Bool.and_eq_true, decide_eq_true_eq, decide_eq_true_eq] at hnull
      exact hnull.2
  · rintro ⟨hptr, hnull⟩
    refine ⟨?_, one_of_three L a b, rfl, rfl, fun ha hb => ?_⟩
    · rw [WeakPointer.ne, WeakPointer.eq]
      by_cases hrefs : L.mRefs a = L.mRefs b
      · simp [hrefs, hptr hrefs]
      · simp [hrefs]
    · have hboth : L.mPtr a = L.mPtr b := by rw [Layout.mPtr, Layout.mPtr, ha, hb]
      simp [WeakPointer.eq, hboth, hnull ha hb]

/-- **The operators fit together on two `wp` if and only if their members agree**, where different
objects that are pointed to have not their `weakref_impl` in one place. -/
theorem coherent_iff_agree (ha : a.Wf) (hb : b.Wf)
    (hapart : ∀ o o', a.mPtr = some o → b.mPtr = some o' →
      L.weakrefImpl o = L.weakrefImpl o' → o = o') : Coherent L a b ↔ Agree L a b := by
  rw [coherent_iff, Agree]
  obtain ⟨_ | o, ra⟩ := a <;> obtain ⟨_ | o', rb⟩ := b
  · exact ⟨fun h => h.2 rfl rfl, fun h => ⟨fun _ => rfl, fun _ _ => h⟩⟩
  · have hptr : L.mPtr ⟨none, ra⟩ ≠ L.mPtr ⟨some o', rb⟩ := (L.object_pos o').ne
    exact ⟨fun h hrefs => hptr (h.1 hrefs), fun h => ⟨fun hrefs => absurd hrefs h,
      fun _ hb => absurd hb (Option.some_ne_none o')⟩⟩
  · have hptr : L.mPtr ⟨some o, ra⟩ ≠ L.mPtr ⟨none, rb⟩ := (L.object_pos o).ne'
    exact ⟨fun h hrefs => hptr (h.1 hrefs), fun h => ⟨fun hrefs => absurd hrefs h,
      fun ha _ => absurd ha (Option.some_ne_none o)⟩⟩
  · refine iff_of_true ⟨fun hrefs => ?_, fun ha _ => absurd ha (Option.some_ne_none o)⟩ trivial
    obtain rfl : ra = some o := ha o rfl
    obtain rfl : rb = some o' := hb o' rfl
    rw [hapart o o' rfl rfl hrefs]

/-! ### What an operation leaves -/

/-- A sequence of two calls without a fault is two calls without a fault. -/
theorem exists_of_bind {α β : Type} {x : Except Fault α} {g : α → Except Fault β} {y : β}
    (h : (x >>= g) = .ok y) : ∃ u, x = .ok u ∧ g u = .ok y := by
  cases x with
  | error e => cases h
  | ok u => exact ⟨u, rfl, h⟩

section

variable [DecidableEq Oid] {s s' : State Oid Var} {f : RefBase → Except Fault RefBase}

/-- A call changes objects only. -/
theorem exists_of_call {ptr : Option Oid} (h : s.call ptr f = .ok s') :
    ∃ objects, s' = { s with objects := objects } := by
  cases ptr with
  | none => exact ⟨s.objects, (Except.ok.inj h).symm⟩
  | some o =>
      obtain ⟨r, -, hs'⟩ := exists_of_bind h
      exact ⟨_, (Except.ok.inj hs').symm⟩

theorem exists_of_callRefs {w : WeakPointer Oid} (h : s.callRefs w f = .ok s') :
    ∃ objects, s' = { s with objects := objects } := by
  obtain ⟨_ | o, _ | refs⟩ := w
  · exact ⟨s.objects, (Except.ok.inj h).symm⟩
  · exact ⟨s.objects, (Except.ok.inj h).symm⟩
  · cases h
  · have hcall : s.call (some refs) f = .ok s' := h
    exact exists_of_call hcall

end

variable [DecidableEq Oid] [DecidableEq Var]

namespace Op

/-- The `wp` that an operation works on, and what it leaves there. -/
def leaves (s : State Oid Var) : Op Oid Var → Option (Var × Option (WeakPointer Oid))
  | wpNew w rest => some (w, some ⟨none, rest⟩)
  | wpFromPtr w other rest => some (w, some ⟨other, other <|> rest⟩)
  | wpFromWp w other => some (w, some (s.wp other))
  | wpFromOther w other rest =>
      let v := s.wp other
      some (w, some ⟨v.mPtr, if v.mPtr.isSome then v.mRefs else rest⟩)
  | wpFromSp w other rest => some (w, some ⟨s.sp other, s.sp other <|> rest⟩)
  | wpDestroy w => some (w, none)
  | wpAssignPtr w other => some (w, some ⟨other, other⟩)
  | wpAssignWp w other => some (w, some (s.wp other))
  | wpAssignSp w other => some (w, some ⟨s.sp other, s.sp other⟩)
  | wpClear w => some (w, some ⟨none, (s.wp w).mRefs⟩)
  | _ => none

/-- What an operation leaves in a `wp` agrees with all the others. -/
def Agrees (L : Layout Oid) (s : State Oid Var) (op : Op Oid Var) : Prop :=
  ∀ w v, op.leaves s = some (w, some v) → ∀ x a, x ≠ w → s.wps x = some a → Agree L v a

/-- The object that is handed to an operation. -/
def takes : Op Oid Var → Option Oid
  | spFromPtr _ other | spAssignPtr _ other => other
  | wpFromPtr _ other _ | wpAssignPtr _ other => other
  | _ => none

end Op

section

variable {s s' : State Oid Var} {x w : Var} {ptr : Option Oid}

theorem exists_of_spInit (h : s.spInit x ptr = .ok s') :
    ∃ objects, s' = State.setSp { s with objects := objects } x (some ptr) := by
  obtain ⟨s₁, h₁, hs'⟩ := exists_of_bind h
  obtain ⟨objects, rfl⟩ := exists_of_call h₁
  exact ⟨objects, (Except.ok.inj hs').symm⟩

theorem exists_of_spAssign (h : s.spAssign x ptr = .ok s') :
    ∃ objects, s' = State.setSp { s with objects := objects } x (some ptr) := by
  obtain ⟨s₁, h₁, hrest⟩ := exists_of_bind h
  obtain ⟨s₂, h₂, hs'⟩ := exists_of_bind hrest
  obtain ⟨objects₁, rfl⟩ := exists_of_call h₁
  obtain ⟨objects, rfl⟩ := exists_of_call h₂
  exact ⟨objects, (Except.ok.inj hs').symm⟩

theorem exists_of_spRelease {v : Option (Option Oid)} (h : s.spRelease x v = .ok s') :
    ∃ objects, s' = State.setSp { s with objects := objects } x v := by
  obtain ⟨s₁, h₁, hs'⟩ := exists_of_bind h
  obtain ⟨objects, rfl⟩ := exists_of_call h₁
  exact ⟨objects, (Except.ok.inj hs').symm⟩

theorem exists_of_wpInit {rest : Option Oid} (h : s.wpInit w ptr rest = .ok s') :
    ∃ objects, s' = State.setWp { s with objects := objects } w (some ⟨ptr, ptr <|> rest⟩) := by
  obtain ⟨s₁, h₁, hs'⟩ := exists_of_bind h
  obtain ⟨objects, rfl⟩ := exists_of_call h₁
  exact ⟨objects, (Except.ok.inj hs').symm⟩

theorem exists_of_wpCopy {v : WeakPointer Oid} (h : s.wpCopy w v = .ok s') :
    ∃ objects, s' = State.setWp { s with objects := objects } w (some v) := by
  obtain ⟨s₁, h₁, hs'⟩ := exists_of_bind h
  obtain ⟨objects, rfl⟩ := exists_of_callRefs h₁
  exact ⟨objects, (Except.ok.inj hs').symm⟩

theorem exists_of_wpAssignPtr (h : s.wpAssignPtr w ptr = .ok s') :
    ∃ objects, s' = State.setWp { s with objects := objects } w (some ⟨ptr, ptr⟩) := by
  obtain ⟨s₁, h₁, hrest⟩ := exists_of_bind h
  obtain ⟨s₂, h₂, hs'⟩ := exists_of_bind hrest
  obtain ⟨objects₁, rfl⟩ := exists_of_call h₁
  obtain ⟨objects, rfl⟩ := exists_of_callRefs h₂
  exact ⟨objects, (Except.ok.inj hs').symm⟩

theorem exists_of_wpAssign {v : WeakPointer Oid} (h : s.wpAssign w v = .ok s') :
    ∃ objects, s' = State.setWp { s with objects := objects } w (some v) := by
  obtain ⟨s₁, h₁, hrest⟩ := exists_of_bind h
  obtain ⟨s₂, h₂, hs'⟩ := exists_of_bind hrest
  obtain ⟨objects₁, rfl⟩ := exists_of_callRefs h₁
  obtain ⟨objects, rfl⟩ := exists_of_callRefs h₂
  exact ⟨objects, (Except.ok.inj hs').symm⟩

theorem exists_of_wpRelease {v : Option (WeakPointer Oid)} (h : s.wpRelease w v = .ok s') :
    ∃ objects, s' = State.setWp { s with objects := objects } w v := by
  obtain ⟨s₁, h₁, hs'⟩ := exists_of_bind h
  obtain ⟨objects, rfl⟩ := exists_of_callRefs h₁
  exact ⟨objects, (Except.ok.inj hs').symm⟩

/-- `promote` makes a null pointer, or one to the object that the `wp` points to. -/
theorem exists_of_promote {agrees : Bool} (h : s.promote x w agrees = .ok s') :
    ∃ objects v, s' = State.setSp { s with objects := objects } x (some v) ∧
      (v = none ∨ v = (s.wp w).mPtr) := by
  unfold State.promote at h
  split at h
  · exact ⟨s.objects, none, (Except.ok.inj h).symm, .inl rfl⟩
  · cases h
  · next o refs hptr hrefs =>
      obtain ⟨⟨r, attempted⟩, -, hs'⟩ := exists_of_bind h
      refine ⟨_, _, (Except.ok.inj hs').symm, ?_⟩
      cases attempted with
      | true => exact .inr hptr.symm
      | false => exact .inl rfl

end

variable {s s' : State Oid Var} {op : Op Oid Var}

/-- **An operation changes one `wp` at most.** -/
theorem wps_of_exec (h : s.exec op = .ok s') :
    s'.wps = (op.leaves s).elim s.wps fun p => update s.wps p.1 p.2 := by
  cases op with
  | spNew x | wpNew w rest => rw [← Except.ok.inj h]; rfl
  | spFromPtr x other | spFromSp x other => obtain ⟨_, rfl⟩ := exists_of_spInit h; rfl
  | spAssignPtr x other | spAssignSp x other => obtain ⟨_, rfl⟩ := exists_of_spAssign h; rfl
  | spDestroy x | spClear x => obtain ⟨_, rfl⟩ := exists_of_spRelease h; rfl
  | wpFromPtr w other rest | wpFromSp w other rest => obtain ⟨_, rfl⟩ := exists_of_wpInit h; rfl
  | wpFromWp w other | wpFromOther w other rest => obtain ⟨_, rfl⟩ := exists_of_wpCopy h; rfl
  | wpAssignPtr w other | wpAssignSp w other => obtain ⟨_, rfl⟩ := exists_of_wpAssignPtr h; rfl
  | wpAssignWp w other => obtain ⟨_, rfl⟩ := exists_of_wpAssign h; rfl
  | wpDestroy w | wpClear w => obtain ⟨_, rfl⟩ := exists_of_wpRelease h; rfl
  | promote x w agrees => obtain ⟨_, _, rfl, -⟩ := exists_of_promote h; rfl

/-! ### Objects that are pointed to -/

/-- An `sp` or a `wp` points to the object, whose `weakref_impl` therefore exists. -/
def State.InUse (s : State Oid Var) (o : Oid) : Prop :=
  (∃ x, s.sp x = some o) ∨ ∃ w, (s.wp w).mPtr = some o

omit [DecidableEq Oid] [DecidableEq Var] in
theorem not_inUse (hsp : ∀ x, s.sp x = none) (hwp : ∀ w, (s.wp w).mPtr = none) {o : Oid} :
    ¬ s.InUse o := by
  intro h
  rcases h with ⟨x, hx⟩ | ⟨w, hw⟩
  · exact absurd ((hsp x).symm.trans hx).symm (Option.some_ne_none o)
  · exact absurd ((hwp w).symm.trans hw).symm (Option.some_ne_none o)

/-- An object that is handed to an operation has not its `weakref_impl` where that of another object
is that a pointer points to. -/
def Layout.Fits (L : Layout Oid) (s : State Oid Var) (op : Op Oid Var) : Prop :=
  ∀ o, op.takes = some o → ∀ o', s.InUse o' → L.weakrefImpl o' = L.weakrefImpl o → o' = o

/-- The objects that are pointed to have their `weakref_impl` in different places. -/
def State.Apart (L : Layout Oid) (s : State Oid Var) : Prop :=
  ∀ o o', s.InUse o → s.InUse o' → L.weakrefImpl o = L.weakrefImpl o' → o = o'

omit [DecidableEq Var] in
/-- A new object that does not lie where a `weakref_impl` is fits: as long as an object is pointed
to its `weakref_impl` has not been deleted. -/
theorem Layout.fits_of_implDeleted {L : Layout Oid} {lifetime : Oid → ObjectLifetime}
    (h : Wf lifetime s)
    (hnew : ∀ o, op.takes = some o → ∀ o', o' ≠ o → (s.objects o').implDeleted = 0 →
      L.weakrefImpl o' ≠ L.weakrefImpl o) : L.Fits s op := by
  intro o ho o' huse hplace
  by_contra hne
  have hpos : 0 < s.spCount o' + s.wpCount o' := by
    rcases huse with ⟨x, hx⟩ | ⟨w, hw⟩
    · have hle := one_sp_le h x o'
      rw [hx, one_self] at hle
      omega
    · have hle := one_wp_le h w o'
      rw [hw, one_self] at hle
      omega
  exact hnew o ho o' hne ((h.counts.holds o').implAlive hpos) hplace

omit [DecidableEq Oid] in
theorem inUse_of_setSp {objects : Oid → RefBase} {x : Var} {v : Option (Option Oid)} {o : Oid}
    (h : (State.setSp { s with objects := objects } x v).InUse o) :
    s.InUse o ∨ v.join = some o := by
  rcases h with ⟨y, hy⟩ | hwp
  · simp only [State.sp, State.setSp] at hy
    by_cases hyx : y = x
    · rw [hyx, update_self] at hy
      exact .inr hy
    · rw [update_of_ne hyx] at hy
      exact .inl (.inl ⟨y, hy⟩)
  · exact .inl (.inr hwp)

omit [DecidableEq Oid] in
theorem inUse_of_setWp {objects : Oid → RefBase} {w : Var} {v : Option (WeakPointer Oid)} {o : Oid}
    (h : (State.setWp { s with objects := objects } w v).InUse o) :
    s.InUse o ∨ v.bind WeakPointer.mPtr = some o := by
  rcases h with hsp | ⟨y, hy⟩
  · exact .inl (.inl hsp)
  · rw [wp_mPtr] at hy
    simp only [State.setWp] at hy
    by_cases hyw : y = w
    · rw [hyw, update_self] at hy
      exact .inr hy
    · rw [update_of_ne hyw, ← wp_mPtr] at hy
      exact .inl (.inr ⟨y, hy⟩)

/-- What is pointed to after an operation was pointed to before, or is handed to it. -/
theorem inUse_of_exec (h : s.exec op = .ok s') {o : Oid} (ho : s'.InUse o) :
    s.InUse o ∨ op.takes = some o := by
  have hsp : ∀ {x : Var}, s.sp x = some o → s.InUse o ∨ op.takes = some o :=
    fun {x} hx => .inl (.inl ⟨x, hx⟩)
  have hwp : ∀ {w : Var}, (s.wp w).mPtr = some o → s.InUse o ∨ op.takes = some o :=
    fun {w} hw => .inl (.inr ⟨w, hw⟩)
  have hnone : none = some o → s.InUse o ∨ op.takes = some o := fun hno => by cases hno
  cases op with
  | spNew x =>
      rw [← Except.ok.inj h] at ho
      exact (inUse_of_setSp ho).elim .inl hnone
  | wpNew w rest =>
      rw [← Except.ok.inj h] at ho
      exact (inUse_of_setWp ho).elim .inl hnone
  | spFromPtr x other =>
      obtain ⟨_, rfl⟩ := exists_of_spInit h
      exact inUse_of_setSp ho
  | spFromSp x other =>
      obtain ⟨_, rfl⟩ := exists_of_spInit h
      exact (inUse_of_setSp ho).elim .inl hsp
  | spAssignPtr x other =>
      obtain ⟨_, rfl⟩ := exists_of_spAssign h
      exact inUse_of_setSp ho
  | spAssignSp x other =>
      obtain ⟨_, rfl⟩ := exists_of_spAssign h
      exact (inUse_of_setSp ho).elim .inl hsp
  | spDestroy x | spClear x =>
      obtain ⟨_, rfl⟩ := exists_of_spRelease h
      exact (inUse_of_setSp ho).elim .inl hnone
  | wpFromPtr w other rest =>
      obtain ⟨_, rfl⟩ := exists_of_wpInit h
      exact inUse_of_setWp ho
  | wpFromSp w other rest =>
      obtain ⟨_, rfl⟩ := exists_of_wpInit h
      exact (inUse_of_setWp ho).elim .inl hsp
  | wpFromWp w other | wpFromOther w other rest =>
      obtain ⟨_, rfl⟩ := exists_of_wpCopy h
      exact (inUse_of_setWp ho).elim .inl hwp
  | wpAssignPtr w other =>
      obtain ⟨_, rfl⟩ := exists_of_wpAssignPtr h
      exact inUse_of_setWp ho
  | wpAssignSp w other =>
      obtain ⟨_, rfl⟩ := exists_of_wpAssignPtr h
      exact (inUse_of_setWp ho).elim .inl hsp
  | wpAssignWp w other =>
      obtain ⟨_, rfl⟩ := exists_of_wpAssign h
      exact (inUse_of_setWp ho).elim .inl hwp
  | wpDestroy w | wpClear w =>
      obtain ⟨_, rfl⟩ := exists_of_wpRelease h
      exact (inUse_of_setWp ho).elim .inl hnone
  | promote x w agrees =>
      obtain ⟨_, v, rfl, hv⟩ := exists_of_promote h
      rcases inUse_of_setSp ho with huse | hjoin
      · exact .inl huse
      · obtain rfl : v = some o := hjoin
        exact hwp (hv.resolve_left (Option.some_ne_none o)).symm

theorem apart_of_exec (hapart : s.Apart L) (h : s.exec op = .ok s') (hfits : L.Fits s op) :
    s'.Apart L := by
  intro o o' ho ho' hplace
  rcases inUse_of_exec h ho with huse | htakes
  · rcases inUse_of_exec h ho' with huse' | htakes'
    · exact hapart o o' huse huse' hplace
    · exact hfits o' htakes' o huse hplace
  · rcases inUse_of_exec h ho' with huse' | htakes'
    · exact (hfits o htakes o' huse' hplace.symm).symm
    · exact Option.some_inj.1 (htakes.symm.trans htakes')

/-- Every `wp` that points to an object has its `weakref_impl`. -/
def State.RefsWf (s : State Oid Var) : Prop := ∀ w a, s.wps w = some a → a.Wf

omit [DecidableEq Oid] [DecidableEq Var] in
theorem State.RefsWf.wp (h : s.RefsWf) (w : Var) : (s.wp w).Wf := by
  rw [State.wp]
  cases hw : s.wps w with
  | none => exact fun o ho => absurd ho (by simp)
  | some a => exact h w a hw

omit [DecidableEq Oid] [DecidableEq Var] in
/-- What an operation leaves in a `wp` is right if all the others are. -/
theorem Op.leaves_wf (h : s.RefsWf) {w : Var} {v : WeakPointer Oid}
    (hv : op.leaves s = some (w, some v)) : v.Wf := by
  have hnull (rest : Option Oid) : WeakPointer.Wf ⟨none, rest⟩ := fun o ho => absurd ho (by simp)
  cases op with
  | wpNew x rest => cases hv; exact hnull rest
  | wpClear x => cases hv; exact hnull _
  | wpFromPtr x other rest | wpFromSp x other rest => cases hv; exact WeakPointer.wf_of_ptr _ rest
  | wpFromWp x other | wpAssignWp x other => cases hv; exact h.wp other
  | wpAssignPtr x other | wpAssignSp x other => cases hv; exact fun o ho => ho
  | wpFromOther x other rest =>
      cases hv
      intro o ho
      dsimp only at ho ⊢
      rw [ho, Option.isSome_some, if_pos rfl, h.wp other o ho]
  | _ => cases hv

/-- The operators fit together on the `wp` that exist. -/
def State.Coherent (L : Layout Oid) (s : State Oid Var) : Prop :=
  ∀ v w a b, s.wps v = some a → s.wps w = some b → Pointers.Coherent L a b

/-! ### Runs -/

/-- A `wp` after an operation is one from before, or the one that the operation has worked on. -/
theorem wps_cases (h : s.exec op = .ok s') {x : Var} {a : WeakPointer Oid}
    (hx : s'.wps x = some a) :
    (s.wps x = some a ∧ ∀ w v, op.leaves s = some (w, v) → x ≠ w) ∨
      op.leaves s = some (x, some a) := by
  rw [wps_of_exec h] at hx
  cases hleaves : op.leaves s with
  | none =>
      rw [hleaves, Option.elim_none] at hx
      exact .inl ⟨hx, by simp⟩
  | some p =>
      obtain ⟨w, v⟩ := p
      rw [hleaves, Option.elim_some] at hx
      dsimp only at hx
      by_cases hxw : x = w
      · rw [hxw, update_self] at hx
        rw [hxw, hx]
        exact .inr rfl
      · rw [update_of_ne hxw] at hx
        refine .inl ⟨hx, fun w' v' heq => ?_⟩
        rw [Option.some_inj, Prod.mk.injEq] at heq
        rw [← heq.1]
        exact hxw

theorem refsWf_of_exec (hwf : s.RefsWf) (h : s.exec op = .ok s') : s'.RefsWf := by
  intro x a hx
  obtain ⟨hold, -⟩ | hleaves := wps_cases h hx
  · exact hwf x a hold
  · exact op.leaves_wf hwf hleaves

/-- Every `wp` has the `weakref_impl` of its object, and different objects lie apart. -/
structure State.Placed (L : Layout Oid) (s : State Oid Var) : Prop where
  refs : s.RefsWf
  apart : s.Apart L

omit [DecidableEq Oid] [DecidableEq Var] in
theorem State.Placed.coherent_iff_agree (h : s.Placed L) {v w : Var} (hv : s.wps v = some a)
    (hw : s.wps w = some b) : Pointers.Coherent L a b ↔ Agree L a b := by
  refine Pointers.coherent_iff_agree (h.refs v a hv) (h.refs w b hw) fun o o' ho ho' => ?_
  refine h.apart o o' (.inr ⟨v, ?_⟩) (.inr ⟨w, ?_⟩)
  · rw [wp_mPtr, hv]
    exact ho
  · rw [wp_mPtr, hw]
    exact ho'

theorem placed_of_exec (h : s.Placed L) (hexec : s.exec op = .ok s') (hfits : L.Fits s op) :
    s'.Placed L :=
  ⟨refsWf_of_exec h.refs hexec, apart_of_exec h.apart hexec hfits⟩

/-- **The objects that are pointed to lie apart**, in a program in which new objects fit. -/
theorem apart_invariant (L : Layout Oid) (lifetime : Oid → ObjectLifetime) :
    ((machine lifetime : Machine (State Oid Var) (Op Oid Var)).restrict L.Fits).Invariant
      (State.Placed L) where
  init := by
    rintro _ rfl
    refine ⟨fun w a hw => absurd hw.symm (Option.some_ne_none a), fun o _ ho => ?_⟩
    exact absurd ho (not_inUse (fun _ => rfl) fun _ => rfl)
  step _ _ _ h hs := placed_of_exec h hs.1.2 hs.2

/-- A run goes on with an operation. -/
theorem snoc_op {L : Layout Oid} {lifetime : Oid → ObjectLifetime} {s₀ : State Oid Var}
    {tr : List (State Oid Var × Op Oid Var)}
    (h : ((machine lifetime).restrict L.Fits).Run s₀ tr s) (op : Op Oid Var)
    (hvalid : op.Valid s) (heq : s.exec op = .ok s') (hfits : L.Fits s op) :
    ((machine lifetime).restrict L.Fits).Run s₀ (tr ++ [(s, op)]) s' :=
  h.snoc ⟨⟨hvalid, heq⟩, hfits⟩

/-- An operation that agrees keeps the operators together. -/
theorem coherent_of_agrees (hp : s.Placed L) (hp' : s'.Placed L) (hc : s.Coherent L)
    (h : s.exec op = .ok s') (hop : op.Agrees L s) : s'.Coherent L := by
  intro x y a b hx hy
  rw [hp'.coherent_iff_agree hx hy]
  obtain ⟨hxold, hxne⟩ | hxnew := wps_cases h hx <;> obtain ⟨hyold, hyne⟩ | hynew := wps_cases h hy
  · exact (hp.coherent_iff_agree hxold hyold).1 (hc x y a b hxold hyold)
  · exact (hop y b hynew x a (hxne y _ hynew) hxold).symm
  · exact hop x a hxnew y b (hyne x _ hxnew) hyold
  · rw [hxnew, Option.some_inj, Prod.mk.injEq, Option.some_inj] at hynew
    rw [hynew.2]
    exact Agree.refl L b

/-- An operation that does not agree does not. -/
theorem not_coherent_of_not_agrees (hp' : s'.Placed L) (h : s.exec op = .ok s')
    (hop : ¬ op.Agrees L s) : ¬ s'.Coherent L := by
  intro hc
  refine hop fun w v hleaves x a hxw hx => ?_
  have hwps : s'.wps = update s.wps w (some v) := by rw [wps_of_exec h, hleaves]; rfl
  have hw' : s'.wps w = some v := by rw [hwps, update_self]
  have hx' : s'.wps x = some a := by rw [hwps, update_of_ne hxw, hx]
  exact (hp'.coherent_iff_agree hw' hx').1 (hc w x v a hw' hx')

end Pointers

open Pointers

/-- **The operators fit together if and only if what is left in `m_refs` agrees.**  In a program
with `sp` and `wp`, for any two `wp` at any time exactly one of `<`, `==` and `>` holds, `!=` is the
negation of `==`, `<=` that of `>` and `>=` that of `<`, and two null ones are equal, exactly if
every `wp` that is made, assigned to or cleared agrees with the others: where it is null, it has in
`m_refs` the address that the other null ones have and not that of the `weakref_impl` of an object
that a `wp` points to; where it points to an object, no null one has the address of the
`weakref_impl` of this object. -/
theorem coherent_iff_agrees {Oid Var : Type} [DecidableEq Oid] [DecidableEq Var] (L : Layout Oid)
    {lifetime : Oid → ObjectLifetime} {s : State Oid Var} {tr : List (State Oid Var × Op Oid Var)}
    (h : ((machine lifetime).restrict L.Fits).Run (start lifetime) tr s) :
    (∀ t ∈ Machine.visited tr s, t.Coherent L) ↔ ∀ p ∈ tr, p.2.Agrees L p.1 := by
  have hplaced : ((machine lifetime : Machine (State Oid Var) (Op Oid Var)).restrict
      L.Fits).Invariant (State.Placed L) := apart_invariant L lifetime
  refine h.forall_visited_iff (C := fun s op => op.Agrees L s) ?_ ?_ rfl
  · intro t ht
    refine (((hplaced.restrict _).relative (I := fun t => t.Coherent L) ?_ ?_).reachable ht).2
    · rintro _ rfl x y a b hx
      exact absurd hx.symm (Option.some_ne_none a)
    · intro t op t' ht hc hs
      exact coherent_of_agrees ht (placed_of_exec ht hs.1.1.2 hs.1.2) hc hs.1.1.2 hs.2
  · intro t op t' hreach hs hno
    exact not_coherent_of_not_agrees (hplaced.reachable (hreach.step hs)) hs.1.2 hno

/-- Objects at 8, with their `weakref_impl` at 16, one after the other. -/
def Pointers.oneAfterTheOther (Oid : Type) : Layout Oid where
  object _ := 8
  weakrefImpl _ := 16
  object_pos _ := by decide
  weakrefImpl_pos _ := by decide

/-- A `wp` that is assigned `NULL`, and one to a new object in the place of the one that is gone. -/
theorem coherent_new : ∃ (tr : List (State Bool Bool × Op Bool Bool)) (s : State Bool Bool),
    ((machine fun _ => .strong).restrict (oneAfterTheOther Bool).Fits).Run
      (start fun _ => .strong) tr s ∧
      tr.map Prod.snd = [.wpFromPtr false (some false) none, .wpAssignPtr false none,
        .wpFromPtr true (some true) none] ∧
      (s.objects false).implDeleted = 1 ∧
      ∀ t ∈ Machine.visited tr s, t.Coherent (oneAfterTheOther Bool) := by
  have h₀ : ((machine fun _ => .strong).restrict (oneAfterTheOther Bool).Fits).Run
      (start fun _ : Bool => .strong : State Bool Bool) [] (start fun _ => .strong) := .nil
  have h₁ := snoc_op h₀ (.wpFromPtr false (some false) none) ⟨rfl, fun _ _ => rfl⟩ rfl
    fun _ _ _ ho' => absurd ho' (not_inUse (fun _ => rfl) fun _ => rfl)
  have h₂ := snoc_op h₁ (.wpAssignPtr false none) ⟨Option.some_ne_none _, fun _ h => by cases h⟩
    rfl fun _ h => by cases h
  have h₃ := snoc_op h₂ (.wpFromPtr true (some true) none) ⟨rfl, fun o h => by cases h; rfl⟩ rfl ?_
  · refine ⟨_, _, h₃, rfl, rfl, (coherent_iff_agrees (oneAfterTheOther Bool) h₃).2 ?_⟩
    intro p hp
    simp only [List.nil_append, List.cons_append, List.mem_cons, List.not_mem_nil, or_false] at hp
    obtain rfl | rfl | rfl := hp
    · intro w v _ x a _ hx
      exact absurd hx (by simp [start])
    · rintro _ _ ⟨⟩ x a hne hx
      cases x with
      | false => exact absurd rfl hne
      | true => exact absurd hx (by simp [start, State.setWp])
    · rintro _ _ ⟨⟩ x a hne hx
      cases x with
      | false =>
          rw [← Option.some.inj (hx : some ⟨none, none⟩ = some a)]
          exact (by decide : (16 : ℕ) ≠ 0)
      | true => exact absurd rfl hne
  · intro _ _ _ ho'
    refine absurd ho' (not_inUse (fun _ => rfl) fun w => ?_)
    cases w with
    | false => rfl
    | true => rfl

/-- **Of `==` and `!=` neither holds** for a `wp` to an object and a copy of it that is cleared. -/
theorem cleared_neither : ∃ (tr : List (State Unit Bool × Op Unit Bool)) (s : State Unit Bool),
    ((machine fun _ => .strong).restrict (oneAfterTheOther Unit).Fits).Run
      (start fun _ => .strong) tr s ∧
      tr.map Prod.snd = [.wpFromPtr false (some ()) none, .wpFromWp true false, .wpClear true] ∧
      (s.wp false).eq (oneAfterTheOther Unit) (s.wp true) = false ∧
      (s.wp false).ne (oneAfterTheOther Unit) (s.wp true) = false ∧
      ¬ s.Coherent (oneAfterTheOther Unit) := by
  have hfits : ∀ (s : State Unit Bool) (op : Op Unit Bool), (oneAfterTheOther Unit).Fits s op :=
    fun _ _ _ _ _ _ _ => rfl
  have h₀ : ((machine fun _ => .strong).restrict (oneAfterTheOther Unit).Fits).Run
      (start fun _ : Unit => .strong : State Unit Bool) [] (start fun _ => .strong) := .nil
  have h₁ := snoc_op h₀ (.wpFromPtr false (some ()) none) ⟨rfl, fun _ _ => rfl⟩ rfl (hfits _ _)
  have h₂ := snoc_op h₁ (.wpFromWp true false) ⟨rfl, Option.some_ne_none _⟩ rfl (hfits _ _)
  have h₃ := snoc_op h₂ (.wpClear true) (Option.some_ne_none _) rfl (hfits _ _)
  refine ⟨_, _, h₃, rfl, rfl, rfl, fun hc => ?_⟩
  exact absurd (hc false true _ _ rfl rfl).ne (by decide)

end VModule

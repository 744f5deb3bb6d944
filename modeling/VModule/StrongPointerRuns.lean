/-
**The counters and the lifetimes of objects used by `sp` and `wp`.**

Over the machine of `VModule/StrongPointer.lean`.  An operation is a few calls, each of which
changes the numbers of references of one object, and the numbers that result are those of the
pointers that exist afterwards.  In between an object may have a reference more than there are
pointers.

Main definitions:

* `VModule.Pointers.Counts` — the objects have given numbers of references;
* `VModule.Pointers.Wf` — the invariant.

Main results:

* `VModule.Pointers.call_spec` — what a call does to the numbers;
* `VModule.Pointers.exec_spec` — an operation has no fault, and keeps the invariant;
* `VModule.references_counted` — **what the counters are, and when objects are deleted**.
-/

import VModule.StrongPointer

set_option relaxedAutoImplicit false
set_option autoImplicit false

namespace VModule

namespace Pointers

open Function

variable {Oid Var : Type}

/-! ### Numbers of references -/

/-- The objects have these numbers of references. -/
structure Counts (lifetime : Oid → ObjectLifetime) (objects : Oid → RefBase)
    (strong weak : Oid → ℕ) : Prop where
  holds : ∀ o, (objects o).Holds (strong o) (weak o)
  mFlags : ∀ o, (objects o).mFlags = lifetime o

/-- What the objects record of the past stays, but that `p` has a strong reference and `q` has a
reference. -/
structure Past (p q : Option Oid) (objects objects' : Oid → RefBase) : Prop where
  acquired : ∀ o, p ≠ some o → (objects' o).acquired = (objects o).acquired
  referenced : ∀ o, q ≠ some o → (objects' o).referenced = (objects o).referenced

theorem Past.trans {p q : Option Oid} {objects objects' objects'' : Oid → RefBase}
    (h : Past p q objects objects') (h' : Past none none objects' objects'') :
    Past p q objects objects'' where
  acquired o ho := (h'.acquired o (by simp)).trans (h.acquired o ho)
  referenced o ho := (h'.referenced o (by simp)).trans (h.referenced o ho)

section

variable {lifetime : Oid → ObjectLifetime} {s : State Oid Var} {ptr p q : Option Oid}
  {strong strong' weak weak' : Oid → ℕ} [DecidableEq Oid]

/-- The reference that a pointer is. -/
def one (ptr : Option Oid) (o : Oid) : ℕ := if ptr = some o then 1 else 0

@[simp] theorem one_none (o : Oid) : one none o = 0 := if_neg (by simp)

@[simp] theorem one_self (o : Oid) : one (some o) o = 1 := if_pos rfl

theorem one_of_ne {o : Oid} (h : ptr ≠ some o) : one ptr o = 0 := if_neg h

/-- **What a call does to the numbers.** -/
theorem call_spec {f : RefBase → Except Fault RefBase}
    (h : Counts lifetime s.objects strong weak)
    (hf : ∀ o, ptr = some o → ∃ r', f (s.objects o) = .ok r' ∧ r'.Holds (strong' o) (weak' o) ∧
      r'.mFlags = (s.objects o).mFlags ∧ (p ≠ some o → r'.acquired = (s.objects o).acquired) ∧
      (q ≠ some o → r'.referenced = (s.objects o).referenced))
    (hrest : ∀ o, ptr ≠ some o → strong' o = strong o ∧ weak' o = weak o) :
    ∃ objects', s.call ptr f = .ok { s with objects := objects' } ∧
      Counts lifetime objects' strong' weak' ∧ Past p q s.objects objects' := by
  cases ptr with
  | none =>
      refine ⟨s.objects, rfl, ⟨fun o => ?_, h.mFlags⟩, ⟨fun _ _ => rfl, fun _ _ => rfl⟩⟩
      obtain ⟨hstrong, hweak⟩ := hrest o (by simp)
      rw [hstrong, hweak]
      exact h.holds o
  | some o =>
      obtain ⟨r', heq, hholds, hflags, hacquired, hreferenced⟩ := hf o rfl
      refine ⟨update s.objects o r', ?_, ⟨?_, ?_⟩, ⟨?_, ?_⟩⟩
      · rw [State.call, heq]
        rfl
      · refine (forall_update_iff s.objects fun u r => r.Holds (strong' u) (weak' u)).2
          ⟨hholds, ?_⟩
        intro u huo
        obtain ⟨hstrong, hweak⟩ := hrest u (by simpa using Ne.symm huo)
        rw [hstrong, hweak]
        exact h.holds u
      · exact (forall_update_iff s.objects fun u r => r.mFlags = lifetime u).2
          ⟨hflags.trans (h.mFlags o), fun u _ => h.mFlags u⟩
      · exact (forall_update_iff s.objects fun u r => p ≠ some u →
          r.acquired = (s.objects u).acquired).2 ⟨hacquired, fun _ _ _ => rfl⟩
      · exact (forall_update_iff s.objects fun u r => q ≠ some u →
          r.referenced = (s.objects u).referenced).2 ⟨hreferenced, fun _ _ _ => rfl⟩

theorem call_incStrong (h : Counts lifetime s.objects strong weak) (halive : s.Alive ptr)
    (hfew : ∀ o, ptr = some o → strong o < 2 ^ 28) :
    ∃ objects', s.call ptr RefBase.incStrong = .ok { s with objects := objects' } ∧
      Counts lifetime objects' (fun o => strong o + one ptr o) weak ∧
      Past ptr ptr s.objects objects' := by
  refine call_spec h (fun o ho => ?_) fun o ho => ⟨by rw [one_of_ne ho, Nat.add_zero], rfl⟩
  obtain ⟨r', heq, hholds, hflags⟩ := RefBase.incStrong_spec (h.holds o) (halive o ho) (hfew o ho)
  subst ho
  exact ⟨r', heq, by rwa [one_self], hflags, fun hne => absurd rfl hne, fun hne => absurd rfl hne⟩

theorem call_createWeak (h : Counts lifetime s.objects strong weak) (halive : s.Alive ptr) :
    ∃ objects', s.call ptr RefBase.createWeak = .ok { s with objects := objects' } ∧
      Counts lifetime objects' strong (fun o => weak o + one ptr o) ∧
      Past none ptr s.objects objects' := by
  refine call_spec h (fun o ho => ?_) fun o ho => ⟨rfl, by rw [one_of_ne ho, Nat.add_zero]⟩
  obtain ⟨r', heq, hholds, hflags, hacquired⟩ :=
    RefBase.createWeak_spec (h.holds o) (halive o ho)
  subst ho
  exact ⟨r', heq, by rwa [one_self], hflags, fun _ => hacquired, fun hne => absurd rfl hne⟩

theorem call_incWeak (h : Counts lifetime s.objects strong weak)
    (hpos : ∀ o, ptr = some o → 0 < strong o + weak o) :
    ∃ objects', s.call ptr RefBase.incWeak = .ok { s with objects := objects' } ∧
      Counts lifetime objects' strong (fun o => weak o + one ptr o) ∧
      Past none ptr s.objects objects' := by
  refine call_spec h (fun o ho => ?_) fun o ho => ⟨rfl, by rw [one_of_ne ho, Nat.add_zero]⟩
  obtain ⟨r', heq, hholds, hflags, -, hacquired⟩ :=
    RefBase.incWeak_spec (h.holds o) ((h.holds o).implAlive (hpos o ho))
  subst ho
  exact ⟨r', heq, by rwa [one_self], hflags, fun _ => hacquired, fun hne => absurd rfl hne⟩

theorem call_decStrong (h : Counts lifetime s.objects (fun o => strong o + one ptr o) weak)
    (hfew : ∀ o, ptr = some o → strong o < 2 ^ 28 ∧ strong o + weak o < 2 ^ 31) :
    ∃ objects', s.call ptr RefBase.decStrong = .ok { s with objects := objects' } ∧
      Counts lifetime objects' strong weak ∧ Past none none s.objects objects' := by
  refine call_spec h (fun o ho => ?_) fun o ho => ⟨by rw [one_of_ne ho, Nat.add_zero], rfl⟩
  subst ho
  have hholds := h.holds o
  rw [one_self] at hholds
  obtain ⟨r', heq, hholds', hkeeps⟩ :=
    RefBase.decStrong_spec hholds (hfew o rfl).2 (hfew o rfl).1
  exact ⟨r', heq, hholds', hkeeps.mFlags, fun _ => hkeeps.acquired, fun _ => hkeeps.referenced⟩

theorem call_decWeak (h : Counts lifetime s.objects strong fun o => weak o + one ptr o)
    (hfew : ∀ o, ptr = some o → strong o + weak o < 2 ^ 31) :
    ∃ objects', s.call ptr RefBase.decWeak = .ok { s with objects := objects' } ∧
      Counts lifetime objects' strong weak ∧ Past none none s.objects objects' := by
  refine call_spec h (fun o ho => ?_) fun o ho => ⟨rfl, by rw [one_of_ne ho, Nat.add_zero]⟩
  subst ho
  have hholds := h.holds o
  rw [one_self] at hholds
  obtain ⟨r', heq, hholds', hkeeps⟩ := RefBase.decWeak_spec hholds (hfew o rfl)
  exact ⟨r', heq, hholds', hkeeps.mFlags, fun _ => hkeeps.acquired, fun _ => hkeeps.referenced⟩

/-- A `wp` points to the object whose `weakref_impl` it has. -/
def WeakPointer.Wf (w : WeakPointer Oid) : Prop := ∀ o, w.mPtr = some o → w.mRefs = some o

theorem callRefs_eq {w : WeakPointer Oid} (h : w.Wf) (f : RefBase → Except Fault RefBase) :
    s.callRefs w f = s.call w.mPtr f := by
  cases hw : w.mPtr with
  | none => simp only [State.callRefs, hw, State.call]
  | some o => simp only [State.callRefs, hw, h o hw]

end

/-! ### The invariant -/

/-- The numbers of references are the numbers of the pointers. -/
structure Wf (lifetime : Oid → ObjectLifetime) (s : State Oid Var) : Prop where
  sps : AlmostIdle none s.sps
  wps : AlmostIdle none s.wps
  refs : ∀ w, (s.wp w).Wf
  counts : Counts lifetime s.objects s.spCount s.wpCount
  fits : ∀ o, s.spCount o < 2 ^ 28 ∧ s.spCount o + s.wpCount o < 2 ^ 31

/-- The invariant holds after an operation, and the objects record what references there are. -/
structure Goes (lifetime : Oid → ObjectLifetime) (s s' : State Oid Var) : Prop where
  wf : Wf lifetime s'
  acquired : ∀ o, (s'.objects o).acquired = true ↔
    (s.objects o).acquired = true ∨ 0 < s'.spCount o
  referenced : ∀ o, (s'.objects o).referenced = true ↔
    (s.objects o).referenced = true ∨ 0 < s'.spCount o + s'.wpCount o

section

variable {lifetime : Oid → ObjectLifetime} {s : State Oid Var} {objects' : Oid → RefBase}
  {strong' weak' : Oid → ℕ} {ptr p q : Option Oid} {x w : Var}

theorem wp_mPtr (s : State Oid Var) (w : Var) :
    (s.wp w).mPtr = (s.wps w).bind WeakPointer.mPtr := by
  unfold State.wp
  cases s.wps w <;> rfl

/-- What the objects record follows from what they have. -/
theorem acquired_iff (h : Counts lifetime objects' strong' weak')
    (hpast : Past p q s.objects objects') (hp : ∀ o, p = some o → 0 < strong' o) (o : Oid) :
    (objects' o).acquired = true ↔ (s.objects o).acquired = true ∨ 0 < strong' o := by
  have hpos (hpos : 0 < strong' o) : (objects' o).acquired = true := by
    cases hno : (objects' o).acquired with
    | true => rfl
    | false => exact absurd ((h.holds o).acquired hno) (by omega)
  by_cases ho : p = some o
  · exact iff_of_true (hpos (hp o ho)) (.inr (hp o ho))
  · rw [← hpast.acquired o ho]
    exact ⟨.inl, fun hor => hor.elim id hpos⟩

theorem referenced_iff (h : Counts lifetime objects' strong' weak')
    (hpast : Past p q s.objects objects')
    (hq : ∀ o, q = some o → 0 < strong' o + weak' o) (o : Oid) :
    (objects' o).referenced = true ↔
      (s.objects o).referenced = true ∨ 0 < strong' o + weak' o := by
  have hpos (hpos : 0 < strong' o + weak' o) : (objects' o).referenced = true :=
    (h.holds o).referenced_of_pos hpos
  by_cases ho : q = some o
  · exact iff_of_true (hpos (hq o ho)) (.inr (hq o ho))
  · rw [← hpast.referenced o ho]
    exact ⟨.inl, fun hor => hor.elim id hpos⟩

variable [DecidableEq Oid]

theorem spCount_eq (s : State Oid Var) (o : Oid) :
    s.spCount o = tally (fun v => one v.join o) s.sps := headcount_eq_tally _ _

theorem wpCount_eq (s : State Oid Var) (o : Oid) :
    s.wpCount o = tally (fun v => one (v.bind WeakPointer.mPtr) o) s.wps := headcount_eq_tally _ _

theorem one_sp_le (h : Wf lifetime s) (x : Var) (o : Oid) : one (s.sp x) o ≤ s.spCount o := by
  rw [spCount_eq]
  exact le_tally h.sps (w := fun v => one v.join o) (one_none o) x

theorem one_wp_le (h : Wf lifetime s) (w : Var) (o : Oid) : one (s.wp w).mPtr o ≤ s.wpCount o := by
  rw [wpCount_eq, wp_mPtr]
  exact le_tally h.wps (w := fun v => one (v.bind WeakPointer.mPtr) o) (one_none o) w

variable [DecidableEq Var]

theorem spCount_setSp (h : AlmostIdle none s.sps) (x : Var)
    (v : Option (Option Oid)) (o : Oid) :
    (s.setSp x v).spCount o + one (s.sp x) o = s.spCount o + one v.join o := by
  rw [spCount_eq, spCount_eq]
  exact tally_update h (w := fun v => one v.join o) (one_none o) x v

theorem wpCount_setWp (h : AlmostIdle none s.wps) (w : Var) (v : Option (WeakPointer Oid))
    (o : Oid) :
    (s.setWp w v).wpCount o + one (s.wp w).mPtr o =
      s.wpCount o + one (v.bind WeakPointer.mPtr) o := by
  rw [wpCount_eq, wpCount_eq, wp_mPtr]
  exact tally_update h (w := fun v => one (v.bind WeakPointer.mPtr) o) (one_none o) w v

/-- An `sp` changes. -/
theorem goes_setSp (h : Wf lifetime s) {v : Option (Option Oid)}
    (hcounts : Counts lifetime objects' strong' s.wpCount) (hpast : Past p q s.objects objects')
    (hstrong : ∀ o, strong' o + one (s.sp x) o = s.spCount o + one v.join o)
    (hfits : ∀ o, strong' o < 2 ^ 28 ∧ strong' o + s.wpCount o < 2 ^ 31)
    (hp : ∀ o, p = some o → 0 < strong' o)
    (hq : ∀ o, q = some o → 0 < strong' o + s.wpCount o) :
    Goes lifetime s ({ s with objects := objects' }.setSp x v) := by
  have hcount : ({ s with objects := objects' }.setSp x v).spCount = strong' := by
    funext o
    have hset : ({ s with objects := objects' }.setSp x v).spCount o + one (s.sp x) o =
        s.spCount o + one v.join o :=
      spCount_setSp (s := { s with objects := objects' }) h.sps x v o
    have hold := hstrong o
    omega
  refine ⟨⟨h.sps.update x v, h.wps, h.refs, ?_, fun o => ?_⟩, fun o => ?_, fun o => ?_⟩
  · rw [hcount]
    exact hcounts
  · rw [hcount]
    exact hfits o
  · rw [hcount]
    exact acquired_iff hcounts hpast hp o
  · rw [hcount]
    exact referenced_iff hcounts hpast hq o

/-- An `sp` that did not exist is null. -/
theorem goes_spNull (h : Wf lifetime s) (hx : s.sps x = none) :
    Goes lifetime s (s.setSp x (some none)) := by
  have hpast : Past none none s.objects s.objects := ⟨fun _ _ => rfl, fun _ _ => rfl⟩
  refine goes_setSp h h.counts hpast (fun o => ?_) h.fits (fun _ ho => absurd ho (by simp))
    fun _ ho => absurd ho (by simp)
  rw [State.sp, hx]
  exact rfl

/-- A `wp` changes. -/
theorem goes_setWp (h : Wf lifetime s) {v : Option (WeakPointer Oid)}
    (hcounts : Counts lifetime objects' s.spCount weak') (hpast : Past none q s.objects objects')
    (hv : (v.getD ⟨none, none⟩).Wf)
    (hweak : ∀ o, weak' o + one (s.wp w).mPtr o = s.wpCount o + one (v.bind WeakPointer.mPtr) o)
    (hfits : ∀ o, s.spCount o + weak' o < 2 ^ 31)
    (hq : ∀ o, q = some o → 0 < s.spCount o + weak' o) :
    Goes lifetime s ({ s with objects := objects' }.setWp w v) := by
  have hcount : ({ s with objects := objects' }.setWp w v).wpCount = weak' := by
    funext o
    have hset : ({ s with objects := objects' }.setWp w v).wpCount o + one (s.wp w).mPtr o =
        s.wpCount o + one (v.bind WeakPointer.mPtr) o :=
      wpCount_setWp (s := { s with objects := objects' }) h.wps w v o
    have hold := hweak o
    omega
  refine ⟨⟨h.sps, h.wps.update w v, fun u => ?_, ?_, fun o => ⟨(h.fits o).1, ?_⟩⟩, fun o => ?_,
    fun o => ?_⟩
  · by_cases hu : u = w
    · subst hu
      simpa only [State.wp, State.setWp, update_self] using hv
    · simpa only [State.wp, State.setWp, update_of_ne hu] using h.refs u
  · rw [hcount]
    exact hcounts
  · rw [hcount]
    exact hfits o
  · exact acquired_iff hcounts hpast (fun _ ho => absurd ho (by simp)) o
  · rw [hcount]
    exact referenced_iff hcounts hpast hq o

/-! ### Operations -/

omit [DecidableEq Oid] [DecidableEq Var] in
theorem Counts.congr {objects : Oid → RefBase} {strong weak : Oid → ℕ}
    (h : Counts lifetime objects strong weak) (hs : ∀ o, strong' o = strong o)
    (hw : ∀ o, weak' o = weak o) : Counts lifetime objects strong' weak' := by
  obtain rfl : strong' = strong := funext hs
  obtain rfl : weak' = weak := funext hw
  exact h

/-- There is room for one strong reference more. -/
def RoomStrong (s : State Oid Var) (ptr : Option Oid) : Prop :=
  ∀ o, ptr = some o → s.spCount o + 1 < 2 ^ 28

/-- There is room for one reference more. -/
def Room (s : State Oid Var) (ptr : Option Oid) : Prop :=
  ∀ o, ptr = some o → s.spCount o + s.wpCount o + 1 < 2 ^ 31

omit [DecidableEq Var] in
theorem RoomStrong.fits (h : RoomStrong s ptr) (hroom : Room s ptr) (hwf : Wf lifetime s)
    (o : Oid) :
    s.spCount o + one ptr o < 2 ^ 28 ∧ s.spCount o + one ptr o + s.wpCount o < 2 ^ 31 := by
  have hfits := hwf.fits o
  by_cases ho : ptr = some o
  · have hone := h o ho
    have hroom := hroom o ho
    subst ho
    rw [one_self]
    omega
  · rw [one_of_ne ho]
    omega

omit [DecidableEq Var] in
theorem Room.fits (h : Room s ptr) (hwf : Wf lifetime s) (o : Oid) :
    s.spCount o + (s.wpCount o + one ptr o) < 2 ^ 31 := by
  have hfits := hwf.fits o
  by_cases ho : ptr = some o
  · have hroom := h o ho
    subst ho
    rw [one_self]
    omega
  · rw [one_of_ne ho]
    omega

theorem spInit_spec (h : Wf lifetime s) (hx : s.sps x = none) (halive : s.Alive ptr)
    (hstrong : RoomStrong s ptr) (hroom : Room s ptr) :
    ∃ objects', s.spInit x ptr = .ok ({ s with objects := objects' }.setSp x (some ptr)) ∧
      Goes lifetime s ({ s with objects := objects' }.setSp x (some ptr)) := by
  obtain ⟨objects', heq, hcounts, hpast⟩ := call_incStrong h.counts halive fun o _ => (h.fits o).1
  refine ⟨objects', ?_, goes_setSp h hcounts hpast (fun o => ?_) (hstrong.fits hroom h)
    (fun o ho => ?_) fun o ho => ?_⟩
  · rw [State.spInit, heq]
    rfl
  · rw [State.sp, hx]
    exact rfl
  · rw [ho, one_self]
    omega
  · rw [ho, one_self]
    omega

theorem spAssign_spec (h : Wf lifetime s) (halive : s.Alive ptr)
    (hstrong : RoomStrong s ptr) (hroom : Room s ptr) :
    ∃ s', s.spAssign x ptr = .ok s' ∧ Goes lifetime s s' := by
  have hle := one_sp_le h x
  have hfits := hstrong.fits hroom h
  obtain ⟨objects₁, heq₁, hcounts₁, hpast₁⟩ :=
    call_incStrong h.counts halive fun o _ => (h.fits o).1
  -- the reference that `x` was is counted until it is let go of
  have hcounts : Counts lifetime { s with objects := objects₁ }.objects
      (fun o => s.spCount o + one ptr o - one (s.sp x) o + one (s.sp x) o) s.wpCount :=
    hcounts₁.congr (fun o => by have := hle o; omega) fun _ => rfl
  obtain ⟨objects', heq, hcounts', hpast'⟩ := call_decStrong hcounts fun o _ => by
    have := hfits o
    omega
  refine ⟨{ s with objects := objects' }.setSp x (some ptr), ?_,
    goes_setSp h hcounts' (hpast₁.trans hpast') (fun o => ?_) (fun o => ?_) (fun o ho => ?_)
      fun o ho => ?_⟩
  · rw [State.spAssign, heq₁]
    change ({ s with objects := objects₁ }.call (s.sp x) RefBase.decStrong >>= _) = _
    rw [heq]
    rfl
  · have := hle o
    simp only [Option.join_some]
    omega
  · have := hfits o
    omega
  · have := hle o
    rw [ho, one_self]
    omega
  · have := hle o
    rw [ho, one_self]
    omega

theorem spRelease_spec (h : Wf lifetime s) {v : Option (Option Oid)} (hv : v.join = none) :
    ∃ s', s.spRelease x v = .ok s' ∧ Goes lifetime s s' := by
  have hle := one_sp_le h x
  have hcounts : Counts lifetime s.objects
      (fun o => s.spCount o - one (s.sp x) o + one (s.sp x) o) s.wpCount :=
    h.counts.congr (fun o => by have := hle o; omega) fun _ => rfl
  obtain ⟨objects', heq, hcounts', hpast⟩ := call_decStrong hcounts fun o _ => by
    have := h.fits o
    omega
  refine ⟨{ s with objects := objects' }.setSp x v, ?_,
    goes_setSp h hcounts' hpast (fun o => ?_) (fun o => ?_) (fun _ ho => absurd ho (by simp))
      fun _ ho => absurd ho (by simp)⟩
  · rw [State.spRelease, heq]
    rfl
  · have := hle o
    rw [hv, one_none]
    omega
  · have := h.fits o
    omega

/-- A `wp` that did not exist gets a reference. -/
theorem goes_wpInit (h : Wf lifetime s) (hw : s.wps w = none) (hroom : Room s ptr)
    (hcounts : Counts lifetime objects' s.spCount fun o => s.wpCount o + one ptr o)
    (hpast : Past none ptr s.objects objects') {v : WeakPointer Oid} (hptr : v.mPtr = ptr)
    (hv : v.Wf) : Goes lifetime s ({ s with objects := objects' }.setWp w (some v)) := by
  refine goes_setWp h hcounts hpast hv (fun o => ?_) (hroom.fits h) fun o ho => ?_
  · rw [wp_mPtr, hw, ← hptr]
    exact rfl
  · rw [ho, one_self]
    omega

omit [DecidableEq Var] in
/-- A `wp` lets its reference go, after it may have got another one. -/
theorem callRefs_decWeak (h : Wf lifetime s)
    (hroom : ∀ o, s.spCount o + (s.wpCount o + one ptr o) < 2 ^ 31)
    (hcounts : Counts lifetime objects' s.spCount fun o => s.wpCount o + one ptr o) (w : Var) :
    ∃ objects'', { s with objects := objects' }.callRefs (s.wp w) RefBase.decWeak =
        .ok { s with objects := objects'' } ∧
      Counts lifetime objects'' s.spCount
        (fun o => s.wpCount o + one ptr o - one (s.wp w).mPtr o) ∧
      Past none none objects' objects'' := by
  have hle := one_wp_le h w
  have hcounts' : Counts lifetime { s with objects := objects' }.objects s.spCount
      (fun o => s.wpCount o + one ptr o - one (s.wp w).mPtr o + one (s.wp w).mPtr o) :=
    hcounts.congr (fun _ => rfl) fun o => by have := hle o; omega
  rw [callRefs_eq (h.refs w)]
  refine call_decWeak hcounts' fun o _ => ?_
  have := hroom o
  omega

/-- A `wp` gets a reference and lets its own go. -/
theorem goes_wpAssign (h : Wf lifetime s) (hroom : Room s ptr)
    (hcounts : Counts lifetime objects' s.spCount
      fun o => s.wpCount o + one ptr o - one (s.wp w).mPtr o)
    (hpast : Past none ptr s.objects objects') {v : WeakPointer Oid} (hptr : v.mPtr = ptr)
    (hv : v.Wf) : Goes lifetime s ({ s with objects := objects' }.setWp w (some v)) := by
  have hle := one_wp_le h w
  refine goes_setWp h hcounts hpast hv (fun o => ?_) (fun o => ?_) fun o ho => ?_
  · have := hle o
    simp only [Option.bind_some, hptr]
    omega
  · have := hroom.fits h o
    omega
  · have := hle o
    rw [ho, one_self]
    omega

omit [DecidableEq Oid] [DecidableEq Var] in
theorem WeakPointer.wf_of_ptr (ptr rest : Option Oid) : WeakPointer.Wf ⟨ptr, ptr <|> rest⟩ := by
  rintro o rfl
  rfl

omit [DecidableEq Var] in
/-- A `wp` can be copied. -/
theorem callRefs_incWeak (h : Wf lifetime s) {v : WeakPointer Oid} (hv : v.Wf) {other : Var}
    (hother : (s.wp other).mPtr = v.mPtr) :
    ∃ objects', s.callRefs v RefBase.incWeak = .ok { s with objects := objects' } ∧
      Counts lifetime objects' s.spCount (fun o => s.wpCount o + one v.mPtr o) ∧
      Past none v.mPtr s.objects objects' := by
  rw [callRefs_eq hv]
  refine call_incWeak h.counts fun o ho => ?_
  have hle := one_wp_le h other o
  rw [hother, ho, one_self] at hle
  omega

theorem wpInit_spec (h : Wf lifetime s) (hw : s.wps w = none) (halive : s.Alive ptr)
    (hroom : Room s ptr) (rest : Option Oid) :
    ∃ objects', s.wpInit w ptr rest =
        .ok ({ s with objects := objects' }.setWp w (some ⟨ptr, ptr <|> rest⟩)) ∧
      Goes lifetime s ({ s with objects := objects' }.setWp w (some ⟨ptr, ptr <|> rest⟩)) := by
  obtain ⟨objects', heq, hcounts, hpast⟩ := call_createWeak h.counts halive
  refine ⟨objects', ?_, goes_wpInit h hw hroom hcounts hpast rfl (WeakPointer.wf_of_ptr ptr rest)⟩
  rw [State.wpInit, heq]
  rfl

theorem wpCopy_spec (h : Wf lifetime s) (hw : s.wps w = none) {v : WeakPointer Oid} (hv : v.Wf)
    {other : Var} (hother : (s.wp other).mPtr = v.mPtr) (hroom : Room s v.mPtr) :
    ∃ s', s.wpCopy w v = .ok s' ∧ Goes lifetime s s' := by
  obtain ⟨objects', heq, hcounts, hpast⟩ := callRefs_incWeak h hv hother
  refine ⟨_, ?_, goes_wpInit h hw hroom hcounts hpast rfl hv⟩
  rw [State.wpCopy, heq]
  rfl

theorem wpAssignPtr_spec (h : Wf lifetime s) (halive : s.Alive ptr) (hroom : Room s ptr) (w : Var) :
    ∃ s', s.wpAssignPtr w ptr = .ok s' ∧ Goes lifetime s s' := by
  obtain ⟨objects₁, heq₁, hcounts₁, hpast₁⟩ := call_createWeak h.counts halive
  obtain ⟨objects', heq, hcounts, hpast⟩ := callRefs_decWeak h (hroom.fits h) hcounts₁ w
  refine ⟨{ s with objects := objects' }.setWp w (some ⟨ptr, ptr⟩), ?_,
    goes_wpAssign h hroom hcounts (hpast₁.trans hpast) rfl fun _ ho => ho⟩
  rw [State.wpAssignPtr, heq₁]
  change ({ s with objects := objects₁ }.callRefs (s.wp w) RefBase.decWeak >>= _) = _
  rw [heq]
  rfl

theorem wpAssign_spec (h : Wf lifetime s) {v : WeakPointer Oid} (hv : v.Wf)
    {other : Var} (hother : (s.wp other).mPtr = v.mPtr) (hroom : Room s v.mPtr) (w : Var) :
    ∃ s', s.wpAssign w v = .ok s' ∧ Goes lifetime s s' := by
  obtain ⟨objects₁, heq₁, hcounts₁, hpast₁⟩ := callRefs_incWeak h hv hother
  obtain ⟨objects', heq, hcounts, hpast⟩ := callRefs_decWeak h (hroom.fits h) hcounts₁ w
  refine ⟨_, ?_, goes_wpAssign h hroom hcounts (hpast₁.trans hpast) rfl hv⟩
  rw [State.wpAssign, heq₁]
  change ({ s with objects := objects₁ }.callRefs (s.wp w) RefBase.decWeak >>= _) = _
  rw [heq]
  rfl

theorem wpRelease_spec (h : Wf lifetime s) {v : Option (WeakPointer Oid)}
    (hv : v.bind WeakPointer.mPtr = none) :
    ∃ s', s.wpRelease w v = .ok s' ∧ Goes lifetime s s' := by
  have hle := one_wp_le h w
  have hcounts : Counts lifetime s.objects s.spCount fun o => s.wpCount o + one none o :=
    h.counts
  have hroom : Room s none := fun _ ho => absurd ho (by simp)
  obtain ⟨objects', heq, hcounts', hpast⟩ := callRefs_decWeak h (hroom.fits h) hcounts w
  refine ⟨{ s with objects := objects' }.setWp w v, ?_,
    goes_setWp h hcounts' hpast (fun o ho => ?_) (fun o => ?_) (fun o => ?_)
      fun _ ho => absurd ho (by simp)⟩
  · rw [State.wpRelease]
    rw [heq]
    rfl
  · cases v with
    | none => exact absurd ho (by simp)
    | some v => exact absurd (hv.symm.trans ho) (by simp)
  · have := hle o
    rw [hv, one_none]
    omega
  · have := (h.fits o).2
    rw [one_none]
    omega

/-- The pointer that `promote` makes. -/
def made (o : Oid) (b : Bool) : Option Oid := if b then some o else none

omit [DecidableEq Var] in
theorem one_made_self (o : Oid) (b : Bool) : one (made o b) o = b.toNat := by
  cases b with
  | true => exact one_self o
  | false => exact one_none o

theorem promote_spec (h : Wf lifetime s) (hx : s.sps x = none)
    (hstrong : RoomStrong s (s.wp w).mPtr) (hroom : Room s (s.wp w).mPtr) (agrees : Bool) :
    ∃ s', s.promote x w agrees = .ok s' ∧ Goes lifetime s s' ∧
      ∀ o, (s.wp w).mPtr = some o → (s'.sp x = none ∨ s'.sp x = some o) ∧
        (s'.sp x = some o ↔ (s.objects o).deleted = 0 ∧
          (lifetime o = .weak → s.spCount o = 0 → agrees = true)) := by
  have hfits := hstrong.fits hroom h
  cases hptr : (s.wp w).mPtr with
  | none =>
      refine ⟨s.setSp x (some none), ?_, goes_spNull h hx, fun o ho => absurd ho (by simp)⟩
      simp only [State.promote, hptr]
      rfl
  | some o =>
      have hpos : 0 < s.wpCount o := by
        have hle := one_wp_le h w o
        rw [hptr, one_self] at hle
        omega
      have hone := hfits o
      rw [hptr, one_self] at hone
      obtain ⟨r', b, heq, hholds, hflags, hkept, hb⟩ :=
        RefBase.attemptIncStrong_spec (h.counts.holds o) hpos (h.fits o).2 hone.1 agrees
      have hle (u : Oid) : one (made o b) u ≤ one (some o) u := by
        cases b with
        | true => exact le_rfl
        | false => exact (one_none u).trans_le (Nat.zero_le _)
      have hcall : ∃ objects', s.call (some o) (fun _ => .ok r') =
            .ok { s with objects := objects' } ∧
          Counts lifetime objects' (fun u => s.spCount u + one (made o b) u) s.wpCount ∧
          Past (made o b) (some o) s.objects objects' := by
        refine call_spec h.counts (fun u hu => ?_) fun u hu => ⟨?_, rfl⟩
        · obtain rfl := Option.some.inj hu
          refine ⟨r', rfl, by rwa [one_made_self], hflags, fun hne => hkept ?_,
            fun hne => absurd rfl hne⟩
          cases b with
          | true => exact absurd rfl hne
          | false => rfl
        · have hnone := hle u
          rw [one_of_ne hu] at hnone
          omega
      obtain ⟨objects', hobjects, hcounts, hpast⟩ := hcall
      have hobjects' : update s.objects o r' = objects' :=
        congrArg State.objects (Except.ok.inj hobjects)
      refine ⟨{ s with objects := objects' }.setSp x (some (made o b)), ?_,
        goes_setSp h hcounts hpast (fun u => ?_) (fun u => ?_) (fun u hu => ?_) fun u hu => ?_,
        fun u hu => ?_⟩
      · simp only [State.promote, hptr, h.refs w o hptr, heq, ← hobjects']
        rfl
      · rw [State.sp, hx]
        exact rfl
      · have hu := hfits u
        have hu' := hle u
        rw [hptr] at hu
        omega
      · rw [hu, one_self]
        omega
      · obtain rfl := Option.some.inj hu
        omega
      · obtain rfl := Option.some.inj hu
        have hsp : ({ s with objects := objects' }.setSp x (some (made o b))).sp x = made o b := by
          simp only [State.sp, State.setSp, update_self, Option.join_some]
        rw [hsp, ← h.counts.mFlags o, ← hb]
        cases b with
        | true => exact ⟨.inr rfl, iff_of_true rfl rfl⟩
        | false => exact ⟨.inl rfl, iff_of_false (by simp [made]) (by simp)⟩

omit [DecidableEq Var] in
/-- An `sp` points to an object that is there. -/
theorem alive_sp (h : Wf lifetime s) (x : Var) : s.Alive (s.sp x) := by
  intro o ho
  have hle := one_sp_le h x o
  rw [ho, one_self] at hle
  exact (h.counts.holds o).alive (Nat.lt_of_lt_of_le hle RefBase.le_keepers)

/-- **What an operation does.**  It has no fault. -/
theorem exec_spec (h : Wf lifetime s) {op : Op Oid Var} (hvalid : op.Valid s) (hfew : Few s op) :
    ∃ s', s.exec op = .ok s' ∧ Goes lifetime s s' := by
  obtain ⟨hstrong, hroom⟩ := hfew
  cases op with
  | spNew x => exact ⟨_, rfl, goes_spNull h hvalid⟩
  | spFromPtr x other =>
      obtain ⟨objects', heq, hgoes⟩ := spInit_spec h hvalid.1 hvalid.2 hstrong hroom
      exact ⟨_, heq, hgoes⟩
  | spFromSp x other =>
      obtain ⟨objects', heq, hgoes⟩ := spInit_spec h hvalid.1 (alive_sp h other) hstrong hroom
      exact ⟨_, heq, hgoes⟩
  | spDestroy x => exact spRelease_spec h rfl
  | spAssignPtr x other => exact spAssign_spec h hvalid.2 hstrong hroom
  | spAssignSp x other => exact spAssign_spec h (alive_sp h other) hstrong hroom
  | spClear x => exact spRelease_spec h rfl
  | wpNew w rest =>
      refine ⟨_, rfl, goes_setWp h h.counts (q := none) ⟨fun _ _ => rfl, fun _ _ => rfl⟩
        (fun _ ho => absurd ho (by simp)) (fun o => ?_) (fun o => (h.fits o).2)
        fun _ ho => absurd ho (by simp)⟩
      rw [wp_mPtr, show s.wps w = none from hvalid]
      exact rfl
  | wpFromPtr w other rest =>
      obtain ⟨objects', heq, hgoes⟩ := wpInit_spec h hvalid.1 hvalid.2 hroom rest
      exact ⟨_, heq, hgoes⟩
  | wpFromWp w other => exact wpCopy_spec h hvalid.1 (h.refs other) rfl hroom
  | wpFromOther w other rest =>
      have hv : WeakPointer.Wf
          ⟨(s.wp other).mPtr, if (s.wp other).mPtr.isSome then (s.wp other).mRefs else rest⟩ := by
        intro o ho
        simp only at ho ⊢
        rw [ho, Option.isSome_some, if_pos rfl, h.refs other o ho]
      exact wpCopy_spec h hvalid.1 hv rfl hroom
  | wpFromSp w other rest =>
      obtain ⟨objects', heq, hgoes⟩ := wpInit_spec h hvalid.1 (alive_sp h other) hroom rest
      exact ⟨_, heq, hgoes⟩
  | wpDestroy w => exact wpRelease_spec h rfl
  | wpAssignPtr w other => exact wpAssignPtr_spec h hvalid.2 hroom w
  | wpAssignWp w other => exact wpAssign_spec h (h.refs other) rfl hroom w
  | wpAssignSp w other => exact wpAssignPtr_spec h (alive_sp h other) hroom w
  | wpClear w => exact wpRelease_spec h rfl
  | promote x w agrees =>
      obtain ⟨s', heq, hgoes, -⟩ := promote_spec h hvalid.1 hstrong hroom agrees
      exact ⟨s', heq, hgoes⟩

/-! ### Runs -/

omit [DecidableEq Oid] [DecidableEq Var] in
theorem count_start (lifetime : Oid → ObjectLifetime) (o : Oid) :
    (start lifetime : State Oid Var).spCount o = 0 ∧
      (start lifetime : State Oid Var).wpCount o = 0 :=
  ⟨headcount_eq_zero fun _ => by simp [start], headcount_eq_zero fun _ => by simp [start]⟩

omit [DecidableEq Oid] [DecidableEq Var] in
theorem wf_start (lifetime : Oid → ObjectLifetime) :
    Wf lifetime (start lifetime : State Oid Var) where
  sps := .const _
  wps := .const _
  refs _ _ ho := absurd ho (by simp [State.wp, start])
  counts := by
    refine ⟨fun o => ?_, fun _ => rfl⟩
    obtain ⟨hsp, hwp⟩ := @count_start Oid Var lifetime o
    rw [hsp, hwp]
    exact RefBase.holds_new _
  fits o := by
    obtain ⟨hsp, hwp⟩ := @count_start Oid Var lifetime o
    omega

/-- At some time there was an `sp` to the object. -/
def HadSp (tr : List (State Oid Var × Op Oid Var)) (s : State Oid Var) (o : Oid) : Prop :=
  ∃ q ∈ Machine.visited tr s, 0 < q.spCount o

/-- At some time there was an `sp` or a `wp` to the object. -/
def HadRef (tr : List (State Oid Var × Op Oid Var)) (s : State Oid Var) (o : Oid) : Prop :=
  ∃ q ∈ Machine.visited tr s, 0 < q.spCount o + q.wpCount o

/-- **What a run keeps.**  The objects record what references there have been. -/
theorem run_wf {tr : List (State Oid Var × Op Oid Var)}
    (h : ((machine lifetime).restrict Few).Run (start lifetime) tr s) :
    Wf lifetime s ∧ ∀ o, ((s.objects o).acquired = true ↔ HadSp tr s o) ∧
      ((s.objects o).referenced = true ↔ HadRef tr s o) := by
  induction h with
  | nil =>
      refine ⟨wf_start lifetime, fun o => ?_⟩
      obtain ⟨hsp, hwp⟩ := @count_start Oid Var lifetime o
      simp [HadSp, HadRef, Machine.visited, hsp, hwp]
      simp [start, RefBase.new]
  | @snoc tr s op s' _ hs ih =>
      obtain ⟨hwf, hpast⟩ := ih
      obtain ⟨s'', heq, hgoes⟩ := exec_spec hwf hs.1.1 hs.2
      obtain rfl : s'' = s' := Except.ok.inj (heq.symm.trans hs.1.2)
      refine ⟨hgoes.wf, fun o => ⟨?_, ?_⟩⟩
      · rw [hgoes.acquired, (hpast o).1]
        simp only [HadSp, Machine.visited_snoc, List.mem_append, List.mem_singleton, or_and_right,
          exists_or, exists_eq_left]
      · rw [hgoes.referenced, (hpast o).2]
        simp only [HadRef, Machine.visited_snoc, List.mem_append, List.mem_singleton, or_and_right,
          exists_or, exists_eq_left]

end

/-- When an object is to be deleted, by its lifetime, by what pointers there have been and by how
many there are. -/
def Gone (hadSp hadRef : Prop) (sp wp : ℕ) : ObjectLifetime → Prop
  | .strong => hadSp ∧ sp = 0 ∨ ¬ hadSp ∧ hadRef ∧ wp = 0
  | .weak => hadRef ∧ sp = 0 ∧ wp = 0

/-- An object with `sp` is kept by them, and has had a reference. -/
theorem gone_iff {r : RefBase} {sp wp : ℕ} (h : r.Holds sp wp) {hadSp hadRef : Prop}
    (hacquired : r.acquired = true ↔ hadSp) (hreferenced : r.referenced = true ↔ hadRef) :
    r.deleted = 1 ↔ Gone hadSp hadRef sp wp r.mFlags := by
  have hone : r.deleted = 1 ↔
      r.referenced = true ∧ RefBase.keepers r.mFlags r.acquired sp wp = 0 := by
    rw [h.deleted]
    simp
  rw [hone, hreferenced]
  cases r.mFlags with
  | strong =>
      cases hacq : r.acquired with
      | true =>
          have hhad := hacquired.1 hacq
          have href : hadRef := hreferenced.1 (by
            cases hno : r.referenced with
            | true => rfl
            | false => exact absurd ((h.referenced hno).2.symm.trans hacq) (by simp))
          simp [Gone, hhad, href, RefBase.keepers]
      | false =>
          have hnot : ¬ hadSp := fun hhad => by simp [hacquired.2 hhad] at hacq
          simp [Gone, hnot, RefBase.keepers, h.acquired hacq]
  | weak =>
      simp [Gone, RefBase.keepers]

/-! ### Many pointers -/

/-- The lifetime of the objects is extended. -/
def extended : Unit → ObjectLifetime := fun _ => .weak

section

variable {s : State Unit ℕ} {tr : List (State Unit ℕ × Op Unit ℕ)}

theorem alive_extended (h : Wf extended s) (hpos : 0 < s.wpCount ()) : s.Alive (some ()) := by
  rintro o -
  refine (h.counts.holds o).alive ?_
  rw [h.counts.mFlags o]
  exact Nat.lt_of_lt_of_le hpos (Nat.le_add_left _ _)

/-- The number of the `sp` with a new one. -/
theorem spCount_add (h : AlmostIdle none s.sps) {x : ℕ} (hx : s.sps x = none) :
    (s.setSp x (some (some ()))).spCount () = s.spCount () + 1 := by
  have hcount := spCount_setSp h x (some (some ())) ()
  have hnone : one (s.sp x) () = 0 := by
    rw [State.sp, hx]
    rfl
  rwa [hnone, Option.join_some, one_self] at hcount

/-- The number of the `wp` with a new one. -/
theorem wpCount_add (h : AlmostIdle none s.wps) {w : ℕ} (hw : s.wps w = none) :
    (s.setWp w (some ⟨some (), some ()⟩)).wpCount () = s.wpCount () + 1 := by
  have hcount := wpCount_setWp h w (some ⟨some (), some ()⟩) ()
  have hnone : one (s.wp w).mPtr () = 0 := by
    rw [State.wp, hw]
    rfl
  rwa [hnone, Option.bind_some, one_self] at hcount

/-- One `sp` more. -/
theorem snoc_sp (h : ((machine extended).restrict Few).Run (start extended) tr s) {x : ℕ}
    (hx : s.sps x = none) (halive : s.Alive (some ())) (hfew : s.spCount () + 1 < 2 ^ 28)
    (hroom : s.spCount () + s.wpCount () + 1 < 2 ^ 31) :
    ∃ tr' s', ((machine extended).restrict Few).Run (start extended) tr' s' ∧
      s'.sps = update s.sps x (some (some ())) ∧ s'.wps = s.wps ∧
      s'.spCount () = s.spCount () + 1 := by
  have hwf := (run_wf h).1
  obtain ⟨objects', heq, -⟩ := spInit_spec hwf hx halive (fun _ _ => hfew) fun _ _ => hroom
  have hcount := spCount_add (s := { s with objects := objects' }) hwf.sps hx
  have hstep : ((machine extended).restrict Few).step s (.spFromPtr x (some ()))
      ({ s with objects := objects' }.setSp x (some (some ()))) :=
    ⟨⟨⟨hx, halive⟩, heq⟩, fun _ _ => hfew, fun _ _ => hroom⟩
  exact ⟨_, _, h.snoc hstep, rfl, rfl, hcount⟩

/-- One `wp` more. -/
theorem snoc_wp (h : ((machine extended).restrict Few).Run (start extended) tr s) {w : ℕ}
    (hw : s.wps w = none) (halive : s.Alive (some ()))
    (hroom : s.spCount () + s.wpCount () + 1 < 2 ^ 31) :
    ∃ tr' s', ((machine extended).restrict Few).Run (start extended) tr' s' ∧
      s'.sps = s.sps ∧ s'.wps = update s.wps w (some ⟨some (), some ()⟩) ∧
      s'.wpCount () = s.wpCount () + 1 := by
  have hwf := (run_wf h).1
  obtain ⟨objects', heq, -⟩ := wpInit_spec hwf hw halive (fun _ _ => hroom) none
  have hcount := wpCount_add (s := { s with objects := objects' }) hwf.wps hw
  have hstep : ((machine extended).restrict Few).step s (.wpFromPtr w (some ()) none)
      ({ s with objects := objects' }.setWp w (some ⟨some (), some ()⟩)) :=
    ⟨⟨⟨hw, halive⟩, heq⟩, fun _ ho => absurd ho (by simp [Op.makesStrong]), fun _ _ => hroom⟩
  exact ⟨_, _, h.snoc hstep, rfl, rfl, hcount⟩

theorem spCount_congr {s' : State Unit ℕ} (h : s'.sps = s.sps) : s'.spCount () = s.spCount () := by
  rw [State.spCount, State.spCount, h]

theorem wpCount_congr {s' : State Unit ℕ} (h : s'.wps = s.wps) : s'.wpCount () = s.wpCount () := by
  rw [State.wpCount, State.wpCount, h]

/-- There may be many `wp`. -/
theorem exists_wps (m : ℕ) (hm : m < 2 ^ 31) :
    ∃ (tr : List (State Unit ℕ × Op Unit ℕ)) (s : State Unit ℕ),
      ((machine extended).restrict Few).Run (start extended) tr s ∧ s.Alive (some ()) ∧
      (∀ x, s.sps x = none) ∧ (∀ w, m ≤ w → s.wps w = none) ∧
      (0 < m → s.wps 0 = some ⟨some (), some ()⟩) ∧ s.spCount () = 0 ∧ s.wpCount () = m := by
  induction m with
  | zero =>
      obtain ⟨hsp, hwp⟩ := @count_start Unit ℕ extended ()
      exact ⟨[], _, .nil, fun _ _ => rfl, fun _ => rfl, fun _ _ => rfl,
        fun h => absurd h (lt_irrefl 0), hsp, hwp⟩
  | succ m ih =>
      obtain ⟨tr, s, hrun, halive, hsps, hwps, hfirst, hsp, hwp⟩ := ih (by omega)
      obtain ⟨tr', s', hrun', hsps', hwps', hwp'⟩ := snoc_wp hrun (hwps m le_rfl) halive (by omega)
      refine ⟨tr', s', hrun', alive_extended (run_wf hrun').1 (by omega), fun x => ?_,
        fun w hw => ?_, fun _ => ?_, ?_, by omega⟩
      · rw [hsps', hsps]
      · rw [hwps', update_of_ne (by omega), hwps w (by omega)]
      · rcases Nat.eq_zero_or_pos m with rfl | hpos
        · rw [hwps', update_self]
        · rw [hwps', update_of_ne (by omega), hfirst hpos]
      · rw [spCount_congr hsps', hsp]

/-- There may be many `sp`, beside a `wp`. -/
theorem exists_sps (n : ℕ) (hn : n < 2 ^ 28) :
    ∃ (tr : List (State Unit ℕ × Op Unit ℕ)) (s : State Unit ℕ),
      ((machine extended).restrict Few).Run (start extended) tr s ∧
      (∀ x, n ≤ x → s.sps x = none) ∧ s.wps 0 = some ⟨some (), some ()⟩ ∧
      s.spCount () = n ∧ s.wpCount () = 1 := by
  induction n with
  | zero =>
      obtain ⟨tr, s, hrun, -, hsps, -, hfirst, hsp, hwp⟩ := exists_wps 1 (by decide)
      exact ⟨tr, s, hrun, fun x _ => hsps x, hfirst Nat.one_pos, hsp, hwp⟩
  | succ n ih =>
      obtain ⟨tr, s, hrun, hsps, hfirst, hsp, hwp⟩ := ih (by omega)
      have halive := alive_extended (run_wf hrun).1 (by omega)
      obtain ⟨tr', s', hrun', hsps', hwps', hsp'⟩ :=
        snoc_sp hrun (hsps n le_rfl) halive (by omega) (by omega)
      refine ⟨tr', s', hrun', fun x hx => ?_, ?_, by omega, ?_⟩
      · rw [hsps', update_of_ne (by omega), hsps x (by omega)]
      · rw [hwps', hfirst]
      · rw [wpCount_congr hwps', hwp]

end

/-- A few pointers are few enough. -/
theorem few_of_card [DecidableEq Oid] [DecidableEq Var] [Finite Var]
    (hcard : Nat.card Var < 2 ^ 27) (s : State Oid Var) (op : Op Oid Var) : Few s op := by
  have hsp (o : Oid) : s.spCount o ≤ Nat.card Var := Set.ncard_le_card _
  have hwp (o : Oid) : s.wpCount o ≤ Nat.card Var := Set.ncard_le_card _
  refine ⟨fun o _ => ?_, fun o _ => ?_⟩
  · have := hsp o
    omega
  · have := hsp o
    have := hwp o
    omega

theorem snoc_fin {lifetime : Unit → ObjectLifetime} {s₀ s s' : State Unit (Fin 2)}
    {tr : List (State Unit (Fin 2) × Op Unit (Fin 2))}
    (h : ((machine lifetime).restrict Few).Run s₀ tr s) (op : Op Unit (Fin 2))
    (hvalid : op.Valid s) (heq : s.exec op = .ok s') :
    ((machine lifetime).restrict Few).Run s₀ (tr ++ [(s, op)]) s' :=
  h.snoc ⟨⟨hvalid, heq⟩, few_of_card (by simp) s op⟩

end Pointers

open Pointers

/-- **What the counters are, and when objects are deleted.**  Whatever a thread does with `sp` and
`wp`, with fewer than `2 ^ 28` `sp` and fewer than `2 ^ 31` pointers to an object at any time:
`mWeak` is the number of the pointers; `mStrong` is the number of the `sp`, or
`INITIAL_STRONG_VALUE` if there never was one; the object is deleted once, when the last `sp` is
gone, or the last `wp` if there never was an `sp`, or with the extended lifetime the last pointer of
either kind; the `weakref_impl` is deleted once, when the last pointer is gone; neither is accessed
afterwards; and `promote` yields the object as long as it is there, unless only `wp` of an object
with the extended lifetime are left and it does not agree. -/
theorem references_counted {Oid Var : Type} [DecidableEq Oid] [DecidableEq Var]
    {lifetime : Oid → ObjectLifetime} {s : State Oid Var} {tr : List (State Oid Var × Op Oid Var)}
    (h : ((machine lifetime).restrict Few).Run (start lifetime) tr s) :
    (∀ o, (s.objects o).mWeak.toInt = s.spCount o + s.wpCount o ∧
      (HadSp tr s o → (s.objects o).mStrong.toInt = s.spCount o) ∧
      (¬ HadSp tr s o → (s.objects o).mStrong = initialStrongValue) ∧
      (s.objects o).deleted ≤ 1 ∧
      ((s.objects o).deleted = 1 ↔
        Gone (HadSp tr s o) (HadRef tr s o) (s.spCount o) (s.wpCount o) (lifetime o)) ∧
      (s.objects o).implDeleted ≤ 1 ∧
      ((s.objects o).implDeleted = 1 ↔ HadRef tr s o ∧ s.spCount o = 0 ∧ s.wpCount o = 0)) ∧
    (∀ op, op.Valid s → Few s op → ∃ s', s.exec op = .ok s') ∧
    ∀ x w agrees s' o, ((machine lifetime).restrict Few).step s (.promote x w agrees) s' →
      (s.wp w).mPtr = some o → (s'.sp x = none ∨ s'.sp x = some o) ∧
        (s'.sp x = some o ↔ (s.objects o).deleted = 0 ∧
          (lifetime o = .weak → s.spCount o = 0 → agrees = true)) := by
  obtain ⟨hwf, hpast⟩ := run_wf h
  refine ⟨fun o => ?_, fun op hvalid hfew => ?_, fun x w agrees s' o hs ho => ?_⟩
  · obtain ⟨hacquired, hreferenced⟩ := hpast o
    have hholds := hwf.counts.holds o
    have hfits := hwf.fits o
    refine ⟨?_, fun hhad => ?_, fun hnot => ?_, ?_, ?_, ?_, ?_⟩
    · rw [hholds.mWeak, RefBase.toInt_ofNat hfits.2]
      exact Int.natCast_add _ _
    · rw [hholds.mStrong, if_pos (hacquired.2 hhad), RefBase.toInt_ofNat (by omega)]
    · rw [hholds.mStrong, if_neg fun hacq => hnot (hacquired.1 hacq)]
    · rw [hholds.deleted]
      split <;> omega
    · rw [gone_iff hholds hacquired hreferenced, hwf.counts.mFlags]
    · rw [hholds.implDeleted]
      split <;> omega
    · rw [hholds.implDeleted, ← hreferenced, ← Nat.add_eq_zero_iff]
      simp
  · obtain ⟨s', heq, -⟩ := exec_spec hwf hvalid hfew
    exact ⟨s', heq⟩
  · obtain ⟨hstrong, hroom⟩ := hs.2
    obtain ⟨s'', heq, -, hyields⟩ := promote_spec hwf hs.1.1.1 hstrong hroom agrees
    obtain rfl : s'' = s' := Except.ok.inj (heq.symm.trans hs.1.2)
    exact hyields o ho

/-- The last `sp` goes away, and a `wp` is left. -/
theorem references_counted_once :
    ∃ (tr : List (State Unit (Fin 2) × Op Unit (Fin 2))) (s : State Unit (Fin 2)),
      ((machine fun _ => .strong).restrict Few).Run (start fun _ => .strong) tr s ∧
      s.spCount () + s.wpCount () = 1 ∧ (s.objects ()).deleted = 1 ∧
      (s.objects ()).implDeleted = 0 ∧
      Gone (HadSp tr s ()) (HadRef tr s ()) (s.spCount ()) (s.wpCount ()) .strong := by
  have h₀ : ((machine fun _ => .strong).restrict Few).Run
      (start fun _ : Unit => .strong : State Unit (Fin 2)) [] (start fun _ => .strong) := .nil
  have h₁ := snoc_fin h₀ (.spFromPtr 0 (some ())) ⟨rfl, fun _ _ => rfl⟩ rfl
  have h₂ := snoc_fin h₁ (.wpFromSp 0 0 none) ⟨rfl, Option.some_ne_none _⟩ rfl
  have h₃ := snoc_fin h₂ (.spClear 0) (Option.some_ne_none _) rfl
  obtain ⟨hmWeak, -, -, -, hgone, -⟩ := (references_counted h₃).1 ()
  refine ⟨_, _, h₃, ?_, rfl, rfl, hgone.1 rfl⟩
  have hone := hmWeak.symm.trans (show _ = (1 : ℤ) from rfl)
  exact_mod_cast hone

/-- **What goes wrong.**  An object with the extended lifetime does not agree to be revived, and
`promote` yields null while it is there; with `2 ^ 28` `sp`, made by `promote`, `mStrong` is zero;
and with `2 ^ 31` `wp`, `mWeak` is negative. -/
theorem references_miscounted :
    (∃ (tr : List (State Unit ℕ × Op Unit ℕ)) (s s' : State Unit ℕ),
      (machine extended).Run (start extended) tr s ∧ (s.wp 0).mPtr = some () ∧
      (s.objects ()).deleted = 0 ∧ (machine extended).step s (.promote 0 0 false) s' ∧
      s'.sp 0 = none) ∧
    (∃ (tr : List (State Unit ℕ × Op Unit ℕ)) (s : State Unit ℕ),
      (machine extended).Run (start extended) tr s ∧ s.spCount () = 2 ^ 28 ∧
      (s.objects ()).mStrong = 0) ∧
    ∃ (tr : List (State Unit ℕ × Op Unit ℕ)) (s : State Unit ℕ),
      (machine extended).Run (start extended) tr s ∧ s.wpCount () = 2 ^ 31 ∧
      (s.objects ()).mWeak.toInt = -2 ^ 31 := by
  refine ⟨?_, ?_, ?_⟩
  · obtain ⟨tr, s, hrun, halive, hsps, -, hfirst, hsp, hwp⟩ := exists_wps 1 (by decide)
    have hptr : (s.wp 0).mPtr = some () := by
      rw [State.wp, hfirst Nat.one_pos]
      rfl
    have hvalid : s.sps 0 = none ∧ s.wps 0 ≠ none := ⟨hsps 0, by simp [hfirst]⟩
    have hfew : s.spCount () + 1 < 2 ^ 28 := by omega
    have hroom : s.spCount () + s.wpCount () + 1 < 2 ^ 31 := by omega
    obtain ⟨s', heq, -, hyields⟩ := promote_spec (run_wf hrun).1 hvalid.1
      (fun _ _ => hfew) (fun _ _ => hroom) false
    obtain ⟨hsome, hiff⟩ := hyields () hptr
    refine ⟨tr, s, s', hrun.of_restrict, hptr, halive () rfl, ⟨hvalid, heq⟩, ?_⟩
    exact hsome.resolve_right fun hyes => absurd ((hiff.1 hyes).2 rfl hsp) (by simp)
  · obtain ⟨tr, s, hrun, hsps, hfirst, hsp, hwp⟩ := exists_sps (2 ^ 28 - 1) (by decide)
    have hwf := (run_wf hrun).1
    have hholds := hwf.counts.holds ()
    rw [hsp] at hholds
    obtain ⟨r', heq, hmStrong⟩ := RefBase.attemptIncStrong_full hholds true
    let s' : State Unit ℕ :=
      { s with objects := Function.update s.objects () r' }.setSp (2 ^ 28 - 1) (some (some ()))
    have hstep : (machine extended).step s (.promote (2 ^ 28 - 1) 0 true) s' := by
      refine ⟨⟨hsps _ le_rfl, by simp [hfirst]⟩, ?_⟩
      have hwp' : s.wp 0 = ⟨some (), some ()⟩ := by rw [State.wp, hfirst]; rfl
      simp only [State.exec, State.promote, hwp', heq]
      rfl
    refine ⟨_, s', hrun.of_restrict.snoc hstep, ?_, ?_⟩
    · have hcount := spCount_add (s := { s with objects := Function.update s.objects () r' })
        hwf.sps (hsps _ le_rfl)
      refine hcount.trans ?_
      rw [show State.spCount { s with objects := Function.update s.objects () r' } () =
        2 ^ 28 - 1 from hsp]
      omega
    · change (Function.update s.objects () r' ()).mStrong = 0
      rw [Function.update_self, hmStrong]
  · obtain ⟨tr, s, hrun, halive, hsps, hwps, -, hsp, hwp⟩ := exists_wps (2 ^ 31 - 1) (by decide)
    have hwf := (run_wf hrun).1
    obtain ⟨objects', heq, hcounts, -⟩ := call_createWeak hwf.counts halive
    let s' : State Unit ℕ :=
      { s with objects := objects' }.setWp (2 ^ 31 - 1) (some ⟨some (), some ()⟩)
    have hstep : (machine extended).step s (.wpFromPtr (2 ^ 31 - 1) (some ()) none) s' := by
      refine ⟨⟨hwps _ le_rfl, halive⟩, ?_⟩
      simp only [State.exec, State.wpInit, heq]
      rfl
    refine ⟨_, s', hrun.of_restrict.snoc hstep, ?_, ?_⟩
    · have hcount := wpCount_add (s := { s with objects := objects' }) hwf.wps (hwps _ le_rfl)
      refine hcount.trans ?_
      rw [show State.wpCount { s with objects := objects' } () = 2 ^ 31 - 1 from hwp]
      omega
    · have hmWeak := (hcounts.holds ()).mWeak
      rw [hsp, hwp, one_self] at hmWeak
      change (objects' ()).mWeak.toInt = -2 ^ 31
      rw [hmWeak]
      decide

end VModule

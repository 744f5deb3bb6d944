/-
**`sp` and `wp`, in one thread.**

The class templates `sp` of `include/sutils/StrongPointer.h` and `wp` of `include/sutils/RefBase.h`
over the objects of `VModule/RefBase.lean`.  Objects are there from the start, with the lifetime
that their constructors have given them.  An operation is a member function of an `sp` or a `wp`;
the overloads for related types do the same as the ones modelled, except for a copy of a `wp`, which
is modelled twice.  What a destructor or a hook lets go of is let go of by operations of its own,
listed after the operation that has called it.

A `wp` has two members.  Three of its constructors leave `m_refs` as it is found in memory when
`m_ptr` is null.

Main definitions:

* `VModule.Pointers.State`, `VModule.Pointers.Op`, `VModule.Pointers.State.exec` — the objects and
  the pointers, and what the operations do;
* `VModule.Pointers.Op.Valid`, `VModule.Pointers.machine` — what a program may do;
* `VModule.Pointers.Few` — the bounds on the number of references.
-/

import VModule.Machine
import VModule.RefBase
import VModule.Tally

set_option relaxedAutoImplicit false
set_option autoImplicit false

namespace VModule

namespace Pointers

open Function

/-! ### Pointers -/

/-- A `wp`. -/
structure WeakPointer (Oid : Type) where
  mPtr : Option Oid
  mRefs : Option Oid

/-- The objects, and the pointers that exist. -/
structure State (Oid Var : Type) where
  objects : Oid → RefBase
  sps : Var → Option (Option Oid)
  wps : Var → Option (WeakPointer Oid)

variable {Oid Var : Type}

namespace State

/-- What an `sp` points to. -/
def sp (s : State Oid Var) (x : Var) : Option Oid := (s.sps x).join

/-- The members of a `wp`. -/
def wp (s : State Oid Var) (w : Var) : WeakPointer Oid := (s.wps w).getD ⟨none, none⟩

variable [DecidableEq Oid]

/-- A function is called on the object pointed to, unless the pointer is null. -/
def call (s : State Oid Var) (p : Option Oid) (f : RefBase → Except Fault RefBase) :
    Except Fault (State Oid Var) :=
  match p with
  | none => return s
  | some o => do
      let r ← f (s.objects o)
      return { s with objects := update s.objects o r }

/-- A function is called on `m_refs`, unless `m_ptr` is null. -/
def callRefs (s : State Oid Var) (w : WeakPointer Oid) (f : RefBase → Except Fault RefBase) :
    Except Fault (State Oid Var) :=
  match w.mPtr, w.mRefs with
  | none, _ => return s
  | some _, none => .error .null
  | some _, some o => s.call (some o) f

variable [DecidableEq Var]

def setSp (s : State Oid Var) (x : Var) (v : Option (Option Oid)) : State Oid Var :=
  { s with sps := update s.sps x v }

def setWp (s : State Oid Var) (w : Var) (v : Option (WeakPointer Oid)) : State Oid Var :=
  { s with wps := update s.wps w v }

/-! ### What the member functions do -/

/-- A constructor of `sp`. -/
def spInit (s : State Oid Var) (x : Var) (ptr : Option Oid) : Except Fault (State Oid Var) := do
  let s ← s.call ptr RefBase.incStrong
  return s.setSp x (some ptr)

/-- `sp::operator =`. -/
def spAssign (s : State Oid Var) (x : Var) (ptr : Option Oid) : Except Fault (State Oid Var) := do
  let s ← s.call ptr RefBase.incStrong
  let s ← s.call (s.sp x) RefBase.decStrong
  return s.setSp x (some ptr)

/-- `~sp` and `sp::clear`, which leave `v`. -/
def spRelease (s : State Oid Var) (x : Var) (v : Option (Option Oid)) :
    Except Fault (State Oid Var) := do
  let s ← s.call (s.sp x) RefBase.decStrong
  return s.setSp x v

/-- A constructor of `wp` from a pointer to an object. -/
def wpInit (s : State Oid Var) (w : Var) (ptr rest : Option Oid) :
    Except Fault (State Oid Var) := do
  let s ← s.call ptr RefBase.createWeak
  return s.setWp w (some ⟨ptr, ptr <|> rest⟩)

/-- A constructor of `wp` from a `wp`. -/
def wpCopy (s : State Oid Var) (w : Var) (v : WeakPointer Oid) : Except Fault (State Oid Var) := do
  let s ← s.callRefs v RefBase.incWeak
  return s.setWp w (some v)

/-- `wp::operator =`, from a pointer to an object. -/
def wpAssignPtr (s : State Oid Var) (w : Var) (ptr : Option Oid) :
    Except Fault (State Oid Var) := do
  let s ← s.call ptr RefBase.createWeak
  let s ← s.callRefs (s.wp w) RefBase.decWeak
  return s.setWp w (some ⟨ptr, ptr⟩)

/-- `wp::operator =`, from a `wp`. -/
def wpAssign (s : State Oid Var) (w : Var) (v : WeakPointer Oid) :
    Except Fault (State Oid Var) := do
  let s ← s.callRefs v RefBase.incWeak
  let s ← s.callRefs (s.wp w) RefBase.decWeak
  return s.setWp w (some v)

/-- `~wp` and `wp::clear`, which leave `v`. -/
def wpRelease (s : State Oid Var) (w : Var) (v : Option (WeakPointer Oid)) :
    Except Fault (State Oid Var) := do
  let s ← s.callRefs (s.wp w) RefBase.decWeak
  return s.setWp w v

/-- `wp::promote`, with what `onIncStrongAttempted` answers, into an `sp`. -/
def promote (s : State Oid Var) (x w : Var) (agrees : Bool) : Except Fault (State Oid Var) :=
  match (s.wp w).mPtr, (s.wp w).mRefs with
  | none, _ => return s.setSp x (some none)
  | some _, none => .error .null
  | some o, some refs => do
      let (r, attempted) ← (s.objects refs).attemptIncStrong agrees
      let s := { s with objects := update s.objects refs r }
      return s.setSp x (some (if attempted then some o else none))

end State

/-! ### Operations -/

/-- A member function is called on a pointer. -/
inductive Op (Oid Var : Type) where
  /-- `sp()` -/
  | spNew (x : Var)
  /-- `sp(T* other)` -/
  | spFromPtr (x : Var) (other : Option Oid)
  /-- `sp(const sp& other)` -/
  | spFromSp (x other : Var)
  /-- `~sp()` -/
  | spDestroy (x : Var)
  /-- `operator = (T* other)` -/
  | spAssignPtr (x : Var) (other : Option Oid)
  /-- `operator = (const sp& other)` -/
  | spAssignSp (x other : Var)
  /-- `sp::clear()` -/
  | spClear (x : Var)
  /-- `wp()` -/
  | wpNew (w : Var) (rest : Option Oid)
  /-- `wp(T* other)` -/
  | wpFromPtr (w : Var) (other rest : Option Oid)
  /-- `wp(const wp& other)` -/
  | wpFromWp (w other : Var)
  /-- `wp(const wp<U>& other)` -/
  | wpFromOther (w other : Var) (rest : Option Oid)
  /-- `wp(const sp& other)` -/
  | wpFromSp (w other : Var) (rest : Option Oid)
  /-- `~wp()` -/
  | wpDestroy (w : Var)
  /-- `operator = (T* other)` -/
  | wpAssignPtr (w : Var) (other : Option Oid)
  /-- `operator = (const wp& other)` -/
  | wpAssignWp (w other : Var)
  /-- `operator = (const sp& other)` -/
  | wpAssignSp (w other : Var)
  /-- `wp::clear()` -/
  | wpClear (w : Var)
  /-- `sp x(w.promote())` -/
  | promote (x w : Var) (agrees : Bool)

variable [DecidableEq Oid] [DecidableEq Var]

/-- One operation. -/
def State.exec (s : State Oid Var) : Op Oid Var → Except Fault (State Oid Var)
  | .spNew x => return s.setSp x (some none)
  | .spFromPtr x other => s.spInit x other
  | .spFromSp x other => s.spInit x (s.sp other)
  | .spDestroy x => s.spRelease x none
  | .spAssignPtr x other => s.spAssign x other
  | .spAssignSp x other => s.spAssign x (s.sp other)
  | .spClear x => s.spRelease x (some none)
  | .wpNew w rest => return s.setWp w (some ⟨none, rest⟩)
  | .wpFromPtr w other rest => s.wpInit w other rest
  | .wpFromWp w other => s.wpCopy w (s.wp other)
  | .wpFromOther w other rest =>
      -- `m_refs` is copied if `m_ptr` is not null
      let v := s.wp other
      s.wpCopy w ⟨v.mPtr, if v.mPtr.isSome then v.mRefs else rest⟩
  | .wpFromSp w other rest => s.wpInit w (s.sp other) rest
  | .wpDestroy w => s.wpRelease w none
  | .wpAssignPtr w other => s.wpAssignPtr w other
  | .wpAssignWp w other => s.wpAssign w (s.wp other)
  | .wpAssignSp w other => s.wpAssignPtr w (s.sp other)
  | .wpClear w => s.wpRelease w (some ⟨none, (s.wp w).mRefs⟩)
  | .promote x w agrees => s.promote x w agrees

/-- The object that a pointer points to is there. -/
def State.Alive (s : State Oid Var) (ptr : Option Oid) : Prop :=
  ∀ o, ptr = some o → (s.objects o).deleted = 0

namespace Op

/-- A constructor makes a pointer that did not exist, the other functions are called on one that
does; a pointer that is not from an `sp` or a `wp` points to an object that is there. -/
def Valid (s : State Oid Var) : Op Oid Var → Prop
  | spNew x => s.sps x = none
  | spFromPtr x other => s.sps x = none ∧ s.Alive other
  | spFromSp x other => s.sps x = none ∧ s.sps other ≠ none
  | spDestroy x | spClear x => s.sps x ≠ none
  | spAssignPtr x other => s.sps x ≠ none ∧ s.Alive other
  | spAssignSp x other => s.sps x ≠ none ∧ s.sps other ≠ none
  | wpNew w _ => s.wps w = none
  | wpFromPtr w other _ => s.wps w = none ∧ s.Alive other
  | wpFromWp w other | wpFromOther w other _ => s.wps w = none ∧ s.wps other ≠ none
  | wpFromSp w other _ => s.wps w = none ∧ s.sps other ≠ none
  | wpDestroy w | wpClear w => s.wps w ≠ none
  | wpAssignPtr w other => s.wps w ≠ none ∧ s.Alive other
  | wpAssignWp w other => s.wps w ≠ none ∧ s.wps other ≠ none
  | wpAssignSp w other => s.wps w ≠ none ∧ s.sps other ≠ none
  | promote x w _ => s.sps x = none ∧ s.wps w ≠ none

/-- The object to which the operation makes a strong reference. -/
def makesStrong (s : State Oid Var) : Op Oid Var → Option Oid
  | spFromPtr _ other | spAssignPtr _ other => other
  | spFromSp _ other | spAssignSp _ other => s.sp other
  | promote _ w _ => (s.wp w).mPtr
  | _ => none

/-- The object to which the operation makes a reference. -/
def makesRef (s : State Oid Var) : Op Oid Var → Option Oid
  | spFromPtr _ other | spAssignPtr _ other => other
  | spFromSp _ other | spAssignSp _ other => s.sp other
  | wpFromPtr _ other _ | wpAssignPtr _ other => other
  | wpFromWp _ other | wpFromOther _ other _ | wpAssignWp _ other => (s.wp other).mPtr
  | wpFromSp _ other _ | wpAssignSp _ other => s.sp other
  | promote _ w _ => (s.wp w).mPtr
  | _ => none

end Op

/-! ### Programs -/

/-- Nothing points to the objects yet. -/
def start (lifetime : Oid → ObjectLifetime) : State Oid Var where
  objects o := .new (lifetime o)
  sps _ := none
  wps _ := none

/-- A program that uses objects with these lifetimes. -/
def machine (lifetime : Oid → ObjectLifetime) : Machine (State Oid Var) (Op Oid Var) where
  init s := s = start lifetime
  step s op s' := op.Valid s ∧ s.exec op = .ok s'

/-- The number of the `sp` that point to an object. -/
noncomputable def State.spCount (s : State Oid Var) (o : Oid) : ℕ :=
  headcount (fun v => v.join = some o) s.sps

/-- The number of the `wp` that point to an object. -/
noncomputable def State.wpCount (s : State Oid Var) (o : Oid) : ℕ :=
  headcount (fun v => v.bind WeakPointer.mPtr = some o) s.wps

/-- With the reference that the operation makes, an object has fewer than `2 ^ 28` strong
references, and fewer than `2 ^ 31` references. -/
def Few (s : State Oid Var) (op : Op Oid Var) : Prop :=
  (∀ o, op.makesStrong s = some o → s.spCount o + 1 < 2 ^ 28) ∧
    ∀ o, op.makesRef s = some o → s.spCount o + s.wpCount o + 1 < 2 ^ 31

end Pointers

end VModule

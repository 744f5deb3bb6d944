/-
**`sutils/RefBase.cpp`, one call after the other.**

An object derived from `RefBase` and its `weakref_impl`, used by one thread.  The counters are the
`int32_t` that they are, with the primitives of `include/sutils/Atomic.h`.  The virtual functions
and the destructor of the derived class do nothing to the references of the object; what
`onIncStrongAttempted` answers is up to the class.  Every access to the object or to its
`weakref_impl` first looks whether it is still there, and fails if not.

Main definitions:

* `VModule.RefBase` — the object;
* `VModule.RefBase.incStrong`, `decStrong`, `createWeak`, `incWeak`, `decWeak`, `attemptIncStrong`,
  `destructor` — the functions;
* `VModule.RefBase.Holds` — what holds of an object with given numbers of references.

Main results:

* `VModule.RefBase.incStrong_spec`, `decStrong_spec`, `createWeak_spec`, `incWeak_spec`,
  `decWeak_spec`, `attemptIncStrong_spec` — what the functions do to the numbers.
-/

import VModule.Atomic

set_option relaxedAutoImplicit false
set_option autoImplicit false

namespace VModule

/-! ### The object -/

/-- `mFlags & OBJECT_LIFETIME_MASK`. -/
inductive ObjectLifetime where
  | strong
  | weak
  deriving DecidableEq

/-- An access after the end. -/
inductive Fault where
  /-- The object has been deleted. -/
  | object
  /-- The `weakref_impl` has been deleted. -/
  | weakrefImpl
  /-- A null pointer is followed. -/
  | null
  deriving DecidableEq

/-- An object and its `weakref_impl`. -/
structure RefBase where
  mFlags : ObjectLifetime
  mStrong : Word
  mWeak : Word
  /-- Some strong reference has been made. -/
  acquired : Bool
  /-- Some reference has been made. -/
  referenced : Bool
  /-- How often the destructor has been entered. -/
  deleted : ℕ
  /-- How often the `weakref_impl` has been deleted. -/
  implDeleted : ℕ

namespace RefBase

/-- The constructor. -/
def new (mFlags : ObjectLifetime) : RefBase where
  mFlags := mFlags
  mStrong := initialStrongValue
  mWeak := 0
  acquired := false
  referenced := false
  deleted := 0
  implDeleted := 0

/-- The object is accessed. -/
def object (r : RefBase) : Except Fault Unit :=
  if r.deleted = 0 then .ok () else .error .object

/-- The `weakref_impl` is accessed. -/
def impl (r : RefBase) : Except Fault Unit :=
  if r.implDeleted = 0 then .ok () else .error .weakrefImpl

/-! ### The functions -/

def incWeak (r : RefBase) : Except Fault RefBase := do
  r.impl
  let (mWeak, _) := Native.vmoduleAtomicInc r.mWeak
  return { r with mWeak := mWeak, referenced := true }

def createWeak (r : RefBase) : Except Fault RefBase := do
  r.object
  r.incWeak

/-- `delete` of the `weakref_impl`. -/
def deleteImpl (r : RefBase) : Except Fault RefBase := do
  r.impl
  return { r with implDeleted := r.implDeleted + 1 }

/-- `~RefBase`. -/
def destructor (r : RefBase) : Except Fault RefBase := do
  r.object
  r.impl
  let r := { r with deleted := r.deleted + 1 }
  if r.mStrong = initialStrongValue then
    r.deleteImpl
  else if r.mFlags ≠ .strong ∧ r.mWeak = 0 then
    r.deleteImpl
  else
    return r

/-- What `decWeak` does when it has found 1. -/
def lastWeak (r : RefBase) : Except Fault RefBase := do
  match r.mFlags with
  | .strong =>
      if r.mStrong = initialStrongValue then
        r.destructor
      else
        r.deleteImpl
  | .weak =>
      -- `onLastWeakRef`
      r.object
      r.destructor

def decWeak (r : RefBase) : Except Fault RefBase := do
  r.impl
  let (mWeak, c) := Native.vmoduleAtomicDec r.mWeak
  let r := { r with mWeak := mWeak }
  if c ≠ 1 then return r else r.lastWeak

def incStrong (r : RefBase) : Except Fault RefBase := do
  r.object
  let r ← r.incWeak
  let (mStrong, c) := Native.vmoduleAtomicInc r.mStrong
  let r := { r with mStrong := mStrong, acquired := true }
  if c ≠ initialStrongValue then
    return r
  else
    let (mStrong, _) := Native.vmoduleAtomicAdd (-initialStrongValue) r.mStrong
    -- `onFirstRef`
    r.object
    return { r with mStrong := mStrong }

/-- What `decStrong` does when it has found 1. -/
def lastStrong (r : RefBase) : Except Fault RefBase := do
  -- `onLastStrongRef`
  r.object
  match r.mFlags with
  | .strong => r.destructor
  | .weak => return r

def decStrong (r : RefBase) : Except Fault RefBase := do
  r.object
  r.impl
  let (mStrong, c) := Native.vmoduleAtomicDec r.mStrong
  let r := { r with mStrong := mStrong }
  let r ← if c = 1 then r.lastStrong else pure r
  r.decWeak

/-- A loop that runs alone, from the value at the address: what is left in `curCount` and at the
address. -/
def runLoop (l : RetryLoop) (m : Word) : Word × Word :=
  if l.test m then (m, l.next m) else (m, m)

/-- The end of `attemptIncStrong`, when it has counted the reference. -/
def attempted (r : RefBase) : Except Fault (RefBase × Bool) :=
  let (_, mStrong) := runLoop .fixUp r.mStrong
  return ({ r with mStrong := mStrong, acquired := true }, true)

/-- `attemptIncStrong` gives up. -/
def giveUp (r : RefBase) : Except Fault (RefBase × Bool) := do
  return (← r.decWeak, false)

/-- `onLastStrongRef` is called for an unneeded reference. -/
def unneeded (r : RefBase) (curCount : Word) : Except Fault Unit :=
  if BitVec.slt 0 curCount && BitVec.slt curCount initialStrongValue then r.object else return ()

/-- The harder case of `attemptIncStrong`: there is no strong reference. -/
def attemptHarder (r : RefBase) (curCount : Word) (agrees : Bool) :
    Except Fault (RefBase × Bool) := do
  match r.mFlags with
  | .strong =>
      if BitVec.sle curCount 0 then
        r.giveUp
      else
        let (curCount, mStrong) := runLoop .promote r.mStrong
        let r := { r with mStrong := mStrong }
        if BitVec.sle curCount 0 then
          r.giveUp
        else
          r.unneeded curCount
          r.attempted
  | .weak =>
      -- `onIncStrongAttempted`
      r.object
      if !agrees then
        r.giveUp
      else
        let (mStrong, curCount) := Native.vmoduleAtomicInc r.mStrong
        let r := { r with mStrong := mStrong }
        r.unneeded curCount
        r.attempted

/-- `attemptIncStrong`; `agrees` is what `onIncStrongAttempted` answers, if it is asked. -/
def attemptIncStrong (r : RefBase) (agrees : Bool) : Except Fault (RefBase × Bool) := do
  let r ← r.incWeak
  let (curCount, mStrong) := runLoop .attemptIncStrong r.mStrong
  let r := { r with mStrong := mStrong }
  if BitVec.sle curCount 0 || curCount == initialStrongValue then
    r.attemptHarder curCount agrees
  else
    r.attempted

/-- The loops are the ones of the source. -/
theorem retry_runLoop (l : RetryLoop) (m : Word) (res : Word × Word) :
    Retry native l m m res ↔ res = runLoop l m := by
  unfold runLoop
  cases ht : l.test m with
  | true => exact Retry.native_iff ht
  | false => exact Retry.stop_iff ht

/-! ### Counters -/

@[simp] theorem inc_ofNat (n : ℕ) :
    Native.vmoduleAtomicInc (BitVec.ofNat 32 n) = (BitVec.ofNat 32 (n + 1), BitVec.ofNat 32 n) := by
  simp [Native.vmoduleAtomicInc, BitVec.ofNat_add]

@[simp] theorem dec_ofNat (n : ℕ) :
    Native.vmoduleAtomicDec (BitVec.ofNat 32 (n + 1)) =
      (BitVec.ofNat 32 n, BitVec.ofNat 32 (n + 1)) := by
  have hone : BitVec.ofNat 32 (n + 1) - 1 = BitVec.ofNat 32 n := by
    rw [BitVec.ofNat_add]
    exact BitVec.add_sub_cancel _ _
  rw [Native.vmoduleAtomicDec, hone]

theorem ofNat_eq_iff {n m : ℕ} (hn : n < 2 ^ 32) (hm : m < 2 ^ 32) :
    BitVec.ofNat 32 n = BitVec.ofNat 32 m ↔ n = m := by
  constructor
  · intro h
    have hnat := congrArg BitVec.toNat h
    rwa [BitVec.toNat_ofNat, BitVec.toNat_ofNat, Nat.mod_eq_of_lt hn, Nat.mod_eq_of_lt hm] at hnat
  · rintro rfl
    rfl

theorem ofNat_eq_one_iff {n : ℕ} (hn : n < 2 ^ 32) : BitVec.ofNat 32 n = 1 ↔ n = 1 :=
  ofNat_eq_iff hn (by decide)

theorem ofNat_eq_initial_iff {n : ℕ} (hn : n < 2 ^ 32) :
    BitVec.ofNat 32 n = initialStrongValue ↔ n = 2 ^ 28 :=
  ofNat_eq_iff hn (by decide)

theorem toInt_ofNat {n : ℕ} (hn : n < 2 ^ 31) : (BitVec.ofNat 32 n).toInt = n := by
  rw [BitVec.toInt_eq_toNat_cond, BitVec.toNat_ofNat, Nat.mod_eq_of_lt (by omega)]
  exact if_pos (by omega)

/-- A count is positive when it is. -/
theorem sle_zero_iff {n : ℕ} (hn : n < 2 ^ 31) :
    BitVec.sle (BitVec.ofNat 32 n) 0 = true ↔ n = 0 := by
  rw [BitVec.sle_eq_not_slt, Bool.not_eq_true', ← Bool.not_eq_true, zero_slt_iff,
    BitVec.toNat_ofNat, Nat.mod_eq_of_lt (by omega)]
  omega

/-- A count is below `INITIAL_STRONG_VALUE` when it is. -/
theorem initial_sle_iff {n : ℕ} (hn : n < 2 ^ 31) :
    BitVec.sle initialStrongValue (BitVec.ofNat 32 n) = true ↔ 2 ^ 28 ≤ n := by
  have hinitial : initialStrongValue.toInt = 2 ^ 28 := rfl
  rw [BitVec.sle_eq_decide, decide_eq_true_eq, toInt_ofNat hn, hinitial]
  omega

/-! ### What holds of an object -/

/-- The number of references that keep an object. -/
def keepers : ObjectLifetime → Bool → ℕ → ℕ → ℕ
  | .strong, true, strong, _ => strong
  | _, _, strong, weak => strong + weak

/-- What holds of an object with `strong` and `weak` references. -/
structure Holds (r : RefBase) (strong weak : ℕ) : Prop where
  mStrong : r.mStrong = if r.acquired then BitVec.ofNat 32 strong else initialStrongValue
  mWeak : r.mWeak = BitVec.ofNat 32 (strong + weak)
  acquired : r.acquired = false → strong = 0
  referenced : r.referenced = false → strong + weak = 0 ∧ r.acquired = false
  deleted : r.deleted =
    if r.referenced = true ∧ keepers r.mFlags r.acquired strong weak = 0 then 1 else 0
  implDeleted : r.implDeleted = if r.referenced = true ∧ strong + weak = 0 then 1 else 0

/-- A function lets a reference go: the lifetime and the past stay. -/
structure Keeps (r r' : RefBase) : Prop where
  mFlags : r'.mFlags = r.mFlags
  acquired : r'.acquired = r.acquired
  referenced : r'.referenced = r.referenced

theorem Keeps.trans {r r' r'' : RefBase} (h : r.Keeps r') (h' : r'.Keeps r'') : r.Keeps r'' :=
  ⟨h'.mFlags.trans h.mFlags, h'.acquired.trans h.acquired, h'.referenced.trans h.referenced⟩

theorem holds_new (mFlags : ObjectLifetime) : (new mFlags).Holds 0 0 := by
  constructor <;> simp [new]

section

variable {r : RefBase} {mFlags : ObjectLifetime} {acquired : Bool} {strong weak : ℕ}

theorem keepers_le : keepers mFlags acquired strong weak ≤ strong + weak := by
  unfold keepers
  split <;> omega

theorem le_keepers : strong ≤ keepers mFlags acquired strong weak := by
  unfold keepers
  split <;> omega

/-- A weak reference more does not change whether something keeps the object. -/
theorem keepers_weak_iff (hpos : 0 < strong + weak) :
    keepers mFlags acquired strong (weak + 1) = 0 ↔ keepers mFlags acquired strong weak = 0 := by
  unfold keepers
  split <;> omega

namespace Holds

/-- The object is there as long as something keeps it. -/
theorem alive (h : r.Holds strong weak) (hpos : 0 < keepers r.mFlags r.acquired strong weak) :
    r.deleted = 0 := by
  rw [h.deleted, if_neg fun hgone => by omega]

/-- The `weakref_impl` is there as long as there is any reference. -/
theorem implAlive (h : r.Holds strong weak) (hpos : 0 < strong + weak) : r.implDeleted = 0 := by
  rw [h.implDeleted, if_neg fun hgone => by omega]

theorem referenced_of_pos (h : r.Holds strong weak) (hpos : 0 < strong + weak) :
    r.referenced = true := by
  cases hno : r.referenced with
  | true => rfl
  | false => exact absurd (h.referenced hno).1 (by omega)

theorem acquired_of_pos (h : r.Holds (strong + 1) weak) : r.acquired = true := by
  cases hno : r.acquired with
  | true => rfl
  | false => exact absurd (h.acquired hno) (Nat.succ_ne_zero _)

/-- The `weakref_impl` outlives the object. -/
theorem impl_of_object (h : r.Holds strong weak) (halive : r.deleted = 0) : r.implDeleted = 0 := by
  have hle := @keepers_le r.mFlags r.acquired strong weak
  rw [h.implDeleted, if_neg fun hgone => ?_]
  rw [h.deleted, if_pos ⟨hgone.1, by omega⟩] at halive
  exact absurd halive (by simp)

end Holds

/-! ### What the functions do -/

/-- A step of a function has no fault. -/
theorem ok_bind {α β : Type} (a : α) (f : α → Except Fault β) : (Except.ok a >>= f) = f a := rfl

theorem object_ok (h : r.deleted = 0) : r.object = .ok () := if_pos h

theorem impl_ok (h : r.implDeleted = 0) : r.impl = .ok () := if_pos h

/-- `incWeak` makes a weak reference. -/
theorem incWeak_spec (h : r.Holds strong weak) (himpl : r.implDeleted = 0) :
    ∃ r', r.incWeak = .ok r' ∧ r'.Holds strong (weak + 1) ∧ r'.mFlags = r.mFlags ∧
      r'.deleted = r.deleted ∧ r'.acquired = r.acquired := by
  refine ⟨{ r with mWeak := BitVec.ofNat 32 (strong + (weak + 1)), referenced := true }, ?_,
    ⟨h.mStrong, rfl, h.acquired, by simp, ?_, ?_⟩, rfl, rfl, rfl⟩
  · rw [incWeak, impl_ok himpl, ok_bind, h.mWeak, inc_ofNat]
    rfl
  · have hdeleted := h.deleted
    cases hreferenced : r.referenced with
    | false =>
        -- the first reference
        obtain ⟨hzero, hacquired⟩ := h.referenced hreferenced
        rw [hreferenced, if_neg (by simp)] at hdeleted
        rw [hdeleted, if_neg]
        have hle : keepers r.mFlags false strong (weak + 1) = strong + (weak + 1) := by
          cases r.mFlags <;> rfl
        simp only [hacquired, hle]
        omega
    | true =>
        have hpos : 0 < strong + weak := by
          rw [h.implDeleted, hreferenced] at himpl
          by_contra hzero
          simp at himpl
          omega
        rw [hdeleted, hreferenced]
        simp only [keepers_weak_iff hpos]
  · rw [himpl, if_neg (by omega)]

/-- `createWeak` makes a weak reference, if the object is there. -/
theorem createWeak_spec (h : r.Holds strong weak) (halive : r.deleted = 0) :
    ∃ r', r.createWeak = .ok r' ∧ r'.Holds strong (weak + 1) ∧ r'.mFlags = r.mFlags ∧
      r'.acquired = r.acquired := by
  obtain ⟨r', heq, hr', hflags, -, hacquired⟩ := incWeak_spec h (h.impl_of_object halive)
  refine ⟨r', ?_, hr', hflags, hacquired⟩
  rw [createWeak, object_ok halive, ok_bind, heq]

/-- A weak reference becomes a strong one. -/
theorem Holds.upgrade (h : r.Holds strong (weak + 1)) (halive : r.deleted = 0) :
    { r with mStrong := BitVec.ofNat 32 (strong + 1), acquired := true }.Holds
      (strong + 1) weak := by
  have hle := @le_keepers r.mFlags true (strong + 1) weak
  refine ⟨rfl, ?_, by simp, fun hno => ?_, ?_, ?_⟩
  · rw [h.mWeak, Nat.add_right_comm, Nat.add_assoc]
  · exact absurd (h.referenced hno).1 (by omega)
  · rw [halive, if_neg fun hgone => ?_]
    exact Nat.not_succ_le_zero _ (Nat.le_trans hle (Nat.le_of_eq hgone.2))
  · rw [h.implAlive (by omega), if_neg fun hgone => by omega]

/-- `incStrong` makes a strong reference, if the object is there. -/
theorem incStrong_spec (h : r.Holds strong weak) (halive : r.deleted = 0) (hfew : strong < 2 ^ 28) :
    ∃ r', r.incStrong = .ok r' ∧ r'.Holds (strong + 1) weak ∧ r'.mFlags = r.mFlags := by
  obtain ⟨r₁, heq, h₁, hflags, hdeleted, hacquired⟩ := incWeak_spec h (h.impl_of_object halive)
  refine ⟨_, ?_, h₁.upgrade (hdeleted.trans halive), hflags⟩
  rw [incStrong, object_ok halive, ok_bind, heq, ok_bind, h₁.mStrong]
  cases hfirst : r₁.acquired with
  | true =>
      have hne : BitVec.ofNat 32 strong ≠ initialStrongValue := by
        rw [Ne, ofNat_eq_initial_iff (by omega)]
        omega
      simp only [if_true, inc_ofNat]
      rw [if_pos hne]
      rfl
  | false =>
      obtain rfl := h₁.acquired hfirst
      have hinc : Native.vmoduleAtomicInc initialStrongValue =
          (initialStrongValue + 1, initialStrongValue) := rfl
      simp only [Bool.false_eq_true, if_false, hinc]
      rw [if_neg (by simp), object_ok, ok_bind]
      · rfl
      · exact hdeleted.trans halive

theorem deleteImpl_eq (himpl : r.implDeleted = 0) :
    r.deleteImpl = .ok { r with implDeleted := 1 } := by
  rw [deleteImpl, impl_ok himpl, ok_bind, himpl]
  rfl

/-- `destructor` deletes the object, and the `weakref_impl` if that is not to outlive it. -/
theorem destructor_eq (halive : r.deleted = 0) (himpl : r.implDeleted = 0) :
    r.destructor = .ok { r with
      deleted := 1
      implDeleted :=
        if r.mStrong = initialStrongValue ∨ r.mFlags ≠ .strong ∧ r.mWeak = 0 then 1 else 0 } := by
  rw [destructor, object_ok halive, ok_bind, impl_ok himpl, ok_bind, halive]
  by_cases hinitial : r.mStrong = initialStrongValue
  · rw [if_pos hinitial, deleteImpl_eq, if_pos (.inl hinitial)]
    exact himpl
  · rw [if_neg hinitial]
    by_cases hweak : r.mFlags ≠ .strong ∧ r.mWeak = 0
    · rw [if_pos hweak, deleteImpl_eq, if_pos (.inr hweak)]
      exact himpl
    · rw [if_neg hweak, if_neg (by tauto), himpl]
      rfl

/-- The last reference is let go of, and with it the object, if that is still there, and its
`weakref_impl`. -/
theorem lastWeak_spec (h : r.Holds 0 1) :
    ∃ r', { r with mWeak := 0 }.lastWeak = .ok r' ∧ r'.Holds 0 0 ∧ r.Keeps r' := by
  have himpl := h.implAlive Nat.one_pos
  have hreferenced := h.referenced_of_pos Nat.one_pos
  have hno {p : Prop} (hfalse : r.referenced = false) : p :=
    absurd (hreferenced.symm.trans hfalse) (by simp)
  by_cases hgone : r.mFlags = .strong ∧ r.acquired = true
  · obtain ⟨hflags, hacquired⟩ := hgone
    have hinitial : r.mStrong ≠ initialStrongValue := by
      rw [h.mStrong, if_pos hacquired, Ne, ofNat_eq_initial_iff (by decide)]
      decide
    refine ⟨{ r with mWeak := 0, implDeleted := 1 }, ?_,
      ⟨h.mStrong, rfl, fun _ => rfl, hno, ?_, ?_⟩, ⟨rfl, rfl, rfl⟩⟩
    · simp only [lastWeak, hflags, if_neg hinitial]
      exact deleteImpl_eq himpl
    · rw [h.deleted]
      simp only [hflags, hacquired, keepers]
    · rw [if_pos ⟨hreferenced, rfl⟩]
  · have hzero : keepers r.mFlags r.acquired 0 0 = 0 := Nat.le_zero.1 keepers_le
    have halive : r.deleted = 0 := by
      refine h.alive ?_
      cases hflags : r.mFlags <;> cases hacquired : r.acquired <;> simp_all [keepers]
    refine ⟨{ r with mWeak := 0, deleted := 1, implDeleted := 1 }, ?_,
      ⟨h.mStrong, rfl, fun _ => rfl, hno, ?_, ?_⟩, ⟨rfl, rfl, rfl⟩⟩
    · have hdestructor := @destructor_eq { r with mWeak := 0 } halive himpl
      cases hflags : r.mFlags with
      | strong =>
          have hacquired : r.acquired ≠ true := fun hacquired => hgone ⟨hflags, hacquired⟩
          have hinitial : r.mStrong = initialStrongValue := by rw [h.mStrong, if_neg hacquired]
          simp only [lastWeak, hflags, if_pos hinitial] at hdestructor ⊢
          rw [hdestructor, if_pos (.inl hinitial)]
      | weak =>
          simp only [lastWeak, hflags] at hdestructor ⊢
          rw [object_ok, ok_bind, hdestructor, if_pos (.inr ⟨by simp, trivial⟩)]
          exact halive
    · rw [if_pos ⟨hreferenced, hzero⟩]
    · rw [if_pos ⟨hreferenced, rfl⟩]

/-- `decWeak` lets a weak reference go. -/
theorem decWeak_spec (h : r.Holds strong (weak + 1)) (hfew : strong + weak < 2 ^ 31) :
    ∃ r', r.decWeak = .ok r' ∧ r'.Holds strong weak ∧ r.Keeps r' := by
  have himpl := h.implAlive (by omega)
  have hmWeak : r.mWeak = BitVec.ofNat 32 (strong + weak + 1) := h.mWeak
  have hreferenced := h.referenced_of_pos (by omega)
  rw [decWeak, impl_ok himpl, ok_bind, hmWeak, dec_ofNat]
  simp only
  rcases Nat.eq_zero_or_pos (strong + weak) with hzero | hpos
  · obtain ⟨rfl, rfl⟩ : strong = 0 ∧ weak = 0 := by omega
    rw [if_neg (by simp)]
    exact lastWeak_spec h
  · rw [if_pos (by rw [Ne, ofNat_eq_one_iff (by omega)]; omega)]
    refine ⟨_, rfl, ⟨h.mStrong, rfl, h.acquired, fun hno => ?_, ?_, ?_⟩, ⟨rfl, rfl, rfl⟩⟩
    · exact absurd (hreferenced.symm.trans hno) (by simp)
    · rw [h.deleted]
      simp only [keepers_weak_iff hpos]
    · rw [himpl, if_neg fun hgone => by omega]

/-- A strong reference becomes a weak one, while something keeps the object. -/
theorem Holds.downgrade (h : r.Holds (strong + 1) weak)
    (hkeep : 0 < keepers r.mFlags r.acquired strong (weak + 1)) :
    { r with mStrong := BitVec.ofNat 32 strong }.Holds strong (weak + 1) := by
  have hacquired := h.acquired_of_pos
  have halive := h.alive (Nat.lt_of_lt_of_le (Nat.succ_pos strong) le_keepers)
  have himpl := h.implAlive (by omega)
  refine ⟨?_, ?_, fun hno => ?_, fun hno => ?_, ?_, ?_⟩
  · simp only [hacquired, if_true]
  · rw [h.mWeak, Nat.add_right_comm, Nat.add_assoc]
  · exact absurd (hacquired.symm.trans hno) (by simp)
  · exact absurd (h.referenced hno).1 (by omega)
  · rw [halive, if_neg fun hgone => Nat.ne_of_gt hkeep hgone.2]
  · rw [himpl, if_neg fun hgone => by omega]

/-- The last strong reference becomes a weak one, and takes the object with it, if nothing else
keeps that. -/
theorem lastStrong_spec (h : r.Holds 1 weak) :
    ∃ r', { r with mStrong := 0 }.lastStrong = .ok r' ∧ r'.Holds 0 (weak + 1) ∧ r.Keeps r' := by
  have hacquired := h.acquired_of_pos
  have halive := h.alive (Nat.lt_of_lt_of_le Nat.one_pos le_keepers)
  have himpl := h.implAlive (by omega)
  rw [lastStrong, object_ok, ok_bind]
  · cases hflags : r.mFlags with
    | strong =>
        have hinitial : (0 : Word) ≠ initialStrongValue := by decide
        have hdestructor := @destructor_eq { r with mStrong := 0 } halive himpl
        rw [if_neg (not_or.2 ⟨hinitial, fun hweak => hweak.1 hflags⟩), ← himpl] at hdestructor
        simp only [hflags] at hdestructor ⊢
        rw [hdestructor]
        refine ⟨_, rfl, ⟨?_, ?_, fun _ => rfl, fun hno => ?_, ?_, ?_⟩, ⟨hflags.symm, rfl, rfl⟩⟩
        · simp only [hacquired, if_true]
          rfl
        · rw [h.mWeak, Nat.zero_add, Nat.add_comm]
        · exact absurd (h.referenced hno).1 (by omega)
        · rw [if_pos ⟨h.referenced_of_pos (by omega), by rw [hacquired]; rfl⟩]
        · rw [himpl, if_neg fun hgone => by omega]
    | weak =>
        have hkeep : 0 < keepers r.mFlags r.acquired 0 (weak + 1) := by
          rw [hflags]
          exact Nat.lt_of_lt_of_eq (Nat.succ_pos weak) (Nat.zero_add _).symm
        have hdown := h.downgrade hkeep
        simp only [hflags] at hdown ⊢
        exact ⟨_, rfl, hdown, ⟨hflags.symm, rfl, rfl⟩⟩
  · exact halive

/-- `decStrong` lets a strong reference go. -/
theorem decStrong_spec (h : r.Holds (strong + 1) weak) (hfew : strong + weak < 2 ^ 31)
    (hstrong : strong < 2 ^ 28) :
    ∃ r', r.decStrong = .ok r' ∧ r'.Holds strong weak ∧ r.Keeps r' := by
  have hacquired := h.acquired_of_pos
  have halive := h.alive (Nat.lt_of_lt_of_le (Nat.succ_pos strong) le_keepers)
  have himpl := h.implAlive (by omega)
  have hmStrong : r.mStrong = BitVec.ofNat 32 (strong + 1) := by rw [h.mStrong, if_pos hacquired]
  rw [decStrong, object_ok halive, ok_bind, impl_ok himpl, ok_bind, hmStrong, dec_ofNat]
  simp only
  rcases Nat.eq_zero_or_pos strong with rfl | hpos
  · obtain ⟨r₁, heq, h₁, hkeeps⟩ := lastStrong_spec h
    obtain ⟨r', heq', h', hkeeps'⟩ := decWeak_spec h₁ hfew
    refine ⟨r', ?_, h', hkeeps.trans hkeeps'⟩
    rw [if_pos (by rfl), show BitVec.ofNat 32 0 = 0 from rfl, heq, ok_bind, heq']
  · have hkeep : 0 < keepers r.mFlags r.acquired strong (weak + 1) :=
      Nat.lt_of_lt_of_le hpos le_keepers
    rw [if_neg (by rw [ofNat_eq_one_iff (by omega)]; omega)]
    obtain ⟨r', heq', h', hkeeps'⟩ := decWeak_spec (h.downgrade hkeep) hfew
    exact ⟨r', heq', h', hkeeps'.mFlags, hkeeps'.acquired, hkeeps'.referenced⟩

theorem runLoop_of_true {l : RetryLoop} {m : Word} (h : l.test m = true) :
    runLoop l m = (m, l.next m) := if_pos h

theorem runLoop_of_false {l : RetryLoop} {m : Word} (h : l.test m = false) :
    runLoop l m = (m, m) := by
  unfold runLoop
  rw [h]
  rfl

/-- `attemptIncStrong` has counted the reference, and `INITIAL_STRONG_VALUE` may be there. -/
theorem attempted_spec (h : r.Holds strong (weak + 1)) (halive : r.deleted = 0) {m : Word}
    (hm : m = BitVec.ofNat 32 (strong + 1) ∧ strong + 1 < 2 ^ 28 ∨
      m = initialStrongValue + 1 ∧ strong = 0) :
    ∃ r', { r with mStrong := m }.attempted = .ok (r', true) ∧ r'.Holds (strong + 1) weak ∧
      r'.mFlags = r.mFlags := by
  refine ⟨_, ?_, h.upgrade halive, rfl⟩
  have hfix : (runLoop .fixUp m).2 = BitVec.ofNat 32 (strong + 1) := by
    rcases hm with ⟨rfl, hfew⟩ | ⟨rfl, rfl⟩
    · rw [runLoop_of_false]
      rw [← Bool.not_eq_true, RetryLoop.test, initial_sle_iff (by omega)]
      omega
    · rfl
  rw [← hfix]
  rfl

/-- `attemptIncStrong` gives up, and lets its weak reference go. -/
theorem giveUp_spec (h : r.Holds strong (weak + 1)) (hfew : strong + weak < 2 ^ 31) :
    ∃ r', r.giveUp = .ok (r', false) ∧ r'.Holds strong weak ∧ r.Keeps r' := by
  obtain ⟨r', heq, h', hkeeps⟩ := decWeak_spec h hfew
  refine ⟨r', ?_, h', hkeeps⟩
  rw [giveUp, heq, ok_bind]
  rfl

/-- The object does not agree to be revived. -/
theorem attemptHarder_refused (hflags : r.mFlags = .weak) (halive : r.deleted = 0)
    (curCount : Word) : r.attemptHarder curCount false = r.giveUp := by
  simp only [attemptHarder, hflags, object_ok halive]
  rw [ok_bind, if_pos (by decide)]

/-- There never was a strong reference. -/
theorem attemptHarder_fresh (h : r.Holds 0 (weak + 1)) (hfew : weak < 2 ^ 31)
    (hacquired : r.acquired = false) (agrees : Bool) :
    ∃ r' b, r.attemptHarder initialStrongValue agrees = .ok (r', b) ∧
      r'.Holds b.toNat weak ∧ r'.mFlags = r.mFlags ∧ (b = false → r'.acquired = r.acquired) ∧
      (b = true ↔ (r.mFlags = .weak → agrees = true)) := by
  have hinitial : r.mStrong = initialStrongValue := by simp [h.mStrong, hacquired]
  have halive : r.deleted = 0 := h.alive (by
    rw [hacquired]
    cases r.mFlags <;> exact Nat.lt_of_lt_of_eq (Nat.succ_pos weak) (Nat.zero_add _).symm)
  obtain ⟨r', heq, h', hflags'⟩ :=
    attempted_spec h halive (m := initialStrongValue + 1) (.inr ⟨rfl, rfl⟩)
  cases hflags : r.mFlags with
  | strong =>
      refine ⟨r', true, ?_, h', hflags'.trans hflags, by simp, by simp⟩
      have hloop : runLoop .promote initialStrongValue =
          (initialStrongValue, initialStrongValue + 1) := rfl
      simp only [attemptHarder, hflags, hinitial, hloop] at heq ⊢
      rw [if_neg (by decide), if_neg (by decide), unneeded, if_neg (by decide)]
      exact heq
  | weak =>
      cases agrees with
      | true =>
          refine ⟨r', true, ?_, h', hflags'.trans hflags, by simp, by simp⟩
          have hinc : Native.vmoduleAtomicInc initialStrongValue =
              (initialStrongValue + 1, initialStrongValue) := rfl
          simp only [attemptHarder, hflags, hinitial, hinc, object_ok halive] at heq ⊢
          rw [ok_bind, if_neg (by decide), unneeded, if_neg (by decide)]
          exact heq
      | false =>
          obtain ⟨r₂, heq₂, h₂, hkeeps⟩ := giveUp_spec h (by omega)
          exact ⟨r₂, false, (attemptHarder_refused hflags halive _).trans heq₂, h₂,
            hkeeps.mFlags.trans hflags, fun _ => hkeeps.acquired, by simp⟩

/-- All strong references have been let go of. -/
theorem attemptHarder_gone (h : r.Holds 0 (weak + 1)) (hfew : weak < 2 ^ 31)
    (hacquired : r.acquired = true) (agrees : Bool) :
    ∃ r' b, r.attemptHarder 0 agrees = .ok (r', b) ∧
      r'.Holds b.toNat weak ∧ r'.mFlags = r.mFlags ∧ (b = false → r'.acquired = r.acquired) ∧
      (b = true ↔ r.mFlags = .weak ∧ agrees = true) := by
  obtain ⟨r₂, heq₂, h₂, hkeeps⟩ := giveUp_spec h (by omega)
  cases hflags : r.mFlags with
  | strong =>
      refine ⟨r₂, false, ?_, h₂, hkeeps.mFlags.trans hflags, fun _ => hkeeps.acquired, by simp⟩
      simp only [attemptHarder, hflags]
      rw [if_pos (by decide), heq₂]
  | weak =>
      have halive : r.deleted = 0 := h.alive (by
        rw [hflags]
        exact Nat.lt_of_lt_of_eq (Nat.succ_pos weak) (Nat.zero_add _).symm)
      cases agrees with
      | true =>
          obtain ⟨r', heq, h', hflags'⟩ := attempted_spec h halive (.inl ⟨rfl, by decide⟩)
          refine ⟨r', true, ?_, h', hflags'.trans hflags, by simp, by simp⟩
          have hmStrong : r.mStrong = BitVec.ofNat 32 0 := by simp [h.mStrong, hacquired]
          simp only [attemptHarder, hflags, hmStrong, inc_ofNat, object_ok halive] at heq ⊢
          rw [ok_bind, if_neg (by decide), unneeded, if_neg (by decide)]
          exact heq
      | false =>
          exact ⟨r₂, false, (attemptHarder_refused hflags halive _).trans heq₂, h₂,
            hkeeps.mFlags.trans hflags, fun _ => hkeeps.acquired, by simp⟩

/-- There are strong references. -/
theorem attempt_counted (hpos : 0 < strong) (hfew : strong < 2 ^ 28) :
    runLoop .attemptIncStrong (BitVec.ofNat 32 strong) =
        (BitVec.ofNat 32 strong, BitVec.ofNat 32 (strong + 1)) ∧
      (BitVec.sle (BitVec.ofNat 32 strong) 0 ||
        BitVec.ofNat 32 strong == initialStrongValue) = false := by
  have hzero : BitVec.sle (BitVec.ofNat 32 strong) 0 = false := by
    rw [← Bool.not_eq_true, sle_zero_iff (by omega)]
    omega
  have hinitial : (BitVec.ofNat 32 strong == initialStrongValue) = false := by
    rw [beq_eq_false_iff_ne, Ne, ofNat_eq_initial_iff (by omega)]
    omega
  refine ⟨?_, by rw [hzero, hinitial]; rfl⟩
  rw [runLoop_of_true, BitVec.ofNat_add]
  · rfl
  · rw [BitVec.sle_eq_not_slt, Bool.not_eq_false'] at hzero
    rw [RetryLoop.test, hzero, bne, hinitial]
    rfl

/-- Without a strong reference, `attemptIncStrong` is its harder part. -/
theorem attemptIncStrong_of_harder {r₁ r' : RefBase} {curCount : Word} {agrees b : Bool}
    (heq : r.incWeak = .ok r₁)
    (hloop : runLoop .attemptIncStrong r₁.mStrong = (curCount, r₁.mStrong))
    (htest : (BitVec.sle curCount 0 || curCount == initialStrongValue) = true)
    (hharder : r₁.attemptHarder curCount agrees = .ok (r', b)) :
    r.attemptIncStrong agrees = .ok (r', b) := by
  rw [attemptIncStrong, heq, ok_bind]
  simp only [hloop]
  rw [if_pos htest]
  exact hharder

/-- `attemptIncStrong` makes a strong reference unless the object has been deleted, or does not
agree to be revived. -/
theorem attemptIncStrong_spec (h : r.Holds strong weak) (hpos : 0 < weak)
    (hfew : strong + weak < 2 ^ 31) (hstrong : strong + 1 < 2 ^ 28) (agrees : Bool) :
    ∃ r' b, r.attemptIncStrong agrees = .ok (r', b) ∧
      r'.Holds (strong + b.toNat) weak ∧ r'.mFlags = r.mFlags ∧
      (b = false → r'.acquired = r.acquired) ∧
      (b = true ↔ r.deleted = 0 ∧ (r.mFlags = .weak → strong = 0 → agrees = true)) := by
  have hreferenced := h.referenced_of_pos (by omega)
  obtain ⟨r₁, heq, h₁, hflags, hdeleted, hacq⟩ := incWeak_spec h (h.implAlive (by omega))
  rcases Nat.eq_zero_or_pos strong with rfl | hpos'
  · rcases Bool.eq_false_or_eq_true r₁.acquired with hacquired | hacquired
    · have hloop : runLoop .attemptIncStrong r₁.mStrong = (0, r₁.mStrong) := by
        rw [h₁.mStrong, if_pos hacquired]
        rfl
      obtain ⟨r', b, heq', h', hflags', hkept, hb⟩ :=
        attemptHarder_gone h₁ (by omega) hacquired agrees
      refine ⟨r', b, attemptIncStrong_of_harder heq hloop (by decide) heq', by rwa [Nat.zero_add],
        hflags'.trans hflags, fun hno => (hkept hno).trans hacq, ?_⟩
      rw [hb, hflags, h.deleted, ← hacq, hacquired, hreferenced]
      cases hf : r.mFlags <;> simp [keepers]
      omega
    · have hloop : runLoop .attemptIncStrong r₁.mStrong = (initialStrongValue, r₁.mStrong) := by
        rw [h₁.mStrong, if_neg (by simp [hacquired])]
        rfl
      obtain ⟨r', b, heq', h', hflags', hkept, hb⟩ :=
        attemptHarder_fresh h₁ (by omega) hacquired agrees
      refine ⟨r', b, attemptIncStrong_of_harder heq hloop (by decide) heq', by rwa [Nat.zero_add],
        hflags'.trans hflags, fun hno => (hkept hno).trans hacq, ?_⟩
      have halive : r.deleted = 0 := by
        rw [h.deleted, ← hacq, hacquired, if_neg fun hgone => ?_]
        have hzero := hgone.2
        cases hf : r.mFlags <;> simp [hf, keepers] at hzero <;> omega
      rw [hb, hflags]
      simp [halive]
  · have hacquired : r₁.acquired = true := by
      cases hno : r₁.acquired with
      | true => rfl
      | false => exact absurd (h₁.acquired hno) (by omega)
    have hmStrong : r₁.mStrong = BitVec.ofNat 32 strong := by rw [h₁.mStrong, if_pos hacquired]
    obtain ⟨hloop, htest⟩ := attempt_counted hpos' (by omega)
    have halive : r.deleted = 0 := h.alive (Nat.lt_of_lt_of_le hpos' le_keepers)
    obtain ⟨r', heq', h', hflags'⟩ :=
      attempted_spec h₁ (hdeleted.trans halive) (.inl ⟨rfl, hstrong⟩)
    refine ⟨r', true, ?_, h', hflags'.trans hflags, by simp, by simp [halive]; omega⟩
    rw [attemptIncStrong, heq, ok_bind]
    simp only [hmStrong, hloop, htest]
    exact heq'

/-- With `2 ^ 28` strong references, the last loop of `attemptIncStrong` takes the count for one
with `INITIAL_STRONG_VALUE` in it. -/
theorem attemptIncStrong_full (h : r.Holds (2 ^ 28 - 1) weak) (agrees : Bool) :
    ∃ r', r.attemptIncStrong agrees = .ok (r', true) ∧ r'.mStrong = 0 := by
  obtain ⟨r₁, heq, h₁, -⟩ := incWeak_spec h (h.implAlive (by omega))
  have hacquired : r₁.acquired = true := by
    cases hno : r₁.acquired with
    | true => rfl
    | false => exact absurd (h₁.acquired hno) (by decide)
  have hmStrong : r₁.mStrong = BitVec.ofNat 32 (2 ^ 28 - 1) := by rw [h₁.mStrong, if_pos hacquired]
  obtain ⟨hloop, htest⟩ := @attempt_counted (2 ^ 28 - 1) (by decide) (by decide)
  have hfix : runLoop .fixUp (BitVec.ofNat 32 (2 ^ 28 - 1 + 1)) = (initialStrongValue, 0) := by
    decide
  refine ⟨{ r₁ with mStrong := 0, acquired := true }, ?_, rfl⟩
  rw [attemptIncStrong, heq, ok_bind]
  simp only [hmStrong, hloop, htest]
  rw [if_neg (by decide), attempted]
  simp only [hfix]
  rfl

end

end RefBase

end VModule

/-
**The atomic primitives of `include/sutils/Atomic.h`, twice.**

The header has two implementations of its primitives: one on the atomic operations of C11 and C++11,
and one, compiled under `_M_CEE`, on a mutex.  Each primitive is a function of the `int32_t` it
finds at its address, to the one it leaves there and the `int` it returns.  Arithmetic wraps around.

The two leave the same memory.  They do not return the same: the second `vmodule_atomic_add` returns
the new value, and the second `vmodule_atomic_cmpxchg` returns one where the first returns zero.
The loops of `sutils/RefBase.cpp` take zero as success, so that with the second implementation they
do not stop where they have succeeded.

Main definitions:

* `VModule.Native.vmoduleAtomicInc` and its siblings, `VModule.Cee.vmoduleAtomicInc` and its
  siblings — the primitives;
* `VModule.Atomics`, `VModule.AtomicCall`, `VModule.runAtomics` — an implementation, and sequences
  of calls;
* `VModule.RetryLoop`, `VModule.Retry`, `VModule.RetryLoop.Ends` — the loops of `RefBase`, how they
  run alone, and what they leave.

Main results:

* `VModule.runAtomics_memory` — the two implementations leave the same memory;
* `VModule.cee_attemptIncWeak` — where the second implementation takes `attemptIncWeak`;
* `VModule.atomics_agree_iff` — **when the two agree**.
-/

import Mathlib.Algebra.Group.Int.Defs
import Mathlib.Algebra.Group.Nat.Defs
import Mathlib.Tactic.Common

set_option relaxedAutoImplicit false
set_option autoImplicit false

namespace VModule

/-- An `int32_t`. -/
abbrev Word := BitVec 32

/-! ### The implementation on C11 atomics -/

namespace Native

/-- `atomic_fetch_add_explicit` with 1. -/
def vmoduleAtomicInc (m : Word) : Word × Word := (m + 1, m)

def vmoduleAtomicDec (m : Word) : Word × Word := (m - 1, m)

def vmoduleAtomicAdd (value m : Word) : Word × Word := (m + value, m)

def vmoduleAtomicOr (value m : Word) : Word × Word := (m ||| value, m)

/-- `atomic_compare_exchange_strong_explicit`. -/
def compareExchangeStrong (expected desired m : Word) : Word × Bool :=
  if m = expected then (desired, true) else (m, false)

/-- `vmodule_atomic_release_cas`, also called `vmodule_atomic_cmpxchg`: the negated result. -/
def vmoduleAtomicReleaseCas (oldvalue newvalue m : Word) : Word × Word :=
  match compareExchangeStrong oldvalue newvalue m with
  | (m, true) => (m, 0)
  | (m, false) => (m, 1)

end Native

/-! ### The implementation on a mutex -/

namespace Cee

def vmoduleAtomicCmpxchg (oldvalue newvalue m : Word) : Word × Word :=
  if oldvalue = m then (newvalue, 1) else (m, 0)

/-- The value returned is read after the addition. -/
def vmoduleAtomicAdd (value m : Word) : Word × Word := (m + value, m + value)

def vmoduleAtomicOr (value m : Word) : Word × Word :=
  let oldval := m
  (oldval ||| value, oldval)

def vmoduleAtomicInc (m : Word) : Word × Word :=
  let oldval := m
  (oldval + 1, oldval)

def vmoduleAtomicDec (m : Word) : Word × Word :=
  let oldval := m
  (oldval - 1, oldval)

end Cee

/-! ### Sequences of calls -/

/-- An implementation of the primitives. -/
structure Atomics where
  inc : Word → Word × Word
  dec : Word → Word × Word
  add : Word → Word → Word × Word
  or : Word → Word → Word × Word
  cmpxchg : Word → Word → Word → Word × Word

def native : Atomics where
  inc := Native.vmoduleAtomicInc
  dec := Native.vmoduleAtomicDec
  add := Native.vmoduleAtomicAdd
  or := Native.vmoduleAtomicOr
  cmpxchg := Native.vmoduleAtomicReleaseCas

def cee : Atomics where
  inc := Cee.vmoduleAtomicInc
  dec := Cee.vmoduleAtomicDec
  add := Cee.vmoduleAtomicAdd
  or := Cee.vmoduleAtomicOr
  cmpxchg := Cee.vmoduleAtomicCmpxchg

inductive AtomicCall where
  | inc
  | dec
  | add (value : Word)
  | or (value : Word)
  | cmpxchg (oldvalue newvalue : Word)

namespace AtomicCall

def exec (A : Atomics) (m : Word) : AtomicCall → Word × Word
  | inc => A.inc m
  | dec => A.dec m
  | add value => A.add value m
  | or value => A.or value m
  | cmpxchg oldvalue newvalue => A.cmpxchg oldvalue newvalue m

/-- A call that returns the same in both implementations. -/
def Agrees : AtomicCall → Prop
  | add value => value = 0
  | cmpxchg _ _ => False
  | _ => True

/-- Both implementations store the same. -/
theorem exec_memory (c : AtomicCall) (m : Word) : (c.exec cee m).1 = (c.exec native m).1 := by
  cases c with
  | cmpxchg oldvalue newvalue =>
      by_cases h : m = oldvalue
      · simp [exec, cee, native, Cee.vmoduleAtomicCmpxchg, Native.vmoduleAtomicReleaseCas,
          Native.compareExchangeStrong, h]
      · simp [exec, cee, native, Cee.vmoduleAtomicCmpxchg, Native.vmoduleAtomicReleaseCas,
          Native.compareExchangeStrong, h, Ne.symm h]
  | _ => rfl

/-- Whether a call returns the same does not depend on the memory. -/
theorem exec_returned_iff (c : AtomicCall) (m : Word) :
    (c.exec cee m).2 = (c.exec native m).2 ↔ c.Agrees := by
  cases c with
  | add value => simp [exec, cee, native, Cee.vmoduleAtomicAdd, Native.vmoduleAtomicAdd, Agrees]
  | cmpxchg oldvalue newvalue =>
      by_cases h : m = oldvalue
      · simp [exec, cee, native, Cee.vmoduleAtomicCmpxchg, Native.vmoduleAtomicReleaseCas,
          Native.compareExchangeStrong, h, Agrees]
      · simp [exec, cee, native, Cee.vmoduleAtomicCmpxchg, Native.vmoduleAtomicReleaseCas,
          Native.compareExchangeStrong, h, Ne.symm h, Agrees]
  | _ => exact iff_of_true rfl trivial

end AtomicCall

/-- A sequence of calls on one address, with what they return. -/
def runAtomics (A : Atomics) (m : Word) : List AtomicCall → Word × List Word
  | [] => (m, [])
  | c :: cs =>
      let (m, r) := c.exec A m
      let (m, rs) := runAtomics A m cs
      (m, r :: rs)

theorem runAtomics_memory (cs : List AtomicCall) (m : Word) :
    (runAtomics cee m cs).1 = (runAtomics native m cs).1 := by
  induction cs generalizing m with
  | nil => rfl
  | cons c cs ih =>
      simp only [runAtomics]
      rw [c.exec_memory, ih]

theorem runAtomics_returned_iff (cs : List AtomicCall) (m : Word) :
    (runAtomics cee m cs).2 = (runAtomics native m cs).2 ↔ ∀ c ∈ cs, c.Agrees := by
  induction cs generalizing m with
  | nil => simp [runAtomics]
  | cons c cs ih =>
      simp only [runAtomics, List.cons.injEq, List.forall_mem_cons]
      rw [c.exec_memory, ih, c.exec_returned_iff]

/-! ### The loops of `RefBase` -/

/-- `INITIAL_STRONG_VALUE`. -/
def initialStrongValue : Word := 1 <<< 28

/-- The loops around `vmodule_atomic_cmpxchg`. -/
inductive RetryLoop where
  /-- The one of `attemptIncWeak`. -/
  | attemptIncWeak
  /-- The first one of `attemptIncStrong`. -/
  | attemptIncStrong
  /-- The one for an object that never had a strong reference. -/
  | promote
  /-- The one that takes `INITIAL_STRONG_VALUE` off the count. -/
  | fixUp

namespace RetryLoop

/-- The test of the `while`. -/
def test : RetryLoop → Word → Bool
  | attemptIncWeak, curCount => BitVec.slt 0 curCount
  | attemptIncStrong, curCount => BitVec.slt 0 curCount && curCount != initialStrongValue
  | promote, curCount => BitVec.slt 0 curCount
  | fixUp, curCount => BitVec.sle initialStrongValue curCount

/-- The value it stores. -/
def next : RetryLoop → Word → Word
  | fixUp, curCount => curCount - initialStrongValue
  | _, curCount => curCount + 1

/-- What the function goes on with: nobody reads the variable of `fixUp` again. -/
def leaves : RetryLoop → Word × Word → Option Word × Word
  | fixUp, r => (none, r.2)
  | _, r => (some r.1, r.2)

/-- The counts from which a loop ends the same in both implementations: those that fail its test,
and for `fixUp` also those that fail it once `INITIAL_STRONG_VALUE` is off. -/
def EndsAlike : RetryLoop → Word → Prop
  | fixUp, m => BitVec.slt m (1 <<< 29) = true
  | l, m => l.test m = false

end RetryLoop

/-- `Retry A l curCount m r`: the loop, with `curCount` in its variable and `m` at the address, runs
until it stops with the variable and the memory of `r`, while nobody else writes there. -/
inductive Retry (A : Atomics) (l : RetryLoop) : Word → Word → Word × Word → Prop
  | stop {curCount m : Word} : l.test curCount = false → Retry A l curCount m (curCount, m)
  | stored {curCount m : Word} : l.test curCount = true →
      (A.cmpxchg curCount (l.next curCount) m).2 = 0 →
      Retry A l curCount m (curCount, (A.cmpxchg curCount (l.next curCount) m).1)
  | again {curCount m : Word} {r : Word × Word} : l.test curCount = true →
      (A.cmpxchg curCount (l.next curCount) m).2 ≠ 0 →
      Retry A l (A.cmpxchg curCount (l.next curCount) m).1
        (A.cmpxchg curCount (l.next curCount) m).1 r →
      Retry A l curCount m r

namespace Retry

variable {l : RetryLoop} {m : Word} {r : Word × Word}

@[simp] theorem cmpxchg_native (n : Word) : native.cmpxchg m n m = (n, 0) := by
  simp [native, Native.vmoduleAtomicReleaseCas, Native.compareExchangeStrong]

@[simp] theorem cmpxchg_cee (n : Word) : cee.cmpxchg m n m = (n, 1) := by
  simp [cee, Cee.vmoduleAtomicCmpxchg]

/-- A loop whose test fails at once does nothing. -/
theorem stop_iff {A : Atomics} (hf : l.test m = false) : Retry A l m m r ↔ r = (m, m) := by
  constructor
  · intro h
    cases h with
    | stop _ => rfl
    | stored ht _ => exact absurd (hf.symm.trans ht) (by simp)
    | again ht _ _ => exact absurd (hf.symm.trans ht) (by simp)
  · rintro rfl
    exact .stop hf

/-- **The first implementation stores once and stops.** -/
theorem native_iff (ht : l.test m = true) : Retry native l m m r ↔ r = (m, l.next m) := by
  constructor
  · intro h
    cases h with
    | stop hf =>
        rw [ht] at hf
        exact absurd hf (by simp)
    | stored _ _ => rw [cmpxchg_native]
    | again _ hne _ =>
        rw [cmpxchg_native] at hne
        exact absurd rfl hne
  · rintro rfl
    have h := Retry.stored (A := native) (l := l) (m := m) ht (by rw [cmpxchg_native])
    rwa [cmpxchg_native] at h

/-- **The second implementation stores and goes on.** -/
theorem cee_iff (ht : l.test m = true) :
    Retry cee l m m r ↔ Retry cee l (l.next m) (l.next m) r := by
  constructor
  · intro h
    cases h with
    | stop hf => exact absurd (hf.symm.trans ht) (by simp)
    | stored _ hz =>
        rw [cmpxchg_cee] at hz
        exact absurd hz (by simp)
    | again _ _ h => rwa [cmpxchg_cee] at h
  · intro h
    refine .again ht ?_ ?_
    · rw [cmpxchg_cee]
      simp
    · rwa [cmpxchg_cee]

/-- **The second implementation does not stop before the test fails**, on what it has stored. -/
theorem cee_stops {curCount : Word} (h : Retry cee l curCount m r) (hm : curCount = m) :
    l.test r.1 = false ∧ r.2 = r.1 := by
  induction h with
  | stop hf => exact ⟨hf, hm.symm⟩
  | stored _ hz =>
      subst hm
      rw [cmpxchg_cee] at hz
      exact absurd hz (by simp)
  | again _ _ _ ih => exact ih rfl

/-- The second implementation counts on until the test fails. -/
theorem cee_counts (hl : ∀ n, l.next n = n + 1) (k : ℕ) (m : Word)
    (ht : ∀ j < k, l.test (m + BitVec.ofNat 32 j) = true)
    (hf : l.test (m + BitVec.ofNat 32 k) = false) :
    Retry cee l m m (m + BitVec.ofNat 32 k, m + BitVec.ofNat 32 k) := by
  induction k generalizing m with
  | zero =>
      have h0 : m + BitVec.ofNat 32 0 = m := by simp
      rw [h0] at hf ⊢
      exact .stop hf
  | succ k ih =>
      have hshift : ∀ j : ℕ, m + BitVec.ofNat 32 (j + 1) = m + 1 + BitVec.ofNat 32 j := by
        intro j
        rw [BitVec.add_assoc, Nat.add_comm j 1, BitVec.ofNat_add]
        rfl
      have ht₀ : l.test m = true := by simpa using ht 0 (Nat.succ_pos k)
      rw [cee_iff ht₀, hl, hshift]
      refine ih (m + 1) (fun j hj => ?_) ?_
      · rw [← hshift]
        exact ht (j + 1) (by omega)
      · rw [← hshift]
        exact hf

end Retry

theorem zero_slt_iff (m : Word) : BitVec.slt 0 m = true ↔ 0 < m.toNat ∧ m.toNat < 2 ^ 31 := by
  have hm := m.isLt
  rw [BitVec.slt_eq_decide, decide_eq_true_eq, BitVec.toInt_eq_toNat_cond m]
  simp only [BitVec.ofNat_eq_ofNat, BitVec.toInt_zero]
  split <;> omega

/-- **Where the second implementation takes `attemptIncWeak`**: a positive weak count is counted up
until it overflows, and then the reference is refused. -/
theorem cee_attemptIncWeak {m : Word} (hm : BitVec.slt 0 m = true) :
    Retry cee .attemptIncWeak m m (BitVec.intMin 32, BitVec.intMin 32) := by
  have hpos := (zero_slt_iff m).1 hm
  have hadd : ∀ j ≤ 2 ^ 31 - m.toNat, (m + BitVec.ofNat 32 j).toNat = m.toNat + j := by
    intro j hj
    rw [BitVec.toNat_add, BitVec.toNat_ofNat, Nat.mod_eq_of_lt (a := j) (by omega)]
    exact Nat.mod_eq_of_lt (by omega)
  have hend : m + BitVec.ofNat 32 (2 ^ 31 - m.toNat) = BitVec.intMin 32 := by
    apply BitVec.eq_of_toNat_eq
    rw [hadd _ (by omega), BitVec.toNat_intMin]
    omega
  have htest : ∀ j < 2 ^ 31 - m.toNat,
      RetryLoop.attemptIncWeak.test (m + BitVec.ofNat 32 j) = true := by
    intro j hj
    apply (zero_slt_iff _).2
    rw [hadd j (by omega)]
    omega
  have h := Retry.cee_counts (l := .attemptIncWeak) (fun _ => rfl) (2 ^ 31 - m.toNat) m htest
    (by rw [hend]; decide)
  rwa [hend] at h

/-! ### What the loops leave -/

namespace RetryLoop

/-- The loop, running alone from the value at the address, leaves `o`. -/
def Ends (A : Atomics) (l : RetryLoop) (m : Word) (o : Option Word × Word) : Prop :=
  ∃ r, Retry A l m m r ∧ l.leaves r = o

variable {l : RetryLoop} {m : Word} {o : Option Word × Word}

theorem ends_stop {A : Atomics} (hf : l.test m = false) :
    Ends A l m o ↔ l.leaves (m, m) = o := by
  simp [Ends, Retry.stop_iff hf]

theorem ends_native (ht : l.test m = true) : Ends native l m o ↔ l.leaves (m, l.next m) = o := by
  simp [Ends, Retry.native_iff ht]

theorem ends_cee (ht : l.test m = true) : Ends cee l m o ↔ Ends cee l (l.next m) o := by
  simp [Ends, Retry.cee_iff ht]

/-- What the second implementation leaves fails the test. -/
theorem Ends.cee_stops (h : Ends cee l m o) : ∃ c, l.test c = false ∧ l.leaves (c, c) = o := by
  obtain ⟨⟨c, n⟩, hr, rfl⟩ := h
  obtain ⟨hf, hn⟩ := hr.cee_stops rfl
  obtain rfl : n = c := hn
  exact ⟨n, hf, rfl⟩

/-- The test of `fixUp`. -/
theorem fixUp_test_iff (m : Word) : fixUp.test m = true ↔ 2 ^ 28 ≤ m.toInt := by
  rw [test, BitVec.sle_eq_decide, decide_eq_true_eq]
  rfl

/-- The condition for `fixUp`. -/
theorem fixUp_endsAlike_iff (m : Word) : fixUp.EndsAlike m ↔ m.toInt < 2 ^ 29 := by
  rw [EndsAlike, BitVec.slt_eq_decide, decide_eq_true_eq]
  rfl

/-- Once `INITIAL_STRONG_VALUE` is off, the test of `fixUp` fails under the condition. -/
theorem fixUp_next_iff (ht : fixUp.test m = true) :
    fixUp.test (fixUp.next m) = false ↔ fixUp.EndsAlike m := by
  rw [fixUp_test_iff] at ht
  have hlt := BitVec.toInt_lt (x := m)
  have hnext : (m - initialStrongValue).toInt = m.toInt - 2 ^ 28 := by
    rw [BitVec.toInt_sub]
    refine Int.bmod_eq_of_le_mul_two ?_ ?_
    · change _ ≤ (m.toInt - 2 ^ 28) * 2
      omega
    · change (m.toInt - 2 ^ 28) * 2 < _
      omega
  rw [← Bool.not_eq_true, fixUp_test_iff, fixUp_endsAlike_iff, next, hnext]
  omega

/-- **From which counts a loop ends the same** in both implementations. -/
theorem ends_iff : (∀ o, Ends cee l m o ↔ Ends native l m o) ↔ l.EndsAlike m := by
  cases ht : l.test m with
  | false =>
      refine iff_of_true (fun o => (ends_stop ht).trans (ends_stop ht).symm) ?_
      cases l with
      | fixUp =>
          rw [← Bool.not_eq_true, fixUp_test_iff] at ht
          rw [fixUp_endsAlike_iff]
          omega
      | _ => exact ht
  | true =>
      -- the second implementation would have to leave what the first one has stored
      have hstops : (∀ o, Ends cee l m o ↔ Ends native l m o) →
          ∃ c, l.test c = false ∧ l.leaves (c, c) = l.leaves (m, l.next m) :=
        fun h => ((h _).2 ((ends_native ht).2 rfl)).cee_stops
      cases l with
      | fixUp =>
          rw [← fixUp_next_iff ht]
          constructor
          · intro h
            obtain ⟨c, hf, hc⟩ := hstops h
            obtain rfl : c = _ := congrArg Prod.snd hc
            exact hf
          · intro hf o
            rw [ends_cee ht, ends_stop hf, ends_native ht]
            rfl
      | _ =>
          refine iff_of_false (fun h => ?_) fun hf => absurd (ht.symm.trans hf) (by simp)
          obtain ⟨c, hf, hc⟩ := hstops h
          obtain rfl : c = m := Option.some_inj.1 (congrArg Prod.fst hc)
          exact absurd (hf.symm.trans ht) (by simp)

end RetryLoop

/-- **When the two implementations agree.**  They always leave the same memory.  A sequence of calls
returns the same in both exactly if it makes no `vmodule_atomic_cmpxchg` and adds nothing but zero.
A loop of `RefBase` that runs alone stores once with the first implementation; with the second it
leaves the same exactly if its test fails at once or, for the one that takes `INITIAL_STRONG_VALUE`
off and whose variable is not read again, if the count is below `2 ^ 29`. -/
theorem atomics_agree_iff (cs : List AtomicCall) (l : RetryLoop) (m : Word) :
    (runAtomics cee m cs).1 = (runAtomics native m cs).1 ∧
    (runAtomics cee m cs = runAtomics native m cs ↔ ∀ c ∈ cs, c.Agrees) ∧
    (∃ r, Retry native l m m r) ∧
    ((∀ o, l.Ends cee m o ↔ l.Ends native m o) ↔ l.EndsAlike m) := by
  refine ⟨runAtomics_memory cs m, ?_, ?_, RetryLoop.ends_iff⟩
  · rw [← runAtomics_returned_iff cs m]
    constructor
    · intro h
      rw [h]
    · intro h
      exact Prod.ext (runAtomics_memory cs m) h
  · cases ht : l.test m with
    | false => exact ⟨_, .stop ht⟩
    | true => exact ⟨_, (Retry.native_iff ht).2 rfl⟩

/-- **The two implementations differ**: `vmodule_atomic_cmpxchg(0, 1, addr)` where there is 0 stores
1 in both, and returns 0 in one and 1 in the other. -/
theorem atomics_differ :
    runAtomics native 0 [.cmpxchg 0 1] = (1, [0]) ∧ runAtomics cee 0 [.cmpxchg 0 1] = (1, [1]) ∧
      runAtomics native 0 [.add 1] = (1, [0]) ∧ runAtomics cee 0 [.add 1] = (1, [1]) := by
  decide

end VModule

/-
**Errors in `CSocket::Readn` and `CSocket::Writen` of `socket/Socket.cpp`.**

The answers of the kernel to one call of either function are a list here, with errors at any place,
as a descriptor that does not block gives them.  Both functions return -1 at an error, whatever
they have moved before it.

The two loops are one: only their answers and what they return at the end differ.

Main definitions:

* `VModule.Outcome` — an answer, as the loop sees it;
* `VModule.Mover` — a call that moves bytes, with the laws of one round;
* `VModule.Mover.run`, `VModule.Mover.Possible` — the call for a list of answers, and the lists that
  the kernel can give;
* `VModule.Spoils` — an error comes after some bytes and before the last;
* `VModule.CSocket.readn`, `VModule.CSocket.writen` — the functions.

Main results:

* `VModule.Mover.run_failed_iff` — a call returns -1 with bytes moved exactly when an error spoils
  it;
* `VModule.readn_writen_keep_iff` — the same for the two functions.
-/

import VModule.SocketStream

set_option relaxedAutoImplicit false
set_option autoImplicit false

namespace VModule

/-! ### Answers -/

/-- An answer: some bytes are moved, the call is repeated, nothing is left, or it is an error. -/
inductive Outcome where
  | moved (k : ℕ)
  | again
  | stop
  | fail

/-- What the kernel can answer to a request for `nleft` bytes; it refuses a request that is larger
than an `ssize_t`. -/
def Outcome.Fits (nleft : ℕ) : Outcome → Prop
  | .moved k => 0 < k ∧ k ≤ nleft ∧ nleft < 9223372036854775808
  | _ => True

/-- After `m` of `n` bytes there comes an error before the last byte and after the first. -/
inductive Spoils (n : ℕ) : ℕ → List Outcome → Prop
  | fail {m os} : 0 < m → m < n → Spoils n m (.fail :: os)
  | moved {m k os} : Spoils n (m + k) os → Spoils n m (.moved k :: os)
  | again {m os} : Spoils n m os → Spoils n m (.again :: os)

section Spoils

variable {n m k : ℕ} {os : List Outcome}

@[simp] theorem spoils_nil : ¬ Spoils n m [] := by rintro ⟨⟩

@[simp] theorem spoils_fail : Spoils n m (.fail :: os) ↔ 0 < m ∧ m < n :=
  ⟨fun h => by cases h with | fail hpos hlt => exact ⟨hpos, hlt⟩, fun ⟨hpos, hlt⟩ => .fail hpos hlt⟩

@[simp] theorem spoils_moved : Spoils n m (.moved k :: os) ↔ Spoils n (m + k) os :=
  ⟨fun h => by cases h with | moved h => exact h, .moved⟩

@[simp] theorem spoils_again : Spoils n m (.again :: os) ↔ Spoils n m os :=
  ⟨fun h => by cases h with | again h => exact h, .again⟩

@[simp] theorem spoils_stop : ¬ Spoils n m (.stop :: os) := by rintro ⟨⟩

theorem Spoils.lt (h : Spoils n m os) : m < n := by
  induction h with
  | fail _ hlt => exact hlt
  | moved _ ih => omega
  | again _ ih => exact ih

end Spoils

/-! ### A call that moves bytes -/

/-- A call in progress: the loop `while (nleft > 0)`, one round of it, and what was moved. -/
structure Mover (σ α : Type*) where
  n : σ → ℕ
  nleft : σ → ℕ
  bytes : σ → List UInt8
  result : σ → Int
  next : σ → α → σ ⊕ Int
  kind : α → Outcome
  next_moved : ∀ c a k, kind a = .moved k → k ≤ nleft c → (bytes c).length + nleft c = n c →
    ∃ c', next c a = .inl c' ∧ n c' = n c ∧ nleft c' = nleft c - k ∧
      (bytes c').length = (bytes c).length + k
  next_again : ∀ c a, kind a = .again → next c a = .inl c
  next_stop : ∀ c a, kind a = .stop → next c a = .inr (result c)
  next_fail : ∀ c a, kind a = .fail → next c a = .inr (-1)
  result_ne : ∀ c, (nleft c = 0 ∨ ∃ a, kind a = .stop) → (bytes c).length + nleft c = n c →
    ((bytes c).length = 0 ∨ n c < 9223372036854775808) → result c ≠ -1

namespace Mover

variable {σ α : Type*} (M : Mover σ α)

/-- The call for a list of answers, if it returns with them. -/
def run : List α → σ → Option (Int × σ)
  | [], c => if M.nleft c = 0 then some (M.result c, c) else none
  | a :: as, c =>
      if M.nleft c = 0 then some (M.result c, c)
      else
        match M.next c a with
        | .inl c' => run as c'
        | .inr r => some (r, c)

/-- The kernel can give these answers. -/
def Possible : List α → σ → Prop
  | [], _ => True
  | a :: as, c =>
      M.nleft c = 0 ∨ (M.kind a).Fits (M.nleft c) ∧ ∀ c', M.next c a = .inl c' → Possible as c'

variable {M}

/-- What is returned at the end is not -1. -/
theorem not_failed {c : σ} (hend : M.nleft c = 0 ∨ ∃ a, M.kind a = .stop)
    (hc : (M.bytes c).length + M.nleft c = M.n c)
    (hn : (M.bytes c).length = 0 ∨ M.n c < 9223372036854775808) :
    ¬ ∃ c', some (M.result c, c) = some (-1, c') ∧ M.bytes c' ≠ [] := by
  rintro ⟨c', hrun, -⟩
  exact M.result_ne c hend hc hn (Prod.ext_iff.1 (Option.some_inj.1 hrun)).1

/-- **A call returns -1 with bytes moved exactly when an error spoils it.** -/
theorem run_failed_iff {as : List α} {c : σ} (hp : M.Possible as c)
    (hc : (M.bytes c).length + M.nleft c = M.n c)
    (hn : (M.bytes c).length = 0 ∨ M.n c < 9223372036854775808) :
    (∃ c', M.run as c = some (-1, c') ∧ M.bytes c' ≠ []) ↔
      Spoils (M.n c) (M.bytes c).length (as.map M.kind) := by
  induction as generalizing c with
  | nil =>
      refine iff_of_false ?_ spoils_nil
      rw [run]
      split
      case isTrue hzero => exact not_failed (.inl hzero) hc hn
      case isFalse =>
        rintro ⟨c', hrun, -⟩
        cases hrun
  | cons a as ih =>
      rw [List.map_cons, run]
      by_cases hzero : M.nleft c = 0
      · rw [if_pos hzero]
        refine iff_of_false (not_failed (.inl hzero) hc hn) fun h => ?_
        have hlt := h.lt
        omega
      · rw [if_neg hzero]
        obtain ⟨hfits, hrest⟩ := hp.resolve_left hzero
        cases hkind : M.kind a with
        | moved k =>
            rw [hkind] at hfits
            obtain ⟨hpos, hle, hmax⟩ := hfits
            obtain ⟨c', hnext, hn', hleft, hlength⟩ := M.next_moved c a k hkind hle hc
            rw [hnext, spoils_moved, ← hlength, ← hn']
            exact ih (hrest c' hnext) (by omega) (by omega)
        | again =>
            have hnext := M.next_again c a hkind
            rw [hnext, spoils_again]
            exact ih (hrest c hnext) hc hn
        | stop =>
            rw [M.next_stop c a hkind]
            exact iff_of_false (not_failed (.inr ⟨a, hkind⟩) hc hn) spoils_stop
        | fail =>
            rw [M.next_fail c a hkind, spoils_fail, List.length_pos_iff]
            constructor
            · rintro ⟨c', hrun, hne⟩
              obtain rfl : c = c' := (Prod.ext_iff.1 (Option.some_inj.1 hrun)).2
              exact ⟨hne, by omega⟩
            · exact fun ⟨hne, _⟩ => ⟨c, rfl, hne⟩

end Mover

/-! ### The two functions -/

/-- An answer of `read`. -/
def ReadAnswer.kind : ReadAnswer → Outcome
  | .bytes bs => .moved bs.length
  | .eof => .stop
  | .eintr => .again
  | .error => .fail

/-- An answer of `write`; one that moves nothing is an error. -/
def WriteAnswer.kind : WriteAnswer → Outcome
  | .count k => .moved k
  | .zero => .fail
  | .eintr => .again
  | .error => .fail

/-- `Readn`, which has taken what it got. -/
def Readn.mover : Mover Readn ReadAnswer where
  n := Readn.n
  nleft := Readn.nleft
  bytes := Readn.got
  result := Readn.result
  next := Readn.next
  kind := ReadAnswer.kind
  next_moved c a k hkind hle _ := by
    cases a with
    | bytes bs =>
        obtain rfl : bs.length = k := by injection hkind
        exact ⟨_, rfl, rfl, rfl, List.length_append⟩
    | eof => cases hkind
    | eintr => cases hkind
    | error => cases hkind
  next_again c a hkind := by
    cases a with
    | eintr => rfl
    | bytes bs => cases hkind
    | eof => cases hkind
    | error => cases hkind
  next_stop c a hkind := by
    cases a with
    | eof => rfl
    | bytes bs => cases hkind
    | eintr => cases hkind
    | error => cases hkind
  next_fail c a hkind := by
    cases a with
    | error => rfl
    | bytes bs => cases hkind
    | eof => cases hkind
    | eintr => cases hkind
  result_ne c _ hc hn := by
    rw [Readn.result, toSsize_of_lt (by omega)]
    omega

/-- `Writen`, which has put what is not left. -/
def Writen.mover : Mover Writen WriteAnswer where
  n c := c.data.length
  nleft := Writen.nleft
  bytes c := c.data.take (c.data.length - c.nleft)
  result := Writen.result
  next := Writen.next
  kind := WriteAnswer.kind
  next_moved c a k hkind hle hc := by
    cases a with
    | count k' =>
        obtain rfl : k' = k := by injection hkind
        refine ⟨_, rfl, rfl, rfl, ?_⟩
        rw [List.length_take] at hc ⊢
        rw [List.length_take]
        dsimp only
        omega
    | zero => cases hkind
    | eintr => cases hkind
    | error => cases hkind
  next_again c a hkind := by
    cases a with
    | eintr => rfl
    | count k => cases hkind
    | zero => cases hkind
    | error => cases hkind
  next_stop c a hkind := by cases a <;> cases hkind
  next_fail c a hkind := by
    cases a with
    | zero => rfl
    | error => rfl
    | count k => cases hkind
    | eintr => cases hkind
  result_ne c hend hc hn := by
    have hzero : c.nleft = 0 := by
      rcases hend with hzero | ⟨a, ha⟩
      · exact hzero
      · cases a <;> cases ha
    rw [List.length_take] at hc hn
    rw [Writen.result, toSsize_of_lt (by omega)]
    omega

namespace CSocket

/-- `Readn`: what it returns, and the bytes that it has taken from the stream. -/
def readn (n : ℕ) (as : List ReadAnswer) : Option (Int × List UInt8) :=
  (Readn.mover.run as (.enter n)).map fun (r, c) => (r, c.got)

/-- `Writen`: what it returns, and the bytes that it has put to the stream. -/
def writen (data : List UInt8) (as : List WriteAnswer) : Option (Int × List UInt8) :=
  (Writen.mover.run as (.enter data)).map fun (r, c) => (r, Writen.mover.bytes c)

/-- When the call returns -1 it has moved no byte. -/
def KeepsStream (call : Option (Int × List UInt8)) : Prop :=
  ∀ bs, call = some (-1, bs) → bs = []

theorem keepsStream_iff {σ α : Type*} {M : Mover σ α} {as : List α} {c : σ} :
    KeepsStream ((M.run as c).map fun (r, c) => (r, M.bytes c)) ↔
      ¬ ∃ c', M.run as c = some (-1, c') ∧ M.bytes c' ≠ [] := by
  constructor
  · rintro h ⟨c', hrun, hne⟩
    refine hne (h _ ?_)
    rw [hrun]
    rfl
  · intro h bs hcall
    obtain ⟨⟨r, c'⟩, hrun, heq⟩ := Option.map_eq_some_iff.1 hcall
    obtain ⟨hr, hbs⟩ := Prod.ext_iff.1 heq
    dsimp only at hr hbs
    subst hr hbs
    by_contra hne
    exact h ⟨c', hrun, hne⟩

end CSocket

open CSocket

/-- **A call of `Readn` or `Writen` that returns -1 has moved nothing exactly when no error comes
after some bytes and before the last**, for every length and all answers. -/
theorem readn_writen_keep_iff (n : ℕ) (reads : List ReadAnswer) (data : List UInt8)
    (writes : List WriteAnswer) (hreads : Readn.mover.Possible reads (.enter n))
    (hwrites : Writen.mover.Possible writes (.enter data)) :
    (KeepsStream (readn n reads) ↔ ¬ Spoils n 0 (reads.map ReadAnswer.kind)) ∧
      (KeepsStream (writen data writes) ↔
        ¬ Spoils data.length 0 (writes.map WriteAnswer.kind)) := by
  constructor
  · refine keepsStream_iff.trans (not_congr ?_)
    exact Mover.run_failed_iff hreads (Nat.zero_add n) (.inl rfl)
  · refine keepsStream_iff.trans (not_congr ?_)
    have hbytes : Writen.mover.bytes (.enter data) = [] := by
      simp [Writen.mover, Writen.enter]
    have hlength : (Writen.mover.bytes (.enter data)).length = 0 := congrArg List.length hbytes
    have hsound : (Writen.mover.bytes (.enter data)).length + data.length = data.length := by
      rw [hlength, Nat.zero_add]
    rw [Mover.run_failed_iff hwrites hsound (.inl hlength), hlength]
    rfl

/-- An error before the first byte, and none after it. -/
theorem readn_writen_keep_early :
    KeepsStream (readn 2 [.eintr, .error]) ∧
      KeepsStream (writen [7, 8] [.count 1, .eintr, .count 1]) := by
  have hiff := readn_writen_keep_iff 2 [.eintr, .error] [7, 8] [.count 1, .eintr, .count 1]
    (by simp [Mover.Possible, Readn.mover, ReadAnswer.kind, Outcome.Fits])
    (by simp [Mover.Possible, Writen.mover, Writen.next, Writen.enter, WriteAnswer.kind,
      Outcome.Fits])
  exact ⟨hiff.1.2 (by simp [ReadAnswer.kind]), hiff.2.2 (by simp [WriteAnswer.kind])⟩

/-- One byte of two, and then nothing for now. -/
theorem readn_loses_byte : ¬ KeepsStream (readn 2 [.bytes [7], .error]) := fun h =>
  absurd (h [7] rfl) (List.cons_ne_nil _ _)

end VModule

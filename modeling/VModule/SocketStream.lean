/-
**`CSocket::Readn` and `CSocket::Writen` of `socket/Socket.cpp`, on a reliable byte stream.**

Both functions are a loop around one system call.  The kernel takes as many bytes as it likes, at
least one, hands out as many as it likes, at least one, and may interrupt a call.  The two ends are
two threads, so every order of their system calls is a run.

Main definitions:

* `VModule.Readn`, `VModule.Writen` — a call in progress, with one round of its loop as `next`;
* `VModule.Stream` — the two ends and the bytes between them;
* `VModule.Stream.Step`, `VModule.byteStream` — the machine, for a buffer of any capacity.

Main results:

* `VModule.toSsize_of_lt` — what is returned is the length, for every length a buffer can have.
-/

import Mathlib.Data.PNat.Notation
import VModule.Machine

set_option relaxedAutoImplicit false
set_option autoImplicit false

namespace VModule

/-! ### The two loops -/

/-- The conversion of a `size_t` to the `ssize_t` that is returned. -/
def toSsize (n : ℕ) : Int := (BitVec.ofNat 64 n).toInt

/-- A length that an `ssize_t` can hold is returned as it is. -/
theorem toSsize_of_lt {n : ℕ} (h : n < 9223372036854775808) : toSsize n = n := by
  have hmod : n % 18446744073709551616 = n := Nat.mod_eq_of_lt (by omega)
  rw [toSsize, BitVec.toInt_eq_toNat_of_lt] <;> simp only [BitVec.toNat_ofNat, Nat.reducePow, hmod]
  omega

/-- What `read` answers; `bytes` is not empty. -/
inductive ReadAnswer where
  | bytes (bs : List UInt8)
  | eof
  | eintr
  | error

/-- What `write` answers; `count` is not zero. -/
inductive WriteAnswer where
  | count (k : ℕ)
  | zero
  | eintr
  | error

/-- A call of `Readn`: `n`, `nleft`, and what is in `vptr` so far. -/
structure Readn where
  n : ℕ
  nleft : ℕ
  got : List UInt8

namespace Readn

/-- The call before its loop. -/
def enter (n : ℕ) : Readn := ⟨n, n, []⟩

/-- The value of `return n - nleft`. -/
def result (c : Readn) : Int := toSsize (c.n - c.nleft)

/-- One round of the loop: it goes on, or the function returns. -/
def next (c : Readn) : ReadAnswer → Readn ⊕ Int
  | .bytes bs => .inl { c with nleft := c.nleft - bs.length, got := c.got ++ bs }
  | .eintr => .inl c
  | .eof => .inr c.result
  | .error => .inr (-1)

end Readn

/-- A call of `Writen`: what `vptr` points to, and `nleft`; `n` is the length. -/
structure Writen where
  data : List UInt8
  nleft : ℕ

namespace Writen

/-- The call before its loop. -/
def enter (data : List UInt8) : Writen := ⟨data, data.length⟩

/-- What `ptr` points to. -/
def rest (c : Writen) : List UInt8 := c.data.drop (c.data.length - c.nleft)

/-- The value of `return n`. -/
def result (c : Writen) : Int := toSsize c.data.length

/-- One round of the loop: it goes on, or the function returns. -/
def next (c : Writen) : WriteAnswer → Writen ⊕ Int
  | .count k => .inl { c with nleft := c.nleft - k }
  | .eintr => .inl c
  | .zero => .inr (-1)
  | .error => .inr (-1)

end Writen

/-! ### The stream -/

/-- A call of `Readn` that has returned. -/
structure ReadnDone where
  n : ℕ
  bytes : List UInt8
  result : Int

/-- A call of `Writen` that has returned. -/
structure WritenDone where
  data : List UInt8
  result : Int

/-- The bytes between the two ends, whether the writing end is closed, the calls in progress, what
the calls of `Writen` were given, and the calls that have returned. -/
structure Stream where
  pipe : List UInt8
  closed : Bool
  writer : Option Writen
  reader : Option Readn
  given : List UInt8
  writens : List WritenDone
  readns : List ReadnDone

namespace Stream

/-- An open stream. -/
def start : Stream := ⟨[], false, none, none, [], [], []⟩

/-- What the calls of `Readn` that have returned delivered. -/
def delivered (s : Stream) : List UInt8 := s.readns.flatMap ReadnDone.bytes

/-- What happens on the two ends. -/
inductive Action where
  | callWriten (data : List UInt8)
  | write (k : ℕ)
  | writeEintr
  | returnWriten
  | close
  | callReadn (n : ℕ)
  | read (k : ℕ)
  | readEintr
  | readEof
  | returnReadn

/-- One step, where the kernel keeps at most `cap` bytes.  A read waits while there is nothing to
read and the writing end is open, and a write waits while there is no room. -/
inductive Step (cap : ℕ+) : Stream → Action → Stream → Prop
  | callWriten {s : Stream} {data : List UInt8} : s.writer = none → s.closed = false →
      Step cap s (.callWriten data)
        { s with writer := some (.enter data), given := s.given ++ data }
  | write {s : Stream} {w w' : Writen} {k : ℕ} : s.writer = some w → 0 < k → k ≤ w.nleft →
      s.pipe.length + k ≤ cap → w.next (.count k) = .inl w' →
      Step cap s (.write k) { s with pipe := s.pipe ++ w.rest.take k, writer := some w' }
  | writeEintr {s : Stream} {w w' : Writen} : s.writer = some w → 0 < w.nleft →
      w.next .eintr = .inl w' → Step cap s .writeEintr { s with writer := some w' }
  | returnWriten {s : Stream} {w : Writen} : s.writer = some w → w.nleft = 0 →
      Step cap s .returnWriten
        { s with writer := none, writens := s.writens ++ [⟨w.data, w.result⟩] }
  | close {s : Stream} : s.writer = none → s.closed = false →
      Step cap s .close { s with closed := true }
  | callReadn {s : Stream} {n : ℕ} : s.reader = none →
      Step cap s (.callReadn n) { s with reader := some (.enter n) }
  | read {s : Stream} {r r' : Readn} {k : ℕ} : s.reader = some r → 0 < k → k ≤ r.nleft →
      k ≤ s.pipe.length → r.next (.bytes (s.pipe.take k)) = .inl r' →
      Step cap s (.read k) { s with pipe := s.pipe.drop k, reader := some r' }
  | readEintr {s : Stream} {r r' : Readn} : s.reader = some r → 0 < r.nleft →
      r.next .eintr = .inl r' → Step cap s .readEintr { s with reader := some r' }
  | readEof {s : Stream} {r : Readn} {result : Int} : s.reader = some r → 0 < r.nleft →
      s.pipe = [] → s.closed = true → r.next .eof = .inr result →
      Step cap s .readEof
        { s with reader := none, readns := s.readns ++ [⟨r.n, r.got, result⟩] }
  | returnReadn {s : Stream} {r : Readn} : s.reader = some r → r.nleft = 0 →
      Step cap s .returnReadn
        { s with reader := none, readns := s.readns ++ [⟨r.n, r.got, r.result⟩] }

end Stream

/-- A stream with any calls on its two ends. -/
def byteStream (cap : ℕ+) : Machine Stream Stream.Action where
  init s := s = .start
  step := Stream.Step cap

end VModule

/-
**All calls on the two ends of a socket, with errors.**

`CSocket::Read` and `CSocket::Write` make one system call, and make it again where it was
interrupted.  `Readn` and `Writen` go on until everything is moved.  The kernel may give any error
at any call, as it does where a descriptor does not block, and a program knows of a call that has
returned only its result.

What a call has moved is kept with its result, so that the two can be compared.

Main definitions:

* `VModule.CSocket.read`, `VModule.CSocket.write` — one go of `Read` and of `Write`;
* `VModule.Taking`, `VModule.Giving` — any call in progress, with one round of it as `next`;
* `VModule.Taken.Right`, `VModule.Given.Right` — what a call that has returned tells;
* `VModule.Ends`, `VModule.Ends.Step`, `VModule.socketEnds` — the two ends, and the machine.

Main results:

* `VModule.Taking.keeps_next`, `VModule.Taking.right_next`, `VModule.Giving.keeps_next`,
  `VModule.Giving.right_next` — one round of a call.
-/

import VModule.SocketStream

set_option relaxedAutoImplicit false
set_option autoImplicit false

namespace VModule

/-! ### Calls -/

/-- The bytes that come with an answer of `read`. -/
def ReadAnswer.taken : ReadAnswer → List UInt8
  | .bytes bs => bs
  | _ => []

/-- The number of bytes that `write` has taken. -/
def WriteAnswer.put : WriteAnswer → ℕ
  | .count k => k
  | _ => 0

namespace CSocket

/-- `Read` behind its `again:`, with what it returns and what it has taken; `none` is the `goto`. -/
def read : ReadAnswer → Option (Int × List UInt8)
  | .bytes bs => some (bs.length, bs)
  | .eof => some (0, [])
  | .eintr => none
  | .error => some (-1, [])

/-- `Write` behind its `again:`. -/
def write (data : List UInt8) : WriteAnswer → Option (Int × List UInt8)
  | .count k => some (k, data.take k)
  | .zero => some (0, [])
  | .eintr => none
  | .error => some (-1, [])

end CSocket

/-- A call on the reading end. -/
inductive Taking where
  | read (nbytes : ℕ)
  | readn (c : Readn)

namespace Taking

/-- The call is one of `Readn`. -/
def whole : Taking → Bool
  | read _ => false
  | readn _ => true

/-- The bytes that the caller wants. -/
def n : Taking → ℕ
  | read nbytes => nbytes
  | readn c => c.n

/-- The bytes that the next `read` is called for. -/
def size : Taking → ℕ
  | read nbytes => nbytes
  | readn c => c.nleft

/-- What the call has taken so far. -/
def got : Taking → List UInt8
  | read _ => []
  | readn c => c.got

/-- `read` is called. -/
def Asks : Taking → Prop
  | read _ => True
  | readn c => 0 < c.nleft

/-- One round: the call goes on, or returns and has taken some bytes. -/
def next : Taking → ReadAnswer → Taking ⊕ Int × List UInt8
  | read nbytes, a =>
      match CSocket.read a with
      | none => .inl (read nbytes)
      | some r => .inr r
  | readn c, a =>
      match c.next a with
      | .inl c' => .inl (readn c')
      | .inr result => .inr (result, c.got)

/-- Of what is wanted some has been taken, and some is left. -/
def Sound : Taking → Prop
  | read _ => True
  | readn c => c.got.length + c.nleft = c.n ∧ (c.got = [] ∨ c.n < 9223372036854775808)

end Taking

/-- A call on the writing end. -/
inductive Giving where
  | write (data : List UInt8)
  | writen (c : Writen)

namespace Giving

/-- The call is one of `Writen`. -/
def whole : Giving → Bool
  | write _ => false
  | writen _ => true

def data : Giving → List UInt8
  | write data => data
  | writen c => c.data

/-- The bytes that the next `write` is called for. -/
def size : Giving → ℕ
  | write data => data.length
  | writen c => c.nleft

/-- What the next `write` is given. -/
def rest : Giving → List UInt8
  | write data => data
  | writen c => c.rest

/-- What the call has put so far. -/
def sent : Giving → List UInt8
  | write _ => []
  | writen c => c.data.take (c.data.length - c.nleft)

/-- `write` is called. -/
def Asks : Giving → Prop
  | write _ => True
  | writen c => 0 < c.nleft

/-- One round: the call goes on, or returns and has put some bytes. -/
def next : Giving → WriteAnswer → Giving ⊕ Int × List UInt8
  | write data, a =>
      match CSocket.write data a with
      | none => .inl (write data)
      | some r => .inr r
  | writen c, a =>
      match c.next a with
      | .inl c' => .inl (writen c')
      | .inr result => .inr (result, c.data.take (c.data.length - c.nleft))

def Sound : Giving → Prop
  | write _ => True
  | writen c => c.nleft ≤ c.data.length ∧
      (c.nleft = c.data.length ∨ c.data.length < 9223372036854775808)

end Giving

/-! ### The two ends -/

/-- A call on the reading end that has returned. -/
structure Taken where
  whole : Bool
  n : ℕ
  bytes : List UInt8
  result : Int

/-- A call on the writing end that has returned. -/
structure Given where
  whole : Bool
  data : List UInt8
  bytes : List UInt8
  result : Int

/-- What is known of a call on the reading end.  One that does not fail returns the number of bytes
that it has taken, and it has what it was asked for, or has not waited for more, or the stream has
`ended`.  One that fails has taken nothing, but for `Readn`. -/
structure Taken.Right (ended : Prop) (d : Taken) : Prop where
  length_le : d.bytes.length ≤ d.n
  result : d.result = d.bytes.length ∧
      (d.bytes.length = d.n ∨ d.whole = false ∧ d.bytes ≠ [] ∨ ended) ∨
    d.result = -1 ∧ (d.whole = false → d.bytes = [])

/-- What is known of a call on the writing end. -/
structure Given.Right (d : Given) : Prop where
  isPrefix : d.bytes <+: d.data
  result : d.result = d.bytes.length ∧ (d.whole = true → d.bytes = d.data) ∨
    d.result = -1 ∧ (d.whole = false → d.bytes = [])

/-- The bytes in the kernel, whether the writing end is closed, the calls in progress and the calls
that have returned. -/
structure Ends where
  pipe : List UInt8
  closed : Bool
  reader : Option Taking
  writer : Option Giving
  takes : List Taken
  puts : List Given

namespace Ends

def start : Ends := ⟨[], false, none, none, [], []⟩

/-- What the calls that have returned have taken. -/
def taken (s : Ends) : List UInt8 := s.takes.flatMap Taken.bytes

/-- What the call in progress has taken. -/
def inHand (s : Ends) : List UInt8 := (s.reader.map Taking.got).getD []

/-- What the calls that have returned have put. -/
def given (s : Ends) : List UInt8 := s.puts.flatMap Given.bytes

/-- What the call in progress has put. -/
def inPut (s : Ends) : List UInt8 := (s.writer.map Giving.sent).getD []

/-- What `read` can answer to a call for `m` bytes. -/
def ReadAllowed (s : Ends) (m : ℕ) : ReadAnswer → Prop
  | .bytes bs => bs ≠ [] ∧ bs.length ≤ m ∧ m < 9223372036854775808 ∧ bs <+: s.pipe
  | .eof => m = 0 ∨ s.pipe = [] ∧ s.closed = true
  | .eintr => True
  | .error => True

/-- What `write` can answer to a call for `m` bytes. -/
def WriteAllowed (cap : ℕ+) (s : Ends) (m : ℕ) : WriteAnswer → Prop
  | .count k => 0 < k ∧ k ≤ m ∧ m < 9223372036854775808 ∧ s.pipe.length + k ≤ cap
  | .zero => True
  | .eintr => True
  | .error => True

/-- What happens on the two ends. -/
inductive Action where
  | callRead (nbytes : ℕ)
  | callReadn (n : ℕ)
  | read (a : ReadAnswer)
  | returnReadn
  | callWrite (data : List UInt8)
  | callWriten (data : List UInt8)
  | write (a : WriteAnswer)
  | returnWriten
  | close

/-- One step, where the kernel keeps at most `cap` bytes. -/
inductive Step (cap : ℕ+) : Ends → Action → Ends → Prop
  | callRead {s : Ends} {nbytes : ℕ} : s.reader = none →
      Step cap s (.callRead nbytes) { s with reader := some (.read nbytes) }
  | callReadn {s : Ends} {n : ℕ} : s.reader = none →
      Step cap s (.callReadn n) { s with reader := some (.readn (.enter n)) }
  | readOn {s : Ends} {t t' : Taking} {a : ReadAnswer} : s.reader = some t → t.Asks →
      s.ReadAllowed t.size a → t.next a = .inl t' →
      Step cap s (.read a)
        { s with pipe := s.pipe.drop a.taken.length, reader := some t' }
  | readReturns {s : Ends} {t : Taking} {a : ReadAnswer} {result : Int} {bs : List UInt8} :
      s.reader = some t → t.Asks → s.ReadAllowed t.size a → t.next a = .inr (result, bs) →
      Step cap s (.read a)
        { s with pipe := s.pipe.drop a.taken.length, reader := none,
                 takes := s.takes ++ [⟨t.whole, t.n, bs, result⟩] }
  | returnReadn {s : Ends} {c : Readn} : s.reader = some (.readn c) → c.nleft = 0 →
      Step cap s .returnReadn
        { s with reader := none, takes := s.takes ++ [⟨true, c.n, c.got, c.result⟩] }
  | callWrite {s : Ends} {data : List UInt8} : s.writer = none → s.closed = false →
      Step cap s (.callWrite data) { s with writer := some (.write data) }
  | callWriten {s : Ends} {data : List UInt8} : s.writer = none → s.closed = false →
      Step cap s (.callWriten data) { s with writer := some (.writen (.enter data)) }
  | writeOn {s : Ends} {g g' : Giving} {a : WriteAnswer} : s.writer = some g → g.Asks →
      s.WriteAllowed cap g.size a → g.next a = .inl g' →
      Step cap s (.write a)
        { s with pipe := s.pipe ++ g.rest.take a.put, writer := some g' }
  | writeReturns {s : Ends} {g : Giving} {a : WriteAnswer} {result : Int} {bs : List UInt8} :
      s.writer = some g → g.Asks → s.WriteAllowed cap g.size a → g.next a = .inr (result, bs) →
      Step cap s (.write a)
        { s with pipe := s.pipe ++ g.rest.take a.put, writer := none,
                 puts := s.puts ++ [⟨g.whole, g.data, bs, result⟩] }
  | returnWriten {s : Ends} {c : Writen} : s.writer = some (.writen c) → c.nleft = 0 →
      Step cap s .returnWriten
        { s with writer := none,
                 puts := s.puts ++ [⟨true, c.data, (Giving.writen c).sent, c.result⟩] }
  | close {s : Ends} : s.writer = none → s.closed = false →
      Step cap s .close { s with closed := true }

end Ends

/-- The two ends of a socket with any calls on them. -/
def socketEnds (cap : ℕ+) : Machine Ends Ends.Action where
  init s := s = .start
  step := Ends.Step cap

/-! ### One round of a call -/

section Rounds

variable {s : Ends} {cap : ℕ+} {t t' : Taking} {g g' : Giving} {result : Int} {bs : List UInt8}

theorem Taking.keeps_next {a : ReadAnswer} (h : t.Sound) (ha : s.ReadAllowed t.size a)
    (hnext : t.next a = .inl t') : t'.Sound ∧ t'.got = t.got ++ a.taken := by
  cases t with
  | read nbytes =>
      cases a with
      | eintr =>
          obtain rfl := Sum.inl.inj hnext
          exact ⟨h, rfl⟩
      | bytes | eof | error => cases hnext
  | readn c =>
      cases a with
      | bytes bs =>
          obtain ⟨-, hle, hlt, -⟩ := ha
          obtain rfl := Sum.inl.inj hnext
          obtain ⟨hsum, hsmall⟩ := h
          refine ⟨⟨?_, ?_⟩, rfl⟩
          · simp only [Taking.size, List.length_append] at hle ⊢
            omega
          · right
            rcases hsmall with hnil | hsmall
            · simp only [Taking.size, hnil, List.length_nil] at hlt hsum
              dsimp only
              omega
            · exact hsmall
      | eintr =>
          obtain rfl := Sum.inl.inj hnext
          exact ⟨h, (List.append_nil _).symm⟩
      | eof | error => cases hnext

/-- What `Readn` returns, if it is not -1, is the number of bytes that it has. -/
theorem Readn.result_eq {c : Readn} (h : (Taking.readn c).Sound) : c.result = c.got.length := by
  obtain ⟨hsum, hsmall⟩ := h
  have hlt : c.got.length < 9223372036854775808 := by
    rcases hsmall with hnil | hsmall
    · rw [hnil, List.length_nil]
      omega
    · omega
  rw [Readn.result, ← hsum, Nat.add_sub_cancel, toSsize_of_lt hlt]

theorem Taking.right_next {a : ReadAnswer} (h : t.Sound) (ha : s.ReadAllowed t.size a)
    (hnext : t.next a = .inr (result, bs)) :
    bs = t.got ++ a.taken ∧
      Taken.Right (s.pipe = [] ∧ s.closed = true) ⟨t.whole, t.n, bs, result⟩ := by
  cases t with
  | read nbytes =>
      cases a with
      | bytes bs' =>
          obtain ⟨hne, hle, -, -⟩ := ha
          cases hnext
          exact ⟨rfl, hle, .inl ⟨rfl, .inr (.inl ⟨rfl, hne⟩)⟩⟩
      | eof =>
          cases hnext
          refine ⟨rfl, Nat.zero_le _, .inl ⟨rfl, ?_⟩⟩
          rcases ha with hzero | hend
          · exact .inl hzero.symm
          · exact .inr (.inr hend)
      | error =>
          cases hnext
          exact ⟨rfl, Nat.zero_le _, .inr ⟨rfl, fun _ => rfl⟩⟩
      | eintr => cases hnext
  | readn c =>
      have hle : c.got.length ≤ c.n := h.1 ▸ Nat.le_add_right ..
      cases a with
      | eof =>
          cases hnext
          refine ⟨(List.append_nil _).symm, hle, .inl ⟨Readn.result_eq h, ?_⟩⟩
          rcases ha with hzero | hend
          · have hsum := h.1
            have hleft : c.nleft = 0 := hzero
            rw [hleft, Nat.add_zero] at hsum
            exact .inl hsum
          · exact .inr (.inr hend)
      | error =>
          cases hnext
          exact ⟨(List.append_nil _).symm, hle, .inr ⟨rfl, fun hwhole => by cases hwhole⟩⟩
      | bytes | eintr => cases hnext

theorem Giving.keeps_next {a : WriteAnswer} (h : g.Sound) (ha : s.WriteAllowed cap g.size a)
    (hnext : g.next a = .inl g') : g'.Sound ∧ g'.sent = g.sent ++ g.rest.take a.put := by
  cases g with
  | write data =>
      cases a with
      | eintr =>
          obtain rfl := Sum.inl.inj hnext
          exact ⟨h, rfl⟩
      | count | zero | error => cases hnext
  | writen c =>
      obtain ⟨hleft, hsmall⟩ := h
      cases a with
      | count k =>
          obtain ⟨-, hle, hlt, -⟩ := ha
          obtain rfl := Sum.inl.inj hnext
          have hsum : c.data.length - (c.nleft - k) = c.data.length - c.nleft + k := by
            simp only [Giving.size] at hle
            omega
          refine ⟨⟨Nat.le_trans (Nat.sub_le ..) hleft, ?_⟩, ?_⟩
          · right
            rcases hsmall with heq | hsmall
            · rw [← heq]
              exact hlt
            · exact hsmall
          · simp only [sent, rest, Writen.rest, WriteAnswer.put]
            rw [hsum, List.take_add]
      | eintr =>
          obtain rfl := Sum.inl.inj hnext
          exact ⟨⟨hleft, hsmall⟩, (List.append_nil _).symm⟩
      | zero | error => cases hnext

theorem Giving.right_next {a : WriteAnswer} (ha : s.WriteAllowed cap g.size a)
    (hnext : g.next a = .inr (result, bs)) :
    bs = g.sent ++ g.rest.take a.put ∧ Given.Right ⟨g.whole, g.data, bs, result⟩ := by
  cases g with
  | write data =>
      cases a with
      | count k =>
          cases hnext
          have hlen : (data.take k).length = k := List.length_take_of_le ha.2.1
          refine ⟨rfl, List.take_prefix k data, .inl ⟨?_, fun hwhole => by cases hwhole⟩⟩
          dsimp only
          rw [hlen]
      | zero =>
          cases hnext
          exact ⟨by simp [sent, WriteAnswer.put], List.nil_prefix,
            .inl ⟨rfl, fun hwhole => by cases hwhole⟩⟩
      | error =>
          cases hnext
          exact ⟨by simp [sent, WriteAnswer.put], List.nil_prefix, .inr ⟨rfl, fun _ => rfl⟩⟩
      | eintr => cases hnext
  | writen c =>
      cases a with
      | zero =>
          cases hnext
          exact ⟨by simp [sent, WriteAnswer.put], List.take_prefix ..,
            .inr ⟨rfl, fun hwhole => by cases hwhole⟩⟩
      | error =>
          cases hnext
          exact ⟨by simp [sent, WriteAnswer.put], List.take_prefix ..,
            .inr ⟨rfl, fun hwhole => by cases hwhole⟩⟩
      | count | eintr => cases hnext

theorem Giving.sent_of_zero {c : Writen} (hzero : c.nleft = 0) : (writen c).sent = c.data := by
  rw [sent, hzero, Nat.sub_zero, List.take_length]

/-- A call of `Writen` that has put everything returns its length. -/
theorem Writen.result_eq {c : Writen} (h : (Giving.writen c).Sound) (hzero : c.nleft = 0) :
    c.result = c.data.length := by
  have hsmall := h.2
  exact toSsize_of_lt (by omega)

theorem Giving.right_writen {c : Writen} (h : (writen c).Sound) (hzero : c.nleft = 0) :
    Given.Right ⟨true, c.data, (writen c).sent, c.result⟩ := by
  rw [sent_of_zero hzero]
  exact ⟨List.prefix_refl _, .inl ⟨Writen.result_eq h hzero, fun _ => rfl⟩⟩

/-- A call of `Readn` that has taken everything returns the length. -/
theorem Taking.right_readn {c : Readn} {ended : Prop} (h : (Taking.readn c).Sound)
    (hzero : c.nleft = 0) : Taken.Right ended ⟨true, c.n, c.got, c.result⟩ := by
  have hlen : c.got.length = c.n := by
    have hsum := h.1
    omega
  exact ⟨Nat.le_of_eq hlen, .inl ⟨Readn.result_eq h, .inl hlen⟩⟩

end Rounds

end VModule

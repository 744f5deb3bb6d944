/-
**`AutoBuffer` of `sutils/AutoBuffer.cpp`, on a heap that other owners use too.**

A buffer owns the block it points to.  Blocks come to it from `malloc`, from `realloc` and from a
caller of `attach`; they leave it through `free` and through a caller of `detach`.  Every function
returns the blocks that came and went, in order.

Main definitions:

* `VModule.AutoBuffer` — the members, with one function for each operation;
* `VModule.AutoBuffer.Event` — a block comes to a buffer, or leaves it;
* `VModule.Buffers` — any number of buffers, and the blocks that belong to no buffer;
* `VModule.autoBuffers` — the machine whose steps are the operations and what callers do with their
  own blocks.
-/

import Mathlib.Data.Finset.Basic
import VModule.Machine
import VModule.MallocHeap

set_option relaxedAutoImplicit false
set_option autoImplicit false

open Function

namespace VModule

/-- The members of an `AutoBuffer`. -/
structure AutoBuffer where
  p : Option ℕ
  s : ℕ

namespace AutoBuffer

/-- A block comes to a buffer, is freed by it, or is handed out. -/
inductive Event where
  | acquired (i : ℕ)
  | freed (i : ℕ)
  | handedOut (i : ℕ)
  deriving DecidableEq

/-- How a call ends: the heap, the buffer, whether `std::bad_alloc` was thrown, what came and went,
and the pointer that `detach` returns. -/
structure Done where
  mem : MallocHeap UInt8
  buf : AutoBuffer
  thrown : Bool
  events : List Event
  returned : Option ℕ

/-- A buffer of zero size. -/
def zero : AutoBuffer := ⟨none, 0⟩

/-- What is freed when `p` is. -/
def freedEvents : Option ℕ → List Event
  | none => []
  | some i => [.freed i]

/-! ### The operations

There is no result where a block is freed that is not live. -/

/-- `AutoBuffer::clear`. -/
def clear (b : AutoBuffer) (m : MallocHeap UInt8) : Option Done :=
  (m.free b.p).map fun m => ⟨m, zero, false, freedEvents b.p, none⟩

/-- `malloc(size)` for a buffer of zero size, as in the constructor and in `allocate`. -/
def fill (size : ℕ) (granted : Option (ℕ → UInt8)) (d : Done) : Done :=
  if size = 0 then d
  else
    match d.mem.malloc size granted with
    | (none, m) => { d with mem := m, thrown := true }
    | (some i, m) =>
        { d with mem := m, buf := ⟨some i, size⟩, events := d.events ++ [.acquired i] }

/-- `AutoBuffer::AutoBuffer`; when it throws there is no buffer. -/
def construct (size : ℕ) (granted : Option (ℕ → UInt8)) (m : MallocHeap UInt8) : Done :=
  fill size granted ⟨m, zero, false, [], none⟩

/-- `AutoBuffer::~AutoBuffer`. -/
def destruct (b : AutoBuffer) (m : MallocHeap UInt8) : Option (MallocHeap UInt8 × List Event) :=
  (m.free b.p).map fun m => (m, freedEvents b.p)

/-- `AutoBuffer::allocate`. -/
def allocate (size : ℕ) (granted : Option (ℕ → UInt8)) (b : AutoBuffer) (m : MallocHeap UInt8) :
    Option Done :=
  (b.clear m).map (fill size granted)

/-- `AutoBuffer::resize`. -/
def resize (newSize : ℕ) (granted : Option (ℕ → UInt8)) (b : AutoBuffer) (m : MallocHeap UInt8) :
    Option Done :=
  if newSize = 0 then b.clear m
  else
    (m.realloc b.p newSize granted).map fun r =>
      match r with
      | (none, m) => ⟨m, b, true, [], none⟩
      | (some i, m) => ⟨m, ⟨some i, newSize⟩, false, freedEvents b.p ++ [.acquired i], none⟩

/-- `AutoBuffer::attach`. -/
def attach (pointer : Option ℕ) (size : ℕ) (b : AutoBuffer) (m : MallocHeap UInt8) :
    Option Done :=
  (b.clear m).map fun d =>
    match pointer with
    | none => if size = 0 then { d with buf := ⟨none, 0⟩ } else d
    | some i =>
        if size = 0 then d
        else { d with buf := ⟨some i, size⟩, events := d.events ++ [.acquired i] }

/-- What is handed out when `p` is. -/
def handedOutEvents : Option ℕ → List Event
  | none => []
  | some i => [.handedOut i]

/-- `AutoBuffer::detach`. -/
def detach (b : AutoBuffer) (m : MallocHeap UInt8) : Done :=
  ⟨m, zero, false, handedOutEvents b.p, b.p⟩

/-- An operation on a buffer, with what `malloc` or `realloc` answers. -/
inductive Call where
  | allocate (size : ℕ) (granted : Option (ℕ → UInt8))
  | resize (newSize : ℕ) (granted : Option (ℕ → UInt8))
  | clear
  | attach (pointer : Option ℕ) (size : ℕ)
  | detach

/-- What an operation does. -/
def Call.run (c : Call) (b : AutoBuffer) (m : MallocHeap UInt8) : Option Done :=
  match c with
  | .allocate size granted => b.allocate size granted m
  | .resize newSize granted => b.resize newSize granted m
  | .clear => b.clear m
  | .attach pointer size => b.attach pointer size m
  | .detach => some (b.detach m)

/-- What `attach` may be given, where `callers` are the blocks that belong to no buffer: a null
pointer, or a live block of the callers' with its size or with zero. -/
def Call.Allowed (callers : Finset ℕ) (m : MallocHeap UInt8) : Call → Prop
  | .attach (some i) size =>
      i ∈ callers ∧ ∃ data, m.blocks i = some data ∧ (size = data.length ∨ size = 0)
  | _ => True

end AutoBuffer

/-! ### Any number of buffers -/

/-- The heap, the buffers that exist, the blocks that belong to no buffer, and what came to each
buffer and left it since it was constructed. -/
structure Buffers (Buf : Type) where
  mem : MallocHeap UInt8
  bufs : Buf → Option AutoBuffer
  callers : Finset ℕ
  history : Buf → List AutoBuffer.Event

/-- What happens: a buffer is constructed, used or destroyed, a caller allocates or frees a block of
its own, or somebody writes into a live block. -/
inductive BufferAction (Buf : Type) where
  | construct (x : Buf) (size : ℕ) (granted : Option (ℕ → UInt8))
  | call (x : Buf) (c : AutoBuffer.Call)
  | destruct (x : Buf)
  | malloc (size : ℕ) (granted : Option (ℕ → UInt8))
  | free (i : ℕ)
  | write (i : ℕ) (data : List UInt8)

namespace Buffers

variable {Buf : Type} [DecidableEq Buf]

/-- A block that comes to a buffer belongs to it, and one that is handed out to the caller. -/
def keep (callers : Finset ℕ) : AutoBuffer.Event → Finset ℕ
  | .acquired i => callers.erase i
  | .freed _ => callers
  | .handedOut i => insert i callers

/-- Buffer `x` becomes `b` after `events`. -/
def put (s : Buffers Buf) (x : Buf) (m : MallocHeap UInt8) (b : Option AutoBuffer)
    (events : List AutoBuffer.Event) : Buffers Buf where
  mem := m
  bufs := update s.bufs x b
  callers := events.foldl keep s.callers
  history := update s.history x (s.history x ++ events)

/-- What may happen: a buffer is constructed once, used and destroyed while it exists; a caller
frees its own blocks; a write keeps the size of a live block. -/
def Allowed (s : Buffers Buf) : BufferAction Buf → Prop
  | .construct x _ _ => s.bufs x = none
  | .call x c => (s.bufs x).isSome = true ∧ c.Allowed s.callers s.mem
  | .destruct x => (s.bufs x).isSome = true
  | .malloc _ _ => True
  | .free i => i ∈ s.callers
  | .write i data => ∃ old, s.mem.blocks i = some old ∧ data.length = old.length

/-- What an action does. -/
def exec (s : Buffers Buf) : BufferAction Buf → Option (Buffers Buf)
  | .construct x size granted =>
      let d := AutoBuffer.construct size granted s.mem
      if d.thrown then some { s with mem := d.mem }
      else some ({ s with history := update s.history x [] }.put x d.mem (some d.buf) d.events)
  | .call x c => do
      let b ← s.bufs x
      let d ← c.run b s.mem
      return s.put x d.mem (some d.buf) d.events
  | .destruct x => do
      let b ← s.bufs x
      let r ← b.destruct s.mem
      return s.put x r.1 none r.2
  | .malloc size granted =>
      match s.mem.malloc size granted with
      | (none, m) => some { s with mem := m }
      | (some i, m) => some { s with mem := m, callers := insert i s.callers }
  | .free i => do
      let m ← s.mem.free (some i)
      return { s with mem := m, callers := s.callers.erase i }
  | .write i data => some { s with mem := s.mem.write i data }

/-- No buffer, over a heap in which nothing has been allocated. -/
def start : Buffers Buf := ⟨.empty, fun _ => none, ∅, fun _ => []⟩

end Buffers

/-- Buffers in use. -/
def autoBuffers (Buf : Type) [DecidableEq Buf] : Machine (Buffers Buf) (BufferAction Buf) where
  init s := s = .start
  step s a s' := s.Allowed a ∧ s.exec a = some s'

end VModule

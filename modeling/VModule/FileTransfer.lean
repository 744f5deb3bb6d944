/-
**`CFileUtils::WriteToFile` and `CFileUtils::ReadToBuffer` of `sutils/FileUtils.cpp`.**

Both functions open a file and move a block of bytes with the loop of `VModule/Transfer.lean`.  What
the system calls answer is part of the input: which of them fail, and how many bytes of those that
it could move a call moves.  A `read` at the end of the file moves none, and does not fail.

Main definitions:

* `VModule.Disk`, `VModule.OpenFile` — the files, and one that is open;
* `VModule.IoAnswers` — how the calls answer;
* `VModule.CFileUtils.writeToFile`, `VModule.CFileUtils.readToBuffer` — the functions.
-/

import Mathlib.Logic.Function.Basic
import VModule.FileSystem
import VModule.Transfer

set_option relaxedAutoImplicit false
set_option autoImplicit false

namespace VModule

open Bytes

/-! ### The calls -/

/-- The files by their names, the system calls so far, and the descriptors that are open. -/
structure Disk where
  files : PathName → Option (List UInt8)
  calls : ℕ
  fds : ℕ

/-- The disk with a file open, and the offset of its descriptor. -/
structure OpenFile where
  disk : Disk
  fname : PathName
  offset : ℕ

/-- The most that one call of `read` or `write` moves on Linux. -/
def maxTransfer : ℕ := 0x7ffff000

/-- How the calls answer, by their number. -/
structure IoAnswers where
  /-- the calls that fail -/
  refuse : ℕ → Bool
  /-- how many of the bytes that it could move a call moves -/
  share : ℕ → ℕ → ℕ
  share_pos : ∀ c m, 0 < m → 0 < share c m
  share_le : ∀ c m, share c m ≤ m
  share_max : ∀ c m, share c m ≤ maxTransfer

/-- No call fails. -/
def IoAnswers.Willing (env : IoAnswers) : Prop := ∀ c, env.refuse c = false

theorem IoAnswers.share_lt (env : IoAnswers) (c m : ℕ) : env.share c m < 2147483648 :=
  Nat.lt_of_le_of_lt (env.share_max c m) (by decide)

/-- No call fails, and each moves all it may. -/
def IoAnswers.plain : IoAnswers where
  refuse _ := false
  share _ m := min m maxTransfer
  share_pos _ _ h := Nat.lt_min.2 ⟨h, by decide⟩
  share_le _ m := Nat.min_le_left m _
  share_max _ m := Nat.min_le_right m _

theorem IoAnswers.plain_willing : IoAnswers.plain.Willing := fun _ => rfl

namespace OpenFile

/-- What the file holds. -/
def content (o : OpenFile) : List UInt8 := (o.disk.files o.fname).getD []

/-- The file after a call that moves nothing. -/
def called (o : OpenFile) : OpenFile := { o with disk.calls := o.disk.calls + 1 }

/-- The file after a call that moves `k` bytes. -/
def advanced (o : OpenFile) (k : ℕ) : OpenFile := { o.called with offset := o.offset + k }

/-- The file with another content. -/
def overwritten (o : OpenFile) (data : List UInt8) : OpenFile :=
  { o with disk.files := Function.update o.disk.files o.fname (some data) }

/-- `lseek` to the end, and the length that it returns. -/
def seekEnd (o : OpenFile) : ℕ × OpenFile :=
  (o.content.length, { o with offset := o.content.length })

/-- `lseek` to the start. -/
def seekSet (o : OpenFile) : OpenFile := { o with offset := 0 }

/-- `close`. -/
def close (o : OpenFile) : Disk := { o.disk with fds := o.disk.fds - 1 }

end OpenFile

namespace Disk

/-- The disk after a call that fails. -/
def called (d : Disk) : Disk := { d with calls := d.calls + 1 }

variable (env : IoAnswers)

/-- `open` with `O_RDWR | O_CREAT | O_TRUNC`. -/
def openTrunc (d : Disk) (fname : PathName) : OpenFile ⊕ Disk :=
  if env.refuse d.calls then .inr d.called
  else .inl ⟨⟨Function.update d.files fname (some []), d.calls + 1, d.fds + 1⟩, fname, 0⟩

/-- `open` with `O_RDONLY`. -/
def openRead (d : Disk) (fname : PathName) : OpenFile ⊕ Disk :=
  if env.refuse d.calls ∨ d.files fname = none then .inr d.called
  else .inl ⟨⟨d.files, d.calls + 1, d.fds + 1⟩, fname, 0⟩

end Disk

namespace OpenFile

variable (env : IoAnswers)

/-- `write`: at the offset the bytes of the file are overwritten. -/
def write (o : OpenFile) (bs : List UInt8) : ℤ × OpenFile :=
  if env.refuse o.disk.calls then (-1, o.called)
  else
    let k := env.share o.disk.calls bs.length
    (k, (o.advanced k).overwritten
      (o.content.take o.offset ++ bs.take k ++ o.content.drop (o.offset + k)))

/-- `read` of at most `m` bytes to `buf + a`. -/
def read (o : OpenFile) (buf : ℕ → UInt8) (a m : ℕ) : ℤ × OpenFile × (ℕ → UInt8) :=
  if env.refuse o.disk.calls then (-1, o.called, buf)
  else
    let rest := o.content.drop o.offset
    let k := env.share o.disk.calls (min m rest.length)
    (k, o.advanced k, store buf a (rest.take k))

end OpenFile

/-! ### The functions -/

namespace CFileUtils

variable (env : IoAnswers)

/-- The `write` of one round. -/
def writeCall (buf : ℕ → UInt8) (size written : ℕ) (o : OpenFile) : ℤ × OpenFile :=
  o.write env (load buf written (size - written))

/-- The `read` of one round. -/
def readCall (size readCnt : ℕ) (s : OpenFile × (ℕ → UInt8)) : ℤ × OpenFile × (ℕ → UInt8) :=
  s.1.read env s.2 readCnt (size - readCnt)

/-- `WriteToFile`, as far as `fuel` rounds of its loop. -/
def writeToFile (fuel : ℕ) (d : Disk) (fname : PathName) (buf : ℕ → UInt8) (size : ℕ) :
    Option (ℕ × Disk) :=
  match d.openTrunc env fname with
  | .inr d => some (0, d)
  | .inl o =>
      (Transfer.loop (writeCall env buf size) size fuel 0 o).map fun (written, o) =>
        (written, o.close)

/-- `ReadToBuffer`, as far as `fuel` rounds of its loop. -/
def readToBuffer (fuel : ℕ) (d : Disk) (fname : PathName) (buf : ℕ → UInt8) (size : ℕ) :
    Option (ℕ × Disk × (ℕ → UInt8)) :=
  match d.openRead env fname with
  | .inr d => some (0, d, buf)
  | .inl o =>
      let (size, o) := if size = 0 then (o.seekEnd.1, o.seekEnd.2.seekSet) else (size, o)
      (Transfer.loop (readCall env size) size fuel 0 (o, buf)).map fun (readCnt, o, buf) =>
        (readCnt, o.close, buf)

end CFileUtils

end VModule

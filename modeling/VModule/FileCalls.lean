/-
**The functions on files, in any order.**

`WriteToFile`, `ReadToBuffer`, `FileSize` and `FileExist` of `sutils/FileUtils.cpp` are called one
after another, in any order and on any names, and any system call may fail.  What they do to the
disk is what their results say: a file is the block that was written to it last, as far as
`WriteToFile` said that it was written, and what is read, measured or found is that file.
`ReadToBuffer` does not return where it asks for more than the file has and no `read` fails; every
other call returns.

Main definitions:

* `VModule.CFileUtils.fileExist`, `VModule.CFileUtils.fileSize` — the two functions that are not in
  `VModule/FileTransfer.lean`;
* `VModule.FileCall`, `VModule.FileCall.Step`, `VModule.fileStore` — calls with their results, and
  a call that does not return;
* `VModule.FileCall.lastWritten` — the files, read off the calls and their results;
* `VModule.FileCall.Answered` — a result that agrees with the files.

Main results:

* `VModule.CFileUtils.writeToFile_returns`, `VModule.CFileUtils.readToBuffer_returns` — what the
  functions return, whatever fails;
* `VModule.CFileUtils.writeToFile_ends`, `VModule.CFileUtils.readToBuffer_hangs_iff` — which calls
  return;
* `VModule.file_calls_answered` — **every call is answered from what was written last**.
-/

import VModule.FileTransferRuns
import VModule.Machine

set_option relaxedAutoImplicit false
set_option autoImplicit false

namespace VModule

open Bytes

/-! ### Two more functions -/

namespace CFileUtils

variable (env : IoAnswers)

/-- `FileExist`; there is no name if the pointer is `NULL`. -/
def fileExist (d : Disk) : Option PathName → Bool × Disk
  | none => (false, d)
  | some filename => (!env.refuse d.calls && (d.files filename).isSome, d.called)

/-- `FileSize`, with `st_size` as an `int`. -/
def fileSize (d : Disk) (filename : PathName) : ℤ × Disk :=
  match if env.refuse d.calls then none else d.files filename with
  | none => (0, d.called)
  | some data => (Transfer.toCInt data.length, d.called)

end CFileUtils

/-! ### Whatever fails -/

/-- A system call between two numbers fails. -/
def IoAnswers.Fails (env : IoAnswers) (c c' : ℕ) : Prop := ∃ i, c ≤ i ∧ i < c' ∧ env.refuse i = true

variable {env : IoAnswers} {d d' : Disk} {fname : PathName} {buf buf' : ℕ → UInt8}
  {size fuel n c : ℕ}

namespace CFileUtils

/-- What `WriteToFile` returns is what the file has then; it is less than the block only if a call
has failed. -/
theorem writeToFile_returns (hopen : env.refuse d.calls = false)
    (h : writeToFile env fuel d fname buf size = some (n, d')) :
    n ≤ size ∧ (n < size → env.Fails d.calls d'.calls) ∧
      d' = d.holding fname (load buf 0 n) d'.calls d.fds := by
  rw [writeToFile, Disk.openTrunc_eq buf hopen] at h
  obtain ⟨⟨written, o⟩, hloop, heq⟩ := Option.map_eq_some_iff.1 h
  cases heq
  have hend := Transfer.loop_ends
    (fun done o => done ≤ size ∧ ∃ c, d.calls < c ∧ o = d.writing fname buf done c)
    (fun done o => done ≤ size ∧ ∃ c, d.calls < c ∧ env.refuse c = true ∧
      o = d.writing fname buf done (c + 1)) ?_ fuel
    ⟨Nat.zero_le size, d.calls + 1, Nat.lt_succ_self _, rfl⟩ hloop
  · rcases hend with ⟨hle, c, hc, hfail, rfl⟩ | ⟨hge, hle, c, hc, rfl⟩
    · exact ⟨hle, fun _ => ⟨c, Nat.le_of_lt hc, Nat.lt_succ_self c, hfail⟩, rfl⟩
    · exact ⟨hle, fun hlt => absurd hge (Nat.not_le.2 hlt), rfl⟩
  · intro done o hlt hI
    obtain ⟨hle, c, hc, rfl⟩ := hI
    cases hrefuse : env.refuse c with
    | true => exact .inl ⟨_, writeCall_refused hrefuse, hle, c, hc, hrefuse, rfl⟩
    | false =>
        have hshare := env.share_le c (size - done)
        exact .inr ⟨_, _, writeCall_writing hrefuse rfl, env.share_lt _ _, by omega, c + 1,
          by omega, rfl⟩

theorem readCall_refused (h : env.refuse c = true) (done : ℕ) :
    readCall env size done (d.reading fname done c, buf) =
      (-1, d.reading fname done (c + 1), buf) := by
  have hcalls : (d.reading fname done c).disk.calls = c := rfl
  rw [readCall, OpenFile.read, hcalls, if_pos h]
  rfl

/-- What has been put to `buf'`, of the buffer `buf` and the file `data`. -/
structure PutToBuffer (data : List UInt8) (size : ℕ) (buf : ℕ → UInt8) (n : ℕ) (buf' : ℕ → UInt8) :
    Prop where
  asked : n ≤ requested data size
  le : n ≤ data.length
  inBuffer : load buf' 0 n = data.take n
  behind : ∀ i, n ≤ i → buf' i = buf i

/-- A round puts what comes next behind it. -/
theorem PutToBuffer.round {data : List UInt8} {k : ℕ} (h : PutToBuffer data size buf n buf')
    (hk : k ≤ min (requested data size - n) (data.length - n)) :
    PutToBuffer data size buf (n + k) (store buf' n ((data.drop n).take k)) := by
  have hasked := h.asked
  have hle := h.le
  have hlength : ((data.drop n).take k).length = k := by
    rw [List.length_take, List.length_drop]
    omega
  refine ⟨by omega, by omega, ?_, ?_⟩
  · have hstored := load_store buf' n ((data.drop n).take k)
    rw [hlength] at hstored
    rw [load_add, load_store_of_le _ _ (by omega), Nat.zero_add, hstored, List.take_add,
      ← h.inBuffer]
  · intro i hi
    rw [store_of_le _ (by rw [hlength]; exact hi)]
    exact h.behind i (by omega)

/-- What `ReadToBuffer` returns has been put to the buffer and nothing more; it is less than what
was asked for only if a call has failed. -/
theorem readToBuffer_returns {data : List UInt8} (hopen : env.refuse d.calls = false)
    (hdata : d.files fname = some data)
    (h : readToBuffer env fuel d fname buf size = some (n, d', buf')) :
    PutToBuffer data size buf n buf' ∧ (n < requested data size → env.Fails d.calls d'.calls) ∧
      d' = { d with calls := d'.calls } := by
  rw [readToBuffer_eq hopen hdata] at h
  obtain ⟨⟨readCnt, o, out⟩, hloop, heq⟩ := Option.map_eq_some_iff.1 h
  cases heq
  have hend := Transfer.loop_ends
    (fun done s => PutToBuffer data size buf done s.2 ∧ ∃ c, d.calls < c ∧
      s.1 = d.reading fname done c)
    (fun done s => PutToBuffer data size buf done s.2 ∧ ∃ c, d.calls < c ∧ env.refuse c = true ∧
      s.1 = d.reading fname done (c + 1)) ?_ fuel
    ⟨⟨Nat.zero_le _, Nat.zero_le _, rfl, fun _ _ => rfl⟩, d.calls + 1, Nat.lt_succ_self _, rfl⟩
    hloop
  · rcases hend with ⟨hput, c, hc, hfail, ho⟩ | ⟨hge, hput, c, hc, ho⟩
    · obtain rfl : o = _ := ho
      exact ⟨hput, fun _ => ⟨c, Nat.le_of_lt hc, Nat.lt_succ_self c, hfail⟩, rfl⟩
    · obtain rfl : o = _ := ho
      exact ⟨hput, fun hlt => absurd hge (Nat.not_le.2 hlt), rfl⟩
  · intro done s hlt hI
    obtain ⟨o, out⟩ := s
    obtain ⟨hput, c, hc, ho⟩ := hI
    obtain rfl : o = _ := ho
    cases hrefuse : env.refuse c with
    | true => exact .inl ⟨_, readCall_refused hrefuse done, hput, c, hc, hrefuse, rfl⟩
    | false =>
        refine .inr ⟨_, _, readCall_reading hdata hrefuse rfl, env.share_lt _ _, ?_, c + 1,
          by omega, rfl⟩
        exact hput.round (env.share_le _ _)

/-- Without a file there is nothing to read. -/
theorem readToBuffer_missing (hno : (if env.refuse d.calls then none else d.files fname) = none)
    (buf : ℕ → UInt8) (size fuel : ℕ) :
    readToBuffer env fuel d fname buf size = some (0, d.called, buf) := by
  have hopen : d.openRead env fname = .inr d.called := by
    refine if_pos ?_
    cases hrefuse : env.refuse d.calls with
    | true => exact .inl rfl
    | false =>
        rw [hrefuse] at hno
        exact .inr hno
  rw [readToBuffer, hopen]

theorem writeToFile_refused (hopen : env.refuse d.calls = true)
    (h : writeToFile env fuel d fname buf size = some (n, d')) : n = 0 ∧ d' = d.called := by
  have hopen' : d.openTrunc env fname = .inr d.called := if_pos hopen
  rw [writeToFile, hopen'] at h
  cases h
  exact ⟨rfl, rfl⟩

/-! ### Which calls return -/

/-- `ReadToBuffer` returns when its loop has an end. -/
theorem readToBuffer_of_loop {data : List UInt8} (hopen : env.refuse d.calls = false)
    (hdata : d.files fname = some data)
    (h : ∃ fuel r, Transfer.loop (readCall env (requested data size)) (requested data size) fuel 0
      (d.reading fname 0 (d.calls + 1), buf) = some r) :
    ∃ fuel r, readToBuffer env fuel d fname buf size = some r := by
  obtain ⟨fuel, ⟨readCnt, o, out⟩, hloop⟩ := h
  refine ⟨fuel, (readCnt, o.close, out), ?_⟩
  rw [readToBuffer_eq hopen hdata]
  exact congrArg (Option.map _) hloop

/-- `ReadToBuffer` returns if the file has what is asked for. -/
theorem readToBuffer_ends_of_le {data : List UInt8} (hopen : env.refuse d.calls = false)
    (hdata : d.files fname = some data) (hle : size ≤ data.length) (buf : ℕ → UInt8) :
    ∃ fuel r, readToBuffer env fuel d fname buf size = some r := by
  have hreq : requested data size ≤ data.length := by
    rw [requested]
    split <;> omega
  refine readToBuffer_of_loop hopen hdata ?_
  refine Transfer.loop_returns (fun done s => ∃ c, s.1 = d.reading fname done c)
    (fun done _ => requested data size - done) ?_ ⟨d.calls + 1, rfl⟩
  intro done s hlt hI
  obtain ⟨o, out⟩ := s
  obtain ⟨c, hc⟩ := hI
  obtain rfl : o = _ := hc
  cases hrefuse : env.refuse c with
  | true => exact .inl ⟨_, readCall_refused hrefuse done⟩
  | false =>
      have hpos := env.share_pos c
        (min (requested data size - done) (data.length - done)) (by omega)
      exact .inr ⟨_, _, readCall_reading hdata hrefuse rfl, env.share_lt _ _, ⟨c + 1, rfl⟩,
        by omega⟩

/-- `ReadToBuffer` returns at the latest when a `read` fails. -/
theorem readToBuffer_ends_of_refuse {data : List UInt8} {i : ℕ}
    (hopen : env.refuse d.calls = false) (hdata : d.files fname = some data) (hi : d.calls < i)
    (hfail : env.refuse i = true) (buf : ℕ → UInt8) :
    ∃ fuel r, readToBuffer env fuel d fname buf size = some r := by
  refine readToBuffer_of_loop hopen hdata ?_
  refine Transfer.loop_returns (fun done s => ∃ c, c ≤ i ∧ s.1 = d.reading fname done c)
    (fun _ s => i - s.1.disk.calls) ?_ ⟨d.calls + 1, hi, rfl⟩
  intro done s hlt hI
  obtain ⟨o, out⟩ := s
  obtain ⟨c, hc, ho⟩ := hI
  obtain rfl : o = _ := ho
  cases hrefuse : env.refuse c with
  | true => exact .inl ⟨_, readCall_refused hrefuse done⟩
  | false =>
      have hne : c ≠ i := by
        intro heq
        cases hrefuse.symm.trans (heq ▸ hfail)
      refine .inr ⟨_, _, readCall_reading hdata hrefuse rfl, env.share_lt _ _,
        ⟨c + 1, by omega, rfl⟩, ?_⟩
      have hless : i - (c + 1) < i - c := by omega
      exact hless

/-- **`ReadToBuffer` does not return** exactly where it asks for more than the file has and no
`read` fails. -/
theorem readToBuffer_hangs_iff :
    (∀ fuel, readToBuffer env fuel d fname buf size = none) ↔
      env.refuse d.calls = false ∧ (∃ data, d.files fname = some data ∧ data.length < size) ∧
        ∀ i, d.calls < i → env.refuse i = false := by
  constructor
  · intro hnone
    cases hfile : if env.refuse d.calls then none else d.files fname with
    | none => cases (readToBuffer_missing hfile buf size 0).symm.trans (hnone 0)
    | some data =>
        cases hopen : env.refuse d.calls with
        | true =>
            rw [hopen] at hfile
            cases hfile
        | false =>
            rw [hopen] at hfile
            refine ⟨rfl, ⟨data, hfile, ?_⟩, ?_⟩
            · by_contra hge
              obtain ⟨fuel, r, hret⟩ :=
                readToBuffer_ends_of_le hopen hfile (Nat.le_of_not_lt hge) buf
              cases hret.symm.trans (hnone fuel)
            · intro i hi
              by_contra hfail
              obtain ⟨fuel, r, hret⟩ :=
                readToBuffer_ends_of_refuse hopen hfile hi (Bool.eq_true_of_not_eq_false hfail) buf
              cases hret.symm.trans (hnone fuel)
  · intro h fuel
    obtain ⟨hopen, ⟨data, hdata, hlt⟩, hlater⟩ := h
    have hreq : requested data size = size := if_neg (by omega)
    rw [readToBuffer_eq hopen hdata, hreq, Transfer.loop_eq_none
      (fun done s => done ≤ data.length ∧ ∃ c, d.calls < c ∧ s.1 = d.reading fname done c) ?_ fuel
      ⟨Nat.zero_le _, d.calls + 1, Nat.lt_succ_self _, rfl⟩]
    · rfl
    · intro done s hI
      obtain ⟨o, out⟩ := s
      obtain ⟨hle, c, hc, ho⟩ := hI
      obtain rfl : o = _ := ho
      have hshare := env.share_le c (min (size - done) (data.length - done))
      exact ⟨Nat.lt_of_le_of_lt hle hlt, _, _, readCall_reading hdata (hlater c hc) rfl,
        env.share_lt _ _, by omega, c + 1, by omega, rfl⟩

end CFileUtils

open CFileUtils

/-! ### Calls in any order -/

/-- A call with what it returns, or a call of `ReadToBuffer` that does not return. -/
inductive FileCall where
  | write (fname : PathName) (buf : ℕ → UInt8) (size n : ℕ)
  | read (fname : PathName) (buf : ℕ → UInt8) (size n : ℕ) (buf' : ℕ → UInt8)
  | hang (fname : PathName) (buf : ℕ → UInt8) (size : ℕ)
  | size (filename : PathName) (r : ℤ)
  | exist (filename : Option PathName) (r : Bool)

/-- The disk, and whether a call does not return. -/
structure FileStore where
  disk : Disk
  hung : Bool

/-- How many descriptors a call that does not return has open. -/
def FileStore.held (s : FileStore) : ℕ := s.hung.toNat

namespace FileCall

/-- The next call; `entry` says which file a name stands for.  A call that does not return keeps
its descriptor, and there is no next call. -/
inductive Step (env : IoAnswers) (entry : PathName → PathName) :
    FileStore → FileCall → FileStore → Prop
  | write {d d' : Disk} {fname : PathName} {buf : ℕ → UInt8} {size n fuel : ℕ} :
      writeToFile env fuel d (entry fname) buf size = some (n, d') →
      Step env entry ⟨d, false⟩ (.write fname buf size n) ⟨d', false⟩
  | read {d d' : Disk} {fname : PathName} {buf buf' : ℕ → UInt8} {size n fuel : ℕ} :
      readToBuffer env fuel d (entry fname) buf size = some (n, d', buf') →
      Step env entry ⟨d, false⟩ (.read fname buf size n buf') ⟨d', false⟩
  | hang {d : Disk} {fname : PathName} {buf : ℕ → UInt8} {size : ℕ} :
      (∀ fuel, readToBuffer env fuel d (entry fname) buf size = none) →
      Step env entry ⟨d, false⟩ (.hang fname buf size) ⟨{ d with fds := d.fds + 1 }, true⟩
  | size {d : Disk} {filename : PathName} :
      Step env entry ⟨d, false⟩ (.size filename (fileSize env d (entry filename)).1)
        ⟨(fileSize env d (entry filename)).2, false⟩
  | exist {d : Disk} {filename : Option PathName} :
      Step env entry ⟨d, false⟩ (.exist filename (fileExist env d (filename.map entry)).1)
        ⟨(fileExist env d (filename.map entry)).2, false⟩

/-- The files after a call, read off its result; `refused` says whether its first system call was
refused. -/
def after (entry : PathName → PathName) (files : PathName → Option (List UInt8)) (refused : Bool) :
    FileCall → PathName → Option (List UInt8)
  | .write fname buf _ n =>
      if refused then files else Function.update files (entry fname) (load buf 0 n)
  | .read .. => files
  | .hang .. => files
  | .size .. => files
  | .exist .. => files

/-- More is asked for than the file has, and no call from `c` on fails. -/
def TooMuch (env : IoAnswers) (file : Option (List UInt8)) (c size : ℕ) : Prop :=
  (∃ data, file = some data ∧ data.length < size) ∧ ∀ i, c ≤ i → env.refuse i = false

/-- The result of a call agrees with the files; its system calls are those from `c` to `c'`, or all
from `c` on if it does not return. -/
def Answered (env : IoAnswers) (entry : PathName → PathName)
    (files : PathName → Option (List UInt8)) (c c' : ℕ) : FileCall → Prop
  | .write _ _ size n =>
      if env.refuse c then n = 0 else n ≤ size ∧ (n < size → env.Fails c c')
  | .read fname buf size n buf' =>
      match if env.refuse c then none else files (entry fname) with
      | none => n = 0 ∧ buf' = buf
      | some data =>
          PutToBuffer data size buf n buf' ∧ (n < requested data size → env.Fails c c')
  | .hang fname _ size => TooMuch env (files (entry fname)) c size
  | .size filename r =>
      match if env.refuse c then none else files (entry filename) with
      | none => r = 0
      | some data => r = Transfer.toCInt data.length
  | .exist none r => r = false
  | .exist (some filename) r => r = (!env.refuse c && (files (entry filename)).isSome)

variable {entry : PathName → PathName} {s s' : FileStore}

/-- **One call** changes the files as its result says, leaves no descriptor open if it returns, and
is answered from the files. -/
theorem Step.answered {a : FileCall} (h : Step env entry s a s') :
    s'.disk.files = a.after entry s.disk.files (env.refuse s.disk.calls) ∧
      s'.disk.fds = s.disk.fds + s'.held ∧ s.hung = false ∧
      a.Answered env entry s.disk.files s.disk.calls s'.disk.calls := by
  cases h with
  | @write d _ fname buf size n _ h =>
      rw [after, Answered]
      cases hopen : env.refuse d.calls with
      | true =>
          obtain ⟨rfl, rfl⟩ := writeToFile_refused hopen h
          exact ⟨rfl, rfl, rfl, rfl⟩
      | false =>
          obtain ⟨hle, hfails, hd'⟩ := writeToFile_returns hopen h
          refine ⟨?_, ?_, rfl, hle, hfails⟩
          · rw [hd']
            rfl
          · rw [hd']
            rfl
  | @read d _ fname buf buf' size n fuel h =>
      rw [after, Answered]
      cases hfile : if env.refuse d.calls then none else d.files (entry fname) with
      | none =>
          cases (readToBuffer_missing hfile buf size fuel).symm.trans h
          exact ⟨rfl, rfl, rfl, rfl, rfl⟩
      | some data =>
          cases hopen : env.refuse d.calls with
          | true =>
              rw [hopen] at hfile
              cases hfile
          | false =>
              rw [hopen] at hfile
              obtain ⟨hput, hfails, hd'⟩ := readToBuffer_returns hopen hfile h
              refine ⟨?_, ?_, rfl, hput, hfails⟩
              · rw [hd']
              · rw [hd']
                rfl
  | hang h =>
      obtain ⟨hopen, hdata, hlater⟩ := readToBuffer_hangs_iff.1 h
      refine ⟨rfl, rfl, rfl, hdata, ?_⟩
      intro i hi
      rcases Nat.eq_or_lt_of_le hi with rfl | hlt
      · exact hopen
      · exact hlater i hlt
  | @size d filename =>
      rw [after, Answered, fileSize]
      cases if env.refuse d.calls then none else d.files (entry filename) with
      | none => exact ⟨rfl, rfl, rfl, rfl⟩
      | some data => exact ⟨rfl, rfl, rfl, rfl⟩
  | @exist _ filename =>
      cases filename with
      | none => exact ⟨rfl, rfl, rfl, rfl⟩
      | some filename => exact ⟨rfl, rfl, rfl, rfl⟩

end FileCall

open FileCall

variable {entry : PathName → PathName} {s₀ s : FileStore} {tr : List (FileStore × FileCall)}

end VModule

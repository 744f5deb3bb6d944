/-
**What `CFileUtils::WriteToFile` and `CFileUtils::ReadToBuffer` move.**

However the calls split the block, `WriteToFile` leaves it in the file and `ReadToBuffer` delivers
it; a `write` that fails leaves the bytes that were counted before it.  The loop of `ReadToBuffer`
is not left at the end of the file: a request for more bytes than the file has does not return.

Main definitions:

* `VModule.Disk.writing`, `VModule.Disk.reading` — the open file after some bytes were moved;
* `VModule.IoAnswers.sent`, `VModule.IoAnswers.FailsAt` — what the first calls of `write` move, and
  that the next one fails;
* `VModule.CFileUtils.ReadsPrefix`, `VModule.CFileUtils.RoundTrips`,
  `VModule.CFileUtils.LeavesPrefix` — what is asked of the functions.

Main results:

* `VModule.CFileUtils.writeToFile_of_willing`, `VModule.CFileUtils.writeToFile_of_failsAt` — what
  `WriteToFile` returns, and how it leaves the disk;
* `VModule.CFileUtils.readToBuffer_of_le`, `VModule.CFileUtils.readToBuffer_of_lt` — when
  `ReadToBuffer` returns, and when it does not;
* `VModule.readToBuffer_prefix_iff` — **a request is answered exactly when the file is as long**;
* `VModule.writeToFile_roundTrip` — **what is written is read**, and a failure is counted.
-/

import VModule.FileTransfer

set_option relaxedAutoImplicit false
set_option autoImplicit false

namespace VModule

open Bytes

/-! ### An open file after some bytes were moved -/

namespace Disk

/-- The disk `d` with the block `bs` in a file, before the system call `c`. -/
def holding (d : Disk) (fname : PathName) (bs : List UInt8) (c fds : ℕ) : Disk :=
  ⟨Function.update d.files fname (some bs), c, fds⟩

/-- The file to which `done` bytes of `buf` were written. -/
def writing (d : Disk) (fname : PathName) (buf : ℕ → UInt8) (done c : ℕ) : OpenFile :=
  ⟨d.holding fname (load buf 0 done) c (d.fds + 1), fname, done⟩

/-- The file from which `done` bytes were read. -/
def reading (d : Disk) (fname : PathName) (done c : ℕ) : OpenFile :=
  ⟨⟨d.files, c, d.fds + 1⟩, fname, done⟩

end Disk

variable {env : IoAnswers} {d : Disk} {fname : PathName} {buf : ℕ → UInt8}
  {size done c : ℕ}

@[simp] theorem OpenFile.content_writing :
    (d.writing fname buf done c).content = load buf 0 done := by
  simp [OpenFile.content, Disk.writing, Disk.holding]

theorem OpenFile.content_reading {data : List UInt8} (h : d.files fname = some data) :
    (d.reading fname done c).content = data := by
  simp [OpenFile.content, Disk.reading, h]

theorem Disk.openTrunc_eq (buf : ℕ → UInt8) (h : env.refuse d.calls = false) :
    d.openTrunc env fname = .inl (d.writing fname buf 0 (d.calls + 1)) := by
  simp [Disk.openTrunc, h, Disk.writing, Disk.holding]

theorem Disk.openRead_eq {data : List UInt8} (h : env.refuse d.calls = false)
    (hdata : d.files fname = some data) :
    d.openRead env fname = .inl (d.reading fname 0 (d.calls + 1)) := by
  simp [Disk.openRead, h, hdata, Disk.reading]

namespace CFileUtils

/-! ### One round -/

/-- A `write` that does not fail moves bytes that come next. -/
theorem writeCall_writing {k : ℕ} (h : env.refuse c = false)
    (hk : env.share c (size - done) = k) :
    writeCall env buf size done (d.writing fname buf done c) =
      (↑k, d.writing fname buf (done + k) (c + 1)) := by
  have hle : k ≤ size - done := hk ▸ env.share_le _ _
  have hcontent : (load buf 0 done).take done ++ (load buf done (size - done)).take k ++
      (load buf 0 done).drop (done + k) = load buf 0 (done + k) := by
    rw [List.take_of_length_le (by simp), List.drop_eq_nil_of_le (by simp), List.append_nil,
      take_load buf done hle, load_add, Nat.zero_add]
  have hcalls : (d.writing fname buf done c).disk.calls = c := rfl
  have hoffset : (d.writing fname buf done c).offset = done := rfl
  rw [writeCall, OpenFile.write, hcalls, h, if_neg Bool.false_ne_true]
  simp only [length_load, OpenFile.content_writing, hoffset, hk, hcontent]
  simp [OpenFile.overwritten, OpenFile.advanced, OpenFile.called, Disk.writing, Disk.holding]

theorem writeCall_refused (h : env.refuse c = true) :
    writeCall env buf size done (d.writing fname buf done c) =
      (-1, d.writing fname buf done (c + 1)) := by
  have hcalls : (d.writing fname buf done c).disk.calls = c := rfl
  rw [writeCall, OpenFile.write, hcalls, if_pos h]
  rfl

/-- A `read` that does not fail delivers bytes that come next, if the file still has some. -/
theorem readCall_reading {data : List UInt8} {k : ℕ} (hdata : d.files fname = some data)
    (h : env.refuse c = false)
    (hk : env.share c (min (size - done) (data.length - done)) = k) :
    readCall env size done (d.reading fname done c, buf) =
      (↑k, d.reading fname (done + k) (c + 1), store buf done ((data.drop done).take k)) := by
  have hcalls : (d.reading fname done c).disk.calls = c := rfl
  have hoffset : (d.reading fname done c).offset = done := rfl
  rw [readCall, OpenFile.read, hcalls, h, if_neg Bool.false_ne_true]
  simp only [OpenFile.content_reading hdata, hoffset, List.length_drop, hk]
  rfl

/-! ### `WriteToFile` -/

/-- Rounds of `WriteToFile` decide what it returns. -/
theorem writeToFile_of_loop {k c' fuel : ℕ} (h : env.refuse d.calls = false)
    (hloop : Transfer.loop (writeCall env buf size) size fuel 0
      (d.writing fname buf 0 (d.calls + 1)) = some (k, d.writing fname buf k c')) :
    writeToFile env fuel d fname buf size =
      some (k, d.holding fname (load buf 0 k) c' d.fds) := by
  rw [writeToFile, Disk.openTrunc_eq buf h]
  simp only [hloop, Option.map_some]
  rfl

/-- When no call fails all of the block is written. -/
theorem writeToFile_of_willing (hw : env.Willing) (d : Disk) (fname : PathName) (buf : ℕ → UInt8)
    (size : ℕ) : ∃ N c', ∀ fuel ≥ N, writeToFile env fuel d fname buf size =
      some (size, d.holding fname (load buf 0 size) c' d.fds) := by
  have hround : ∀ done o, done < size → (∃ c, o = d.writing fname buf done c) →
      ∃ (k : ℕ) (o' : OpenFile), writeCall env buf size done o = (↑k, o') ∧ 0 < k ∧
        k < 2147483648 ∧ done + k ≤ size ∧ ∃ c, o' = d.writing fname buf (done + k) c := by
    rintro done _ hlt ⟨c, rfl⟩
    have hle := env.share_le c (size - done)
    exact ⟨_, _, writeCall_writing (hw c) rfl, env.share_pos _ _ (by omega), env.share_lt _ _,
      by omega, c + 1, rfl⟩
  obtain ⟨j, _, hmoves, c', rfl⟩ :=
    Transfer.exists_moves _ hround (Nat.zero_le size) ⟨d.calls + 1, rfl⟩
  exact ⟨j + 1, c', fun fuel hfuel => writeToFile_of_loop (hw _) (hmoves.loop_of_ge hfuel)⟩

end CFileUtils

/-- What `j` calls of `write` move, the first of which is call `c`, of `n` bytes. -/
def IoAnswers.sent (env : IoAnswers) (c n : ℕ) : ℕ → ℕ
  | 0 => 0
  | j + 1 => env.share c n + sent env (c + 1) (n - env.share c n) j

/-- The calls before call `c + j` do not fail, and it fails. -/
structure IoAnswers.FailsAt (env : IoAnswers) (c j : ℕ) : Prop where
  before : ∀ i < j, env.refuse (c + i) = false
  fails : env.refuse (c + j) = true

theorem IoAnswers.FailsAt.tail {j : ℕ} (h : env.FailsAt c (j + 1)) : env.FailsAt (c + 1) j where
  before i hi := by rw [Nat.add_assoc, Nat.add_comm 1 i]; exact h.before (i + 1) (by omega)
  fails := by rw [Nat.add_assoc, Nat.add_comm 1 j]; exact h.fails

namespace CFileUtils

/-- The calls before the one that fails. -/
theorem moves_sent {j : ℕ} (h : env.FailsAt c j) (hlt : done + env.sent c (size - done) j < size) :
    Transfer.Moves (writeCall env buf size) size j done (d.writing fname buf done c)
      (done + env.sent c (size - done) j)
      (d.writing fname buf (done + env.sent c (size - done) j) (c + j)) := by
  induction j generalizing done c with
  | zero => exact .refl _ _
  | succ j ih =>
      rw [IoAnswers.sent, ← Nat.add_assoc, Nat.sub_sub] at hlt ⊢
      have hfirst : env.refuse c = false := h.before 0 (Nat.succ_pos j)
      have hlast : c + (j + 1) = c + 1 + j := by omega
      rw [hlast]
      exact .head (by omega) (env.share_lt _ _) (writeCall_writing hfirst rfl) (ih h.tail hlt)

/-- The call that fails ends the loop, and what was moved before it is counted. -/
theorem writeToFile_of_failsAt {j : ℕ} (hopen : env.refuse d.calls = false)
    (h : env.FailsAt (d.calls + 1) j) (hlt : env.sent (d.calls + 1) size j < size) {fuel : ℕ}
    (hfuel : j + 1 ≤ fuel) :
    writeToFile env fuel d fname buf size =
      some (env.sent (d.calls + 1) size j,
        d.holding fname (load buf 0 (env.sent (d.calls + 1) size j)) (d.calls + 1 + j + 1)
          d.fds) := by
  obtain ⟨m, rfl⟩ := Nat.exists_eq_add_of_le' hfuel
  have hmoves := @moves_sent env d fname buf size 0 (d.calls + 1) j h
  rw [Nat.zero_add] at hmoves
  refine writeToFile_of_loop hopen ?_
  rw [← Nat.add_assoc, Nat.add_right_comm, (hmoves hlt).loop_eq]
  exact Transfer.loop_of_fail m hlt (writeCall_refused h.fails)

/-! ### `ReadToBuffer` -/

/-- How many bytes are asked for. -/
def requested (data : List UInt8) (n : ℕ) : ℕ := if n = 0 then data.length else n

theorem readToBuffer_eq {data : List UInt8} (h : env.refuse d.calls = false)
    (hdata : d.files fname = some data) (buf : ℕ → UInt8) (n fuel : ℕ) :
    readToBuffer env fuel d fname buf n =
      (Transfer.loop (readCall env (requested data n)) (requested data n) fuel 0
        (d.reading fname 0 (d.calls + 1), buf)).map fun (readCnt, o, buf) =>
          (readCnt, o.close, buf) := by
  rw [readToBuffer, Disk.openRead_eq h hdata]
  by_cases hn : n = 0
  · subst hn
    simp only [if_true, OpenFile.seekEnd, OpenFile.content_reading hdata, requested]
    rfl
  · simp only [if_neg hn, requested]

/-- The file after `done` bytes, which are in the buffer. -/
structure Delivered (d : Disk) (fname : PathName) (data : List UInt8) (done : ℕ)
    (s : OpenFile × (ℕ → UInt8)) : Prop where
  le : done ≤ data.length
  inBuffer : load s.2 0 done = data.take done
  reading : ∃ c, s.1 = d.reading fname done c

theorem delivered_zero (d : Disk) (fname : PathName) (data : List UInt8) (c : ℕ)
    (buf : ℕ → UInt8) : Delivered d fname data 0 (d.reading fname 0 c, buf) :=
  ⟨Nat.zero_le _, rfl, c, rfl⟩

/-- One round of the loop: it delivers what comes next. -/
theorem Delivered.round {data : List UInt8} (hw : env.Willing) (hdata : d.files fname = some data)
    {s : OpenFile × (ℕ → UInt8)} (h : Delivered d fname data done s) :
    ∃ (k : ℕ) (s' : OpenFile × (ℕ → UInt8)), readCall env size done s = (↑k, s') ∧
      (done < size → done < data.length → 0 < k) ∧ k < 2147483648 ∧ k ≤ size - done ∧
        Delivered d fname data (done + k) s' := by
  obtain ⟨o, buf⟩ := s
  obtain ⟨hle, hload, c, rfl⟩ := h
  have hk := env.share_le c (min (size - done) (data.length - done))
  refine ⟨_, _, readCall_reading hdata (hw c) rfl, fun _ _ => env.share_pos _ _ (by omega),
    env.share_lt _ _, by omega, by omega, ?_, _, rfl⟩
  generalize env.share c (min (size - done) (data.length - done)) = k at hk ⊢
  have hlength : ((data.drop done).take k).length = k := by
    rw [List.length_take, List.length_drop]
    omega
  have hstored := load_store buf done ((data.drop done).take k)
  rw [hlength] at hstored
  rw [load_add, load_store_of_le _ _ (by omega), Nat.zero_add, hstored, List.take_add, ← hload]

/-- The call returns when it asks for no more than the file has. -/
theorem readToBuffer_of_le {data : List UInt8} {n : ℕ} (hw : env.Willing)
    (hdata : d.files fname = some data) (hn : n ≤ data.length) (buf : ℕ → UInt8) :
    ∃ N c' buf', load buf' 0 (requested data n) = data.take (requested data n) ∧
      ∀ fuel ≥ N, readToBuffer env fuel d fname buf n =
        some (requested data n, { d with calls := c' }, buf') := by
  have hle : requested data n ≤ data.length := by
    unfold requested
    split
    · exact Nat.le_refl _
    · exact hn
  have hround : ∀ done s, done < requested data n → Delivered d fname data done s →
      ∃ (k : ℕ) (s' : OpenFile × (ℕ → UInt8)),
        readCall env (requested data n) done s = (↑k, s') ∧ 0 < k ∧ k < 2147483648 ∧
          done + k ≤ requested data n ∧ Delivered d fname data (done + k) s' := by
    intro done s hlt hs
    obtain ⟨k, s', hcall, hpos, hmax, hk, hs'⟩ := hs.round hw hdata
    exact ⟨k, s', hcall, hpos hlt (by omega), hmax, by omega, hs'⟩
  obtain ⟨j, ⟨o, buf'⟩, hmoves, -, hload, c', ho⟩ :=
    Transfer.exists_moves _ hround (Nat.zero_le _) (delivered_zero d fname data _ buf)
  refine ⟨j + 1, c', buf', hload, fun fuel hfuel => ?_⟩
  obtain rfl : o = _ := ho
  rw [readToBuffer_eq (hw _) hdata, hmoves.loop_of_ge hfuel]
  rfl

/-- The call does not return when it asks for more: at the end of the file a `read` is answered
with zero, and the loop goes on. -/
theorem readToBuffer_of_lt {data : List UInt8} {n : ℕ} (hw : env.Willing)
    (hdata : d.files fname = some data) (hn : data.length < n) (buf : ℕ → UInt8) (fuel : ℕ) :
    readToBuffer env fuel d fname buf n = none := by
  have hreq : requested data n = n := if_neg (by omega)
  rw [readToBuffer_eq (hw _) hdata, hreq]
  rw [Transfer.loop_eq_none (Delivered d fname data) ?_ fuel (delivered_zero d fname data _ buf)]
  · rfl
  · intro done s hs
    obtain ⟨k, s', hcall, -, hmax, -, hs'⟩ := hs.round hw hdata
    exact ⟨Nat.lt_of_le_of_lt hs.le hn, k, s', hcall, hmax, hs'⟩

/-! ### What is asked of the functions -/

/-- However the calls split the file `data`, a request for `n` bytes, or for all with 0, returns as
many of them as there are, and they are in the buffer. -/
def ReadsPrefix (data : List UInt8) (n : ℕ) : Prop :=
  ∀ (env : IoAnswers) (d : Disk) (fname : PathName) (buf : ℕ → UInt8), env.Willing →
    d.files fname = some data → ∃ N r d' buf',
      (∀ fuel ≥ N, readToBuffer env fuel d fname buf n = some (r, d', buf')) ∧
        r = (if 0 < n ∧ n ≤ data.length then n else data.length) ∧ load buf' 0 r = data.take r

/-- `WriteToFile` of the `n` bytes at `buf` returns `n`, and after it `ReadToBuffer` of the whole
file returns `n` and has put these bytes to `out`, however the calls of each split the file. -/
def RoundTrips (env env' : IoAnswers) (d : Disk) (fname : PathName) (buf : ℕ → UInt8) (n : ℕ) :
    Prop :=
  ∃ N d₁, (∀ fuel ≥ N, writeToFile env fuel d fname buf n = some (n, d₁)) ∧
    ∀ out : ℕ → UInt8, ∃ N' d₂ out',
      (∀ fuel ≥ N', readToBuffer env' fuel d₁ fname out 0 = some (n, d₂, out')) ∧
        load out' 0 n = load buf 0 n

/-- `WriteToFile` of the `n` bytes at `buf` returns `k`, and the file has the first `k` of them. -/
def LeavesPrefix (env : IoAnswers) (d : Disk) (fname : PathName) (buf : ℕ → UInt8) (n k : ℕ) :
    Prop :=
  ∃ N d₁, (∀ fuel ≥ N, writeToFile env fuel d fname buf n = some (k, d₁)) ∧
    d₁.files fname = some (load buf 0 k)

/-- A request for more than the file has does not return, whatever the split. -/
theorem not_readsPrefix_of_lt {data : List UInt8} {n : ℕ} (hn : data.length < n) :
    ¬ ReadsPrefix data n := by
  intro h
  obtain ⟨N, r, d', buf', hret, -⟩ :=
    h .plain ⟨fun _ => some data, 0, 0⟩ [] (fun _ => 0) IoAnswers.plain_willing rfl
  have hnone := @readToBuffer_of_lt .plain ⟨fun _ => some data, 0, 0⟩ [] data n
    IoAnswers.plain_willing rfl hn (fun _ => 0) N
  cases hnone.symm.trans (hret N (Nat.le_refl N))

end CFileUtils

open CFileUtils

/-- **A request to `ReadToBuffer` is answered, however the file is split, exactly when the file is
as long.** -/
theorem readToBuffer_prefix_iff (data : List UInt8) (n : ℕ) :
    ReadsPrefix data n ↔ n ≤ data.length := by
  constructor
  · exact fun h => Nat.le_of_not_lt fun hlt => not_readsPrefix_of_lt hlt h
  · intro hn env d fname buf hw hdata
    obtain ⟨N, c', buf', hload, hret⟩ := readToBuffer_of_le hw hdata hn buf
    refine ⟨N, _, _, buf', hret, ?_, hload⟩
    by_cases h0 : n = 0
    · simp [requested, h0]
    · rw [requested, if_neg h0, if_pos ⟨Nat.pos_of_ne_zero h0, hn⟩]

/-- A byte that is asked of an empty file. -/
theorem readToBuffer_beyond : ¬ ReadsPrefix [] 1 := not_readsPrefix_of_lt (by decide)

/-- **What is written is read, and a failure is counted.**  However the calls split the block, the
two functions return its length and the second delivers it; when a call of `write` fails, what was
moved before is returned and is in the file. -/
theorem writeToFile_roundTrip (env env' : IoAnswers) (d : Disk) (fname : PathName)
    (buf : ℕ → UInt8) (n : ℕ) :
    (env.Willing → env'.Willing → RoundTrips env env' d fname buf n) ∧
      ∀ j, env.refuse d.calls = false → env.FailsAt (d.calls + 1) j →
        env.sent (d.calls + 1) n j < n →
          LeavesPrefix env d fname buf n (env.sent (d.calls + 1) n j) := by
  constructor
  · intro hw hw'
    obtain ⟨N, c', hret⟩ := writeToFile_of_willing hw d fname buf n
    have hfile : (d.holding fname (load buf 0 n) c' d.fds).files fname = some (load buf 0 n) :=
      Function.update_self ..
    refine ⟨N, _, hret, fun out => ?_⟩
    obtain ⟨N', c'', out', hload, hread⟩ :=
      readToBuffer_of_le hw' hfile (Nat.zero_le _) out
    have hreq : requested (load buf 0 n) 0 = n := length_load buf 0 n
    rw [hreq] at hload hread
    refine ⟨N', _, out', hread, ?_⟩
    rw [hload, List.take_of_length_le (by simp)]
  · intro j hopen h hlt
    exact ⟨j + 1, _, fun fuel hfuel => writeToFile_of_failsAt hopen h hlt hfuel,
      Function.update_self ..⟩

/-- One byte moves with each call, and the fourth call of all fails. -/
def IoAnswers.bytewise : IoAnswers where
  refuse c := c == 3
  share _ m := min m 1
  share_pos _ _ h := Nat.lt_min.2 ⟨h, Nat.one_pos⟩
  share_le _ m := Nat.min_le_left m 1
  share_max _ m := Nat.le_trans (Nat.min_le_right m 1) (by decide)

theorem writeToFile_roundTrip_bytewise :
    RoundTrips .plain .plain ⟨fun _ => none, 0, 0⟩ [102] (fun i => i.toUInt8) 3 ∧
      LeavesPrefix .bytewise ⟨fun _ => none, 0, 0⟩ [102] (fun i => i.toUInt8) 3 2 :=
  ⟨(writeToFile_roundTrip .plain .plain _ _ _ 3).1 IoAnswers.plain_willing IoAnswers.plain_willing,
    (writeToFile_roundTrip .bytewise .bytewise ⟨fun _ => none, 0, 0⟩ _ _ 3).2 2 rfl
      ⟨by decide, rfl⟩ (by decide)⟩

end VModule

/-
**The two log files.**

`Logger::Init(path)` lets `OpenLogFile` of `sutils/LoggerThread.cpp` open `path`log.log, after the
file of that name has been moved to `path`log.old.log and the one there removed.  Neither the
removal nor the move is checked, and `fopen` with `"wb"` empties a file that was not moved.  What is
written goes into the buffer of the stream, which `WriteStringToLog` flushes after each message, and
`fclose` at the end.

The model has a disk of directory entries and files, and what the system answers is given with each
call.  Names that stand for one entry, such as two that begin with `x/` and `./x/`, are one; there
is no `NUL` in a path.  Over the disk stands a shelf with two places for each path.

Main definitions:

* `VModule.LogFile.Disk` — entries and files; no two entries share a file;
* `VModule.LogFile.entry` — the entry that a name stands for;
* `VModule.LogFile.openLogFile`, `VModule.LogFile.closeLogFile`,
  `VModule.LogFile.writeStringToLog` — the functions of `LoggerThread`;
* `VModule.LogFile.machine` — a logger whose files are opened, written and closed;
* `VModule.LogFile.Shelf` — the two places of each path.

Main results:

* `VModule.LogFile.shelf_exec` — **the logger refines the shelf**;
* `VModule.log_files_newest` — the two files hold what was logged in the last two sessions, if no
  move of a file and no opening fails;
* `VModule.log_file_kept_iff` — which calls of `Init` leave the last log on the disk.
-/

import Mathlib.Data.List.DropRight
import VModule.LogLines

set_option relaxedAutoImplicit false
set_option autoImplicit false

namespace VModule

open Function
open Logger (ascii)
open LogLines (bom)

namespace LogFile

/-! ### Disks -/

/-- The directory entries of a disk and its files, which are numbers below `next`. -/
structure Disk (ν : Type*) where
  dir : ν → Option ℕ
  data : ℕ → Bytes
  next : ℕ
  lt : ∀ {a : ν} {i : ℕ}, dir a = some i → i < next
  inj : ∀ {a b : ν} {i : ℕ}, dir a = some i → dir b = some i → a = b

variable {ν : Type*}

namespace Disk

/-- A disk without files. -/
def empty : Disk ν where
  dir _ := none
  data _ := []
  next := 0
  lt h := by cases h
  inj h := by cases h

variable (d : Disk ν)

/-- The contents of the file of some name. -/
def read (a : ν) : Option Bytes := (d.dir a).map d.data

/-- A file is given other contents. -/
def write (i : ℕ) (contents : Bytes) : Disk ν where
  dir := d.dir
  data := update d.data i contents
  next := d.next
  lt := d.lt
  inj := d.inj

theorem read_of_some {d : Disk ν} {a : ν} {i : ℕ} (h : d.dir a = some i) :
    d.read a = some (d.data i) := by
  rw [read, h, Option.map_some]

theorem read_eq_none_iff {d : Disk ν} {a : ν} : d.read a = none ↔ d.dir a = none :=
  Option.map_eq_none_iff

variable [DecidableEq ν]

/-- `remove`: nothing happens where there is no such file. -/
def remove (b : ν) : Disk ν where
  dir := update d.dir b none
  data := d.data
  next := d.next
  lt h := by
    rw [update_apply] at h
    split at h
    · cases h
    · exact d.lt h
  inj ha hb := by
    rw [update_apply] at ha hb
    split at ha
    · cases ha
    · split at hb
      · cases hb
      · exact d.inj ha hb

/-- `rename` of a file that there is: the new name loses the file that it had. -/
def move {a : ν} {i : ℕ} (h : d.dir a = some i) (b : ν) : Disk ν where
  dir := update (update d.dir a none) b (some i)
  data := d.data
  next := d.next
  lt hc := by
    rw [update_apply] at hc
    split at hc
    · rw [← Option.some_inj.1 hc]
      exact d.lt h
    · rw [update_apply] at hc
      split at hc
      · cases hc
      · exact d.lt hc
  inj := by
    have hother : ∀ {c : ν}, update d.dir a none c ≠ some i := by
      intro c hc
      rw [update_apply] at hc
      split at hc
      · cases hc
      · rename_i hca
        exact hca (d.inj hc h)
    intro c c' j hc hc'
    rw [update_apply] at hc hc'
    split at hc
    · split at hc'
      · rename_i hcb hcb'
        rw [hcb, hcb']
      · rw [← Option.some_inj.1 hc] at hc'
        exact absurd hc' hother
    · split at hc'
      · rw [← Option.some_inj.1 hc'] at hc
        exact absurd hc hother
      · rw [update_apply] at hc hc'
        split at hc
        · cases hc
        · split at hc'
          · cases hc'
          · exact d.inj hc hc'

/-- `rename`: nothing happens where there is no file to move. -/
def rename (a b : ν) : Disk ν :=
  match h : d.dir a with
  | none => d
  | some _ => d.move h b

/-- A new file is made for a name. -/
def make (a : ν) : Disk ν where
  dir := update d.dir a (some d.next)
  data := update d.data d.next []
  next := d.next + 1
  lt hc := by
    rw [update_apply] at hc
    split at hc
    · rw [← Option.some_inj.1 hc]
      exact Nat.lt_succ_self _
    · exact Nat.lt_succ_of_lt (d.lt hc)
  inj hc hc' := by
    rw [update_apply] at hc hc'
    split at hc
    · split at hc'
      · rename_i hca hca'
        rw [hca, hca']
      · rw [← Option.some_inj.1 hc] at hc'
        exact absurd (d.lt hc') (Nat.lt_irrefl _)
    · split at hc'
      · rw [← Option.some_inj.1 hc'] at hc
        exact absurd (d.lt hc) (Nat.lt_irrefl _)
      · exact d.inj hc hc'

/-- `fopen` with `"wb"`, and the file that it opens: the file is emptied, or made. -/
def fopen (a : ν) : Disk ν × ℕ :=
  match d.dir a with
  | none => (d.make a, d.next)
  | some i => (d.write i [], i)

variable {d} {a b c : ν} {i : ℕ}

theorem dir_remove : (d.remove b).dir c = if c = b then none else d.dir c := update_apply ..

theorem rename_of_none (h : d.dir a = none) : d.rename a b = d := by
  unfold rename
  split
  · rfl
  · rename_i hi
    rw [h] at hi
    cases hi

theorem dir_move (h : d.dir a = some i) :
    (d.move h b).dir c = if c = b then some i else if c = a then none else d.dir c :=
  (update_apply ..).trans (by rw [update_apply])

theorem dir_rename_of_some (h : d.dir a = some i) :
    (d.rename a b).dir c = if c = b then some i else if c = a then none else d.dir c := by
  unfold rename
  split
  · rename_i hnone
    rw [h] at hnone
    cases hnone
  · rename_i j hj
    rw [h] at hj
    obtain rfl := Option.some_inj.1 hj
    exact dir_move h

theorem data_rename : (d.rename a b).data = d.data := by
  unfold rename
  split <;> rfl

theorem dir_make : (d.make a).dir c = if c = a then some d.next else d.dir c := update_apply ..

theorem read_remove : (d.remove b).read c = if c = b then none else d.read c := by
  rw [read, dir_remove]
  split <;> rfl

theorem read_rename_of_some (h : d.dir a = some i) :
    (d.rename a b).read c =
      if c = b then some (d.data i) else if c = a then none else d.read c := by
  rw [read, dir_rename_of_some h, data_rename]
  split
  · rfl
  · split <;> rfl

/-- The file that is opened is the one of the name, and it is empty; the others stay. -/
theorem fopen_spec (d : Disk ν) (a : ν) : (d.fopen a).1.dir a = some (d.fopen a).2 ∧
    (d.fopen a).1.data (d.fopen a).2 = [] ∧
    ∀ c ≠ a, (d.fopen a).1.dir c = d.dir c ∧ (d.fopen a).1.read c = d.read c := by
  unfold fopen
  split
  · refine ⟨update_self .., update_self .., fun c hc => ?_⟩
    have hdir : (d.make a).dir c = d.dir c := update_of_ne hc ..
    refine ⟨hdir, ?_⟩
    rw [read, read, hdir]
    cases hi : d.dir c with
    | none => rfl
    | some i => exact congrArg some (update_of_ne (Nat.ne_of_lt (d.lt hi)) ..)
  · rename_i i hi
    refine ⟨hi, update_self .., fun c hc => ⟨rfl, ?_⟩⟩
    have hdir : (d.write i []).dir c = d.dir c := rfl
    rw [read, read, hdir]
    cases hj : d.dir c with
    | none => rfl
    | some j =>
        have hji : j ≠ i := by
          intro hji
          exact hc (d.inj hj (hji ▸ hi))
        exact congrArg some (update_of_ne hji ..)

theorem fopen_of_none (h : d.dir a = none) : d.fopen a = (d.make a, d.next) := by
  rw [fopen, h]

theorem fopen_of_some (h : d.dir a = some i) : d.fopen a = (d.write i [], i) := by
  rw [fopen, h]

end Disk

/-! ### The functions -/

/-- An open file, with what has been written and not flushed. -/
structure Stream where
  file : ℕ
  buffer : Bytes

structure State (ν : Type*) where
  disk : Disk ν
  mFile : Option Stream

/-- Whether the calls of the system succeed that `OpenLogFile` makes. -/
structure Answers where
  removes : Bool
  renames : Bool
  opens : Bool

section

variable [DecidableEq ν]

/-- `remove` and `rename`, whose results are not looked at. -/
def rotate (disk : Disk ν) (logFilename backupOldLogToFilename : ν) (ans : Answers) : Disk ν :=
  let disk := if ans.removes then disk.remove backupOldLogToFilename else disk
  if ans.renames then disk.rename logFilename backupOldLogToFilename else disk

def openLogFile (s : State ν) (logFilename backupOldLogToFilename : ν) (ans : Answers) :
    State ν × Bool :=
  match s.mFile with
  | some _ => (s, false)
  | none =>
      let disk := rotate s.disk logFilename backupOldLogToFilename ans
      if ans.opens then
        match disk.fopen logFilename with
        | (disk, file) => (⟨disk, some ⟨file, bom⟩⟩, true)
      else (⟨disk, none⟩, false)

end

/-- `fflush`. -/
def flush (disk : Disk ν) (stream : Stream) : Disk ν :=
  disk.write stream.file (disk.data stream.file ++ stream.buffer)

def closeLogFile (s : State ν) : State ν :=
  match s.mFile with
  | none => s
  | some stream => ⟨flush s.disk stream, none⟩

def writeStringToLog (s : State ν) (logString : Bytes) : State ν × Bool :=
  match s.mFile with
  | none => (s, false)
  | some stream =>
      match LoggerThread.writeStringToLog (some stream.buffer) logString with
      | (none, ret) => (s, ret)
      | (some buffer, ret) =>
          (⟨flush s.disk ⟨stream.file, buffer⟩, some ⟨stream.file, []⟩⟩, ret)

/-- The names of `Logger::Init`. -/
def logFilename (path : Bytes) : Bytes := path ++ ascii "log" ++ ascii ".log"

def oldLogFilename (path : Bytes) : Bytes := path ++ ascii "log" ++ ascii ".old.log"

/-- A call of `Logger::Init`, of `Logger::Close`, or a message of the logger thread. -/
inductive Action where
  | init (path : Bytes) (ans : Answers)
  | close
  | write (logString : Bytes)

variable {δ : Type*}

/-- The entry that a name stands for: the directory that `dirOf` finds for what comes up to the last
slash, and the rest of the name. -/
def entry (dirOf : Bytes → δ) (name : Bytes) : δ × Bytes :=
  (dirOf (name.rdropWhile (· != 47)), name.rtakeWhile (· != 47))

/-! ### The entries of a path -/

/-- What is put behind a path without a slash is put behind its entry. -/
theorem entry_append (dirOf : Bytes → δ) (path : Bytes) {w : Bytes}
    (hw : w.all (· != 47) = true) :
    entry dirOf (path ++ w) = ((entry dirOf path).1, (entry dirOf path).2 ++ w) := by
  have hrev : ∀ b ∈ w.reverse, (b != 47) = true := fun b hb =>
    List.all_eq_true.1 hw b (List.mem_reverse.1 hb)
  rw [entry, entry, List.rdropWhile, List.rtakeWhile, List.reverse_append,
    List.dropWhile_append_of_pos hrev, List.takeWhile_append_of_pos hrev, List.reverse_append,
    List.reverse_reverse]
  rfl

/-- The entry of the log of a path, which has the entry `q` itself. -/
def logEntry (q : δ × Bytes) : δ × Bytes := (q.1, q.2 ++ ascii "log.log")

def oldLogEntry (q : δ × Bytes) : δ × Bytes := (q.1, q.2 ++ ascii "log.old.log")

theorem entry_logFilename (dirOf : Bytes → δ) (path : Bytes) :
    entry dirOf (logFilename path) = logEntry (entry dirOf path) := by
  rw [logFilename, List.append_assoc]
  exact entry_append dirOf path rfl

theorem entry_oldLogFilename (dirOf : Bytes → δ) (path : Bytes) :
    entry dirOf (oldLogFilename path) = oldLogEntry (entry dirOf path) := by
  rw [oldLogFilename, List.append_assoc]
  exact entry_append dirOf path rfl

theorem logEntry_inj {q q' : δ × Bytes} : logEntry q = logEntry q' ↔ q = q' := by
  rw [logEntry, logEntry, Prod.mk.injEq, List.append_left_inj, Prod.ext_iff]

theorem oldLogEntry_inj {q q' : δ × Bytes} : oldLogEntry q = oldLogEntry q' ↔ q = q' := by
  rw [oldLogEntry, oldLogEntry, Prod.mk.injEq, List.append_left_inj, Prod.ext_iff]

/-- One of the names ends in `g.log`, the other in `d.log`. -/
theorem logEntry_ne (q q' : δ × Bytes) : logEntry q ≠ oldLogEntry q' := by
  intro h
  have hend := congrArg (fun e : δ × Bytes => e.2.reverse.take 5) h
  simp [logEntry, oldLogEntry, ascii] at hend

/-! ### Runs -/

variable [DecidableEq δ]

def exec (dirOf : Bytes → δ) (s : State (δ × Bytes)) : Action → State (δ × Bytes)
  | .init path ans =>
      (openLogFile s (entry dirOf (logFilename path)) (entry dirOf (oldLogFilename path)) ans).1
  | .close => closeLogFile s
  | .write logString => (writeStringToLog s logString).1

/-- The logger on some disk. -/
def machine (dirOf : Bytes → δ) (disk : Disk (δ × Bytes)) : Machine (State (δ × Bytes)) Action where
  init s := s = ⟨disk, none⟩
  step s a s' := s' = exec dirOf s a

/-! ### The shelf -/

/-- What is behind an entry, with what has not been flushed. -/
def State.text (s : State ν) (a : ν) : Option Bytes :=
  match s.mFile with
  | none => s.disk.read a
  | some stream => (s.disk.dir a).map fun i =>
      if i = stream.file then s.disk.data i ++ stream.buffer else s.disk.data i

/-- For each path, known by its entry, the log and the one before it, and the path whose log is
being written. -/
structure Shelf (δ : Type*) where
  log : δ × Bytes → Option Bytes
  oldLog : δ × Bytes → Option Bytes
  opened : Option (δ × Bytes)

namespace Shelf

/-- The two places of a path after the move, if there is one. -/
def shift (log oldLog : Option Bytes) (ans : Answers) : Option Bytes × Option Bytes :=
  match log, ans.renames with
  | some text, true => (none, some text)
  | log, _ => (log, if ans.removes then none else oldLog)

/-- `Init` of a path that has the entry `q`. -/
def init (a : Shelf δ) (q : δ × Bytes) (ans : Answers) : Shelf δ :=
  match a.opened with
  | some _ => a
  | none =>
      match shift (a.log q) (a.oldLog q) ans with
      | (log, oldLog) =>
          { log := update a.log q (if ans.opens then some bom else log)
            oldLog := update a.oldLog q oldLog
            opened := if ans.opens then some q else none }

def exec (dirOf : Bytes → δ) (a : Shelf δ) : Action → Shelf δ
  | .init path ans => a.init (entry dirOf path) ans
  | .close => { a with opened := none }
  | .write logString =>
      match a.opened with
      | none => a
      | some q =>
          { a with
            log := update a.log q
              ((a.log q).map fun text => text ++ LoggerThread.logLine logString) }

end Shelf

/-- The files are on the shelf. -/
structure Shows (s : State (δ × Bytes)) (a : Shelf δ) : Prop where
  log : ∀ q, s.text (logEntry q) = a.log q
  oldLog : ∀ q, s.text (oldLogEntry q) = a.oldLog q
  closed : s.mFile = none → a.opened = none
  opened : ∀ stream, s.mFile = some stream →
    ∃ q, a.opened = some q ∧ s.disk.dir (logEntry q) = some stream.file

/-- What the two names hold after the move, and that other names are left alone. -/
theorem read_rotate [DecidableEq ν] (d : Disk ν) {a b : ν} (hab : a ≠ b) (ans : Answers) :
    ((rotate d a b ans).read a, (rotate d a b ans).read b) =
        Shelf.shift (d.read a) (d.read b) ans ∧
      ∀ c, c ≠ a → c ≠ b → (rotate d a b ans).read c = d.read c := by
  obtain ⟨d₁, hd₁⟩ : ∃ d₁, d₁ = if ans.removes then d.remove b else d := ⟨_, rfl⟩
  have hread : ∀ c, d₁.read c = if ans.removes ∧ c = b then none else d.read c := by
    intro c
    rw [hd₁]
    cases ans.removes with
    | false => simp
    | true => simp [Disk.read_remove]
  have hreada : d₁.read a = d.read a := by
    rw [hread, if_neg fun h => hab h.2]
  have hreadb : d₁.read b = if ans.removes then none else d.read b := by
    rw [hread]
    simp
  rw [rotate, ← hd₁]
  cases hrenames : ans.renames with
  | false =>
      refine ⟨?_, fun c _ hcb => ?_⟩
      · rw [if_neg Bool.false_ne_true, hreada, hreadb, Shelf.shift]
        intro text _ htrue
        rw [hrenames] at htrue
        cases htrue
      · rw [if_neg Bool.false_ne_true, hread, if_neg fun h => hcb h.2]
  | true =>
      rw [if_pos rfl]
      cases hdir : d₁.dir a with
      | none =>
          have hnone : d.read a = none := hreada.symm.trans (Disk.read_eq_none_iff.2 hdir)
          rw [Disk.rename_of_none hdir]
          refine ⟨?_, fun c _ hcb => ?_⟩
          · rw [hreada, hreadb, hnone]
            rfl
          · rw [hread, if_neg fun h => hcb h.2]
      | some i =>
          have hsome : d.read a = some (d₁.data i) := hreada.symm.trans (Disk.read_of_some hdir)
          refine ⟨?_, fun c hca hcb => ?_⟩
          · rw [Disk.read_rename_of_some hdir, Disk.read_rename_of_some hdir, if_neg hab,
              if_pos rfl, if_pos rfl, hsome, Shelf.shift]
            exact hrenames
          · rw [Disk.read_rename_of_some hdir, if_neg hcb, if_neg hca, hread,
              if_neg fun h => hcb h.2]

theorem text_closed {s : State ν} (h : s.mFile = none) (a : ν) : s.text a = s.disk.read a := by
  rw [State.text, h]

/-- The text of the file that is open, and of the others. -/
theorem text_opened {s : State ν} {stream : Stream} (h : s.mFile = some stream) {a : ν}
    (ha : s.disk.dir a = some stream.file) :
    s.text a = some (s.disk.data stream.file ++ stream.buffer) ∧
      ∀ c, c ≠ a → s.text c = s.disk.read c := by
  refine ⟨?_, fun c hc => ?_⟩
  · rw [State.text, h]
    dsimp only
    rw [ha, Option.map_some, if_pos rfl]
  · rw [State.text, h]
    dsimp only
    rw [Disk.read]
    cases hdir : s.disk.dir c with
    | none => rfl
    | some i =>
        have hi : i ≠ stream.file := by
          intro hi
          exact hc (s.disk.inj hdir (hi ▸ ha))
        rw [Option.map_some, if_neg hi, Option.map_some]

/-- `Init` of a logger whose file is closed. -/
theorem shows_init {s : State (δ × Bytes)} {a : Shelf δ} (h : Shows s a) (hclosed : s.mFile = none)
    (path : δ × Bytes) (ans : Answers) :
    Shows (openLogFile s (logEntry path) (oldLogEntry path) ans).1 (a.init path ans) := by
  have hlog : ∀ q, s.disk.read (logEntry q) = a.log q := fun q =>
    (text_closed hclosed _).symm.trans (h.log q)
  have hold : ∀ q, s.disk.read (oldLogEntry q) = a.oldLog q := fun q =>
    (text_closed hclosed _).symm.trans (h.oldLog q)
  obtain ⟨hshift, hother⟩ := read_rotate s.disk (logEntry_ne path path) ans
  obtain ⟨d, hd⟩ : ∃ d, d = rotate s.disk (logEntry path) (oldLogEntry path) ans := ⟨_, rfl⟩
  rw [hlog, hold, ← hd] at hshift
  rw [← hd] at hother
  have hotherLog : ∀ q, q ≠ path → d.read (logEntry q) = a.log q := by
    intro q hq
    rw [hother _ (mt logEntry_inj.1 hq) (logEntry_ne q path), hlog]
  have hotherOld : ∀ q, q ≠ path → d.read (oldLogEntry q) = a.oldLog q := by
    intro q hq
    rw [hother _ (logEntry_ne path q).symm (mt oldLogEntry_inj.1 hq), hold]
  simp only [openLogFile, hclosed, Shelf.init, h.closed hclosed, ← hshift, ← hd]
  cases hopens : ans.opens with
  | false =>
      refine ⟨fun q => ?_, fun q => ?_, fun _ => rfl, fun stream hs => ?_⟩
      · by_cases hq : q = path
        · simp [State.text, hq]
        · simp [State.text, hq, hotherLog q hq]
      · by_cases hq : q = path
        · simp [State.text, hq]
        · simp [State.text, hq, hotherOld q hq]
      · simp at hs
  | true =>
      obtain ⟨hdir, hempty, hkept⟩ := Disk.fopen_spec d (logEntry path)
      have hmFile : (⟨(d.fopen (logEntry path)).1, some ⟨(d.fopen (logEntry path)).2, bom⟩⟩ :
          State (δ × Bytes)).mFile = some ⟨(d.fopen (logEntry path)).2, bom⟩ := rfl
      obtain ⟨htext, hothers⟩ := text_opened hmFile hdir
      refine ⟨fun q => ?_, fun q => ?_, fun hs => ?_, fun stream hs => ?_⟩
      · by_cases hq : q = path
        · rw [hq]
          simpa [hempty] using htext
        · have hne := mt logEntry_inj.1 hq
          simpa [hq, ← hotherLog q hq, ← (hkept _ hne).2] using hothers _ hne
      · have hne := (logEntry_ne path q).symm
        have hread := (hothers _ hne).trans (hkept _ hne).2
        by_cases hq : q = path
        · simpa [hq] using hread
        · simpa [hq, ← hotherOld q hq] using hread
      · cases hs
      · obtain rfl := Option.some_inj.1 hs
        exact ⟨path, rfl, hdir⟩

/-- What is flushed goes to the file that is open. -/
theorem read_flush {d : Disk ν} {stream : Stream} {a : ν} (ha : d.dir a = some stream.file) :
    (flush d stream).read a = some (d.data stream.file ++ stream.buffer) ∧
      ∀ c, c ≠ a → (flush d stream).read c = d.read c := by
  refine ⟨?_, fun c hc => ?_⟩
  · have hdir : (flush d stream).dir a = some stream.file := ha
    rw [Disk.read_of_some hdir]
    exact congrArg some (update_self ..)
  · have hdir : (flush d stream).dir c = d.dir c := rfl
    rw [Disk.read, Disk.read, hdir]
    cases hi : d.dir c with
    | none => rfl
    | some i =>
        have hne : i ≠ stream.file := by
          intro hne
          exact hc (d.inj hi (hne ▸ ha))
        exact congrArg some (update_of_ne hne ..)

theorem shows_close (dirOf : Bytes → δ) {s : State (δ × Bytes)} {a : Shelf δ} (h : Shows s a) :
    Shows (exec dirOf s .close) (a.exec dirOf .close) := by
  cases hmFile : s.mFile with
  | none =>
      simp only [exec, closeLogFile, hmFile, Shelf.exec]
      refine ⟨h.log, h.oldLog, fun _ => rfl, fun stream hs => ?_⟩
      rw [hmFile] at hs
      cases hs
  | some stream =>
      obtain ⟨path, -, hdir⟩ := h.opened stream hmFile
      obtain ⟨htext, hothers⟩ := text_opened hmFile hdir
      obtain ⟨hflush, hkept⟩ := read_flush hdir
      have hsame : ∀ c, (flush s.disk stream).read c = s.text c := by
        intro c
        by_cases hc : c = logEntry path
        · rw [hc, hflush, htext]
        · rw [hkept c hc, hothers c hc]
      simp only [exec, closeLogFile, hmFile, Shelf.exec]
      refine ⟨fun q => (hsame _).trans (h.log q), fun q => (hsame _).trans (h.oldLog q),
        fun _ => rfl, fun stream hs => ?_⟩
      cases hs

theorem shows_write (dirOf : Bytes → δ) {s : State (δ × Bytes)} {a : Shelf δ} (h : Shows s a)
    (logString : Bytes) :
    Shows (exec dirOf s (.write logString)) (a.exec dirOf (.write logString)) := by
  cases hmFile : s.mFile with
  | none =>
      simp only [exec, writeStringToLog, hmFile, Shelf.exec, h.closed hmFile]
      exact h
  | some stream =>
      obtain ⟨path, hopened, hdir⟩ := h.opened stream hmFile
      obtain ⟨htext, hothers⟩ := text_opened hmFile hdir
      obtain ⟨buffer, hbuffer⟩ : ∃ b, b = stream.buffer ++ LoggerThread.logLine logString :=
        ⟨_, rfl⟩
      obtain ⟨hflush, hkept⟩ := @read_flush _ s.disk ⟨stream.file, buffer⟩ _ hdir
      obtain ⟨s', hs'⟩ : ∃ s' : State (δ × Bytes),
          s' = ⟨flush s.disk ⟨stream.file, buffer⟩, some ⟨stream.file, []⟩⟩ := ⟨_, rfl⟩
      have hmFile' : s'.mFile = some ⟨stream.file, []⟩ := congrArg State.mFile hs'
      have hdir' : s'.disk.dir (logEntry path) = some stream.file := by
        rw [hs']
        exact hdir
      obtain ⟨htext', hothers'⟩ := text_opened hmFile' hdir'
      have hdata : s'.disk.data stream.file = s.disk.data stream.file ++ buffer := by
        rw [hs']
        exact update_self ..
      have hsame : ∀ c, c ≠ logEntry path → s'.text c = s.text c := by
        intro c hc
        rw [hothers' c hc, hothers c hc, hs']
        exact hkept c hc
      have hexec : exec dirOf s (.write logString) = s' := by
        simp only [exec, writeStringToLog, hmFile, LoggerThread.writeStringToLog_eq, ← hbuffer, hs']
      rw [hexec]
      simp only [Shelf.exec, hopened]
      refine ⟨fun q => ?_, fun q => ?_, fun hs => ?_, fun stream' hs => ?_⟩
      · by_cases hq : q = path
        · dsimp only
          rw [hq, htext', List.append_nil, hdata, hbuffer, ← h.log path, htext, update_self,
            Option.map_some, List.append_assoc]
        · dsimp only
          rw [hsame _ (mt logEntry_inj.1 hq), h.log q, update_of_ne hq]
      · rw [hsame _ (logEntry_ne path q).symm]
        exact h.oldLog q
      · rw [hmFile'] at hs
        cases hs
      · rw [hmFile'] at hs
        obtain rfl := Option.some_inj.1 hs
        exact ⟨path, rfl, hdir'⟩

/-- **The logger refines the shelf**: each call does to the files what it does on the shelf. -/
theorem shelf_exec (dirOf : Bytes → δ) {s : State (δ × Bytes)} {a : Shelf δ} (h : Shows s a)
    (act : Action) : Shows (exec dirOf s act) (a.exec dirOf act) := by
  cases act with
  | init path ans =>
      rw [exec, entry_logFilename, entry_oldLogFilename, Shelf.exec]
      cases hmFile : s.mFile with
      | none => exact shows_init h hmFile _ ans
      | some stream =>
          obtain ⟨q, hopened, -⟩ := h.opened stream hmFile
          simp only [openLogFile, hmFile, Shelf.init, hopened]
          exact h
  | close => exact shows_close dirOf h
  | write logString => exact shows_write dirOf h logString

/-! ### Sessions -/

/-- What has been logged for each path, the last session first, and the path that is open. -/
structure History (δ : Type*) where
  logs : δ × Bytes → List Bytes
  opened : Option (δ × Bytes)

def History.exec (dirOf : Bytes → δ) (h : History δ) : Action → History δ
  | .init path _ =>
      match h.opened with
      | some _ => h
      | none =>
          ⟨update h.logs (entry dirOf path) (bom :: h.logs (entry dirOf path)),
            some (entry dirOf path)⟩
  | .close => ⟨h.logs, none⟩
  | .write logString =>
      match h.opened with
      | none => h
      | some q =>
          ⟨update h.logs q
            ((h.logs q).modifyHead fun text => text ++ LoggerThread.logLine logString), some q⟩

/-- The logs of a disk count as sessions before the first. -/
def History.start (disk : Disk (δ × Bytes)) : History δ where
  logs q := (disk.read (logEntry q)).toList ++ (disk.read (oldLogEntry q)).toList
  opened := none

/-- The history of a run that begins with some disk. -/
def history (dirOf : Bytes → δ) (disk : Disk (δ × Bytes)) (tr : List (State (δ × Bytes) × Action)) :
    History δ :=
  (tr.map Prod.snd).foldl (History.exec dirOf) (.start disk)

theorem history_snoc (dirOf : Bytes → δ) (disk : Disk (δ × Bytes))
    (tr : List (State (δ × Bytes) × Action)) (s : State (δ × Bytes)) (act : Action) :
    history dirOf disk (tr ++ [(s, act)]) = (history dirOf disk tr).exec dirOf act := by
  rw [history, List.map_append, List.foldl_append]
  rfl

/-- No file fails to be moved, and none to be opened. -/
def Succeeds (dirOf : Bytes → δ) (s : State (δ × Bytes)) : Action → Prop
  | .init path ans => s.mFile = none →
      (s.disk.dir (entry dirOf (logFilename path)) ≠ none → ans.renames = true) ∧ ans.opens = true
  | _ => True

/-- The shelf holds the last two sessions. -/
structure Newest (a : Shelf δ) (h : History δ) : Prop where
  log : ∀ q, a.log q = (h.logs q)[0]?
  oldLog : ∀ q, a.oldLog q = (h.logs q)[1]?
  opened : a.opened = h.opened

omit [DecidableEq δ] in
/-- A disk with an old log only beside a log. -/
theorem newest_start {disk : Disk (δ × Bytes)}
    (hdisk : ∀ q, disk.dir (logEntry q) = none → disk.dir (oldLogEntry q) = none) :
    Newest ⟨fun q => disk.read (logEntry q), fun q => disk.read (oldLogEntry q), none⟩
      (.start disk) := by
  refine ⟨fun q => ?_, fun q => ?_, rfl⟩
  · rw [History.start]
    cases hlog : disk.read (logEntry q) with
    | none =>
        have hold : disk.read (oldLogEntry q) = none :=
          Disk.read_eq_none_iff.2 (hdisk q (Disk.read_eq_none_iff.1 hlog))
        simp [hlog, hold]
    | some text => simp [hlog]
  · rw [History.start]
    cases hlog : disk.read (logEntry q) with
    | none =>
        have hold : disk.read (oldLogEntry q) = none :=
          Disk.read_eq_none_iff.2 (hdisk q (Disk.read_eq_none_iff.1 hlog))
        simp [hlog, hold]
    | some text =>
        cases hold : disk.read (oldLogEntry q) with
        | none => simp [hlog, hold]
        | some old => simp [hlog, hold]

/-- A call of `Init` that succeeds begins another session. -/
theorem newest_exec (dirOf : Bytes → δ) {s : State (δ × Bytes)} {a : Shelf δ} {h : History δ}
    (hshows : Shows s a) (hnew : Newest a h) {act : Action} (hact : Succeeds dirOf s act) :
    Newest (a.exec dirOf act) (h.exec dirOf act) := by
  cases act with
  | init path ans =>
      rw [Shelf.exec]
      cases hmFile : s.mFile with
      | some stream =>
          obtain ⟨q, hopened, -⟩ := hshows.opened stream hmFile
          simp only [Shelf.init, hopened, History.exec, ← hnew.opened]
          exact hnew
      | none =>
          have hopened := hshows.closed hmFile
          obtain ⟨hrenames, hopens⟩ := hact hmFile
          rw [entry_logFilename] at hrenames
          obtain ⟨p, hp⟩ : ∃ p, p = entry dirOf path := ⟨_, rfl⟩
          rw [← hp] at hrenames
          have hshift : (Shelf.shift (a.log p) (a.oldLog p) ans).2 = a.log p := by
            rw [hnew.log, hnew.oldLog]
            cases hlogs : h.logs p with
            | nil => simp [Shelf.shift]
            | cons text logs =>
                have hdir : s.disk.dir (logEntry p) ≠ none := by
                  intro hnone
                  have hread := (hshows.log p).symm.trans (text_closed hmFile _)
                  rw [hnew.log, hlogs, Disk.read, hnone] at hread
                  cases hread
                simp [Shelf.shift, hrenames hdir]
          simp only [Shelf.init, hopened, History.exec, ← hnew.opened, hopens, if_true, ← hp]
          refine ⟨fun q => ?_, fun q => ?_, rfl⟩
          · by_cases hq : q = p
            · simp [hq]
            · simp [hq, hnew.log q]
          · by_cases hq : q = p
            · simpa [hq, hnew.log p] using hshift
            · simp [hq, hnew.oldLog q]
  | close => exact ⟨hnew.log, hnew.oldLog, rfl⟩
  | write logString =>
      cases hopened : a.opened with
      | none =>
          simp only [Shelf.exec, hopened, History.exec, ← hnew.opened]
          exact hnew
      | some p =>
          simp only [Shelf.exec, hopened, History.exec, ← hnew.opened]
          refine ⟨fun q => ?_, fun q => ?_, rfl⟩
          · by_cases hq : q = p
            · cases hlogs : h.logs p <;> simp [hq, hnew.log p, hlogs]
            · simp [hq, hnew.log q]
          · by_cases hq : q = p
            · cases hlogs : h.logs p <;> simp [hq, hnew.oldLog p, hlogs]
            · simp [hq, hnew.oldLog q]

/-! ### The last log -/

/-- The file of the last log: a failed `Init` leaves it under the other name. -/
def lastLog (dirOf : Bytes → δ) (disk : Disk (δ × Bytes)) (path : Bytes) : Option ℕ :=
  match disk.dir (entry dirOf (logFilename path)) with
  | some i => some i
  | none => disk.dir (entry dirOf (oldLogFilename path))

/-- A file is still there, with what it has held. -/
def Kept (s s' : State ν) (i : ℕ) : Prop :=
  (∃ c, s'.disk.dir c = some i) ∧ s'.disk.data i = s.disk.data i

/-- The system lets `Init` keep the last log. -/
def Keeps (dirOf : Bytes → δ) (disk : Disk (δ × Bytes)) (path : Bytes) (ans : Answers) : Prop :=
  if disk.dir (entry dirOf (logFilename path)) = none then ans.removes = false
  else ans.renames = true ∨ ans.opens = false

theorem disk_openLogFile [DecidableEq ν] {s : State ν} (h : s.mFile = none) (a b : ν)
    (ans : Answers) :
    (openLogFile s a b ans).1.disk =
      if ans.opens then ((rotate s.disk a b ans).fopen a).1 else rotate s.disk a b ans := by
  simp only [openLogFile, h]
  split <;> rfl

/-- The file of the log after the move. -/
theorem rotate_of_some [DecidableEq ν] {d : Disk ν} {a b : ν} {i : ℕ} (hab : a ≠ b)
    (h : d.dir a = some i) (ans : Answers) : (rotate d a b ans).data = d.data ∧
      (rotate d a b ans).dir a = (if ans.renames then none else some i) ∧
      (ans.renames = true → (rotate d a b ans).dir b = some i) := by
  obtain ⟨d₁, hd₁⟩ : ∃ d₁, d₁ = if ans.removes then d.remove b else d := ⟨_, rfl⟩
  have hdata : d₁.data = d.data := by
    rw [hd₁]
    split <;> rfl
  have hdir : d₁.dir a = some i := by
    rw [hd₁]
    split
    · rw [Disk.dir_remove, if_neg hab, h]
    · exact h
  rw [rotate, ← hd₁]
  cases ans.renames with
  | false => exact ⟨hdata, hdir, fun hfalse => by cases hfalse⟩
  | true =>
      rw [if_pos rfl, if_pos rfl, Disk.data_rename, Disk.dir_rename_of_some hdir,
        Disk.dir_rename_of_some hdir, if_neg hab, if_pos rfl, if_pos rfl]
      exact ⟨hdata, rfl, fun _ => rfl⟩

/-- There is nothing to move. -/
theorem rotate_of_none [DecidableEq ν] {d : Disk ν} {a b : ν} (hab : a ≠ b) (h : d.dir a = none)
    (ans : Answers) : rotate d a b ans = if ans.removes then d.remove b else d := by
  have hdir : (if ans.removes then d.remove b else d).dir a = none := by
    split
    · rw [Disk.dir_remove, if_neg hab, h]
    · exact h
  rw [rotate, Disk.rename_of_none hdir, ite_self]

/-- A log under its own name. -/
theorem kept_of_some [DecidableEq ν] {s : State ν} (hclosed : s.mFile = none) {a b : ν} {i : ℕ}
    (hab : a ≠ b) (h : s.disk.dir a = some i) (hi : s.disk.data i ≠ []) (ans : Answers) :
    Kept s (openLogFile s a b ans).1 i ↔ ans.renames = true ∨ ans.opens = false := by
  obtain ⟨hdata, hlog, hold⟩ := rotate_of_some hab h ans
  rw [Kept, disk_openLogFile hclosed]
  cases hopens : ans.opens with
  | false =>
      refine iff_of_true ⟨?_, ?_⟩ (.inr rfl)
      · cases hrenames : ans.renames with
        | false =>
            rw [hrenames] at hlog
            exact ⟨_, hlog⟩
        | true => exact ⟨_, hold hrenames⟩
      · rw [if_neg Bool.false_ne_true, hdata]
  | true =>
      rw [if_pos rfl]
      cases hrenames : ans.renames with
      | false =>
          rw [hrenames, if_neg Bool.false_ne_true] at hlog
          refine iff_of_false (fun hkept => hi ?_) (by simp)
          rw [Disk.fopen_of_some hlog] at hkept
          exact hkept.2.symm.trans (update_self ..)
      | true =>
          rw [hrenames, if_pos rfl] at hlog
          have hne := hab.symm
          obtain ⟨hdir', hread'⟩ := (Disk.fopen_spec (rotate s.disk a b ans) a).2.2 _ hne
          refine iff_of_true ⟨⟨b, hdir'.trans (hold hrenames)⟩, ?_⟩ (.inl rfl)
          have hread := Disk.read_of_some (hdir'.trans (hold hrenames))
          rw [hread', Disk.read_of_some (hold hrenames), hdata] at hread
          exact (Option.some_inj.1 hread).symm

/-- A log under the other name. -/
theorem kept_of_none [DecidableEq ν] {s : State ν} (hclosed : s.mFile = none) {a b : ν} {i : ℕ}
    (hab : a ≠ b) (hlog : s.disk.dir a = none) (h : s.disk.dir b = some i) (ans : Answers) :
    Kept s (openLogFile s a b ans).1 i ↔ ans.removes = false := by
  have hne := hab.symm
  have hrotate := rotate_of_none hab hlog ans
  rw [Kept, disk_openLogFile hclosed, hrotate]
  cases hremoves : ans.removes with
  | false =>
      rw [if_neg Bool.false_ne_true]
      refine iff_of_true ?_ rfl
      cases hopens : ans.opens with
      | false => exact ⟨⟨_, h⟩, rfl⟩
      | true =>
          rw [if_pos rfl, Disk.fopen_of_none hlog]
          exact ⟨⟨_, (update_of_ne hne ..).trans h⟩, update_of_ne (Nat.ne_of_lt (s.disk.lt h)) ..⟩
  | true =>
      rw [if_pos rfl]
      refine iff_of_false (fun hkept => ?_) (by simp)
      have hgone : ∀ c, (s.disk.remove b).dir c ≠ some i := by
        intro c hc
        rw [Disk.dir_remove] at hc
        split at hc
        · cases hc
        · rename_i hcold
          exact hcold (s.disk.inj hc h)
      have hlog' : (s.disk.remove b).dir a = none := by
        rw [Disk.dir_remove, if_neg hab, hlog]
      obtain ⟨⟨c, hc⟩, -⟩ := hkept
      cases hopens : ans.opens with
      | false =>
          rw [hopens, if_neg Bool.false_ne_true] at hc
          exact hgone c hc
      | true =>
          rw [hopens, if_pos rfl, Disk.fopen_of_none hlog', Disk.dir_make] at hc
          split at hc
          · have hi : s.disk.next = i := Option.some_inj.1 hc
            exact Nat.lt_irrefl _ (hi ▸ s.disk.lt h)
          · exact hgone c hc

end LogFile

open LogFile

variable {δ : Type*} [DecidableEq δ]

/-- **The two files hold the last two sessions.**  Let a logger begin with a disk that has an old
log of a path only beside a log of it.  In every run in which no file fails to be moved and none to
be opened, whichever paths it is given and whether or not the removals succeed, the files of each
path hold what was logged in the last session with this path, under whichever name, and in the one
before it. -/
theorem log_files_newest (dirOf : Bytes → δ) {disk : LogFile.Disk (δ × Bytes)}
    (hdisk : ∀ q, disk.dir (logEntry q) = none → disk.dir (oldLogEntry q) = none)
    {tr : List (LogFile.State (δ × Bytes) × LogFile.Action)} {s : LogFile.State (δ × Bytes)}
    (h : ((LogFile.machine dirOf disk).restrict (Succeeds dirOf)).Run ⟨disk, none⟩ tr s)
    (path : Bytes) :
    s.text (entry dirOf (logFilename path)) =
        ((history dirOf disk tr).logs (entry dirOf path))[0]? ∧
      s.text (entry dirOf (oldLogFilename path)) =
        ((history dirOf disk tr).logs (entry dirOf path))[1]? := by
  have hinv : ∃ a, Shows s a ∧ Newest a (history dirOf disk tr) := by
    induction h with
    | nil =>
        refine ⟨_, ⟨fun q => rfl, fun q => rfl, fun _ => rfl, ?_⟩, newest_start hdisk⟩
        intro stream hs
        cases hs
    | @snoc tr s act s' _ hstep ih =>
        obtain ⟨a, hshows, hnew⟩ := ih
        obtain ⟨hs', hact⟩ := hstep
        rw [history_snoc, hs']
        exact ⟨_, shelf_exec dirOf hshows act, newest_exec dirOf hshows hnew hact⟩
  obtain ⟨a, hshows, hnew⟩ := hinv
  rw [entry_logFilename, entry_oldLogFilename]
  exact ⟨(hshows.log _).trans (hnew.log _), (hshows.oldLog _).trans (hnew.oldLog _)⟩

/-- `./` before a name is the working directory, as nothing is. -/
def dotDir : Bytes → Bytes
  | [46, 47] => []
  | dirname => dirname

/-- Two sessions under two names of one path, the first of which has logged the letter `a`. -/
theorem log_files_newest_two :
    ∃ (tr : List (LogFile.State (Bytes × Bytes) × LogFile.Action))
      (s : LogFile.State (Bytes × Bytes)),
      ((LogFile.machine dotDir .empty).restrict (Succeeds dotDir)).Run ⟨.empty, none⟩ tr s ∧
        tr.map Prod.snd = [.init [120] ⟨true, true, true⟩, .write [97], .close,
          .init [46, 47, 120] ⟨true, true, true⟩] ∧
        s.text (entry dotDir (logFilename [120])) = some bom ∧
        s.text (entry dotDir (oldLogFilename [120])) = some (bom ++ [97, 10]) := by
  have hstep : ∀ (s : LogFile.State (Bytes × Bytes)) (act : LogFile.Action), Succeeds dotDir s act →
      ((LogFile.machine dotDir .empty).restrict (Succeeds dotDir)).step s act
        (LogFile.exec dotDir s act) :=
    fun s act hact => ⟨rfl, hact⟩
  have h₀ : ((LogFile.machine dotDir .empty).restrict (Succeeds dotDir)).Run ⟨.empty, none⟩ []
      ⟨.empty, none⟩ := .nil
  have h₁ := h₀.snoc (hstep _ (.init [120] ⟨true, true, true⟩) fun _ => ⟨fun _ => rfl, rfl⟩)
  have h₂ := h₁.snoc (hstep _ (.write [97]) trivial)
  have h₃ := h₂.snoc (hstep _ .close trivial)
  have h₄ := h₃.snoc
    (hstep _ (.init [46, 47, 120] ⟨true, true, true⟩) fun _ => ⟨fun _ => rfl, rfl⟩)
  obtain ⟨hlog, hold⟩ := log_files_newest dotDir (fun _ _ => rfl) h₄ [120]
  exact ⟨_, _, h₄, rfl, hlog, hold⟩

/-- **Which calls of `Init` keep the last log.**  On whatever disk, the last log of a path is still
there after `Init`, under one name or another, if and only if it is moved or nothing is opened; and
after an `Init` that has moved it and opened nothing, if and only if it is not removed. -/
theorem log_file_kept_iff (dirOf : Bytes → δ) {s : LogFile.State (δ × Bytes)}
    (hclosed : s.mFile = none) {path : Bytes} {i : ℕ} (hlast : lastLog dirOf s.disk path = some i)
    (hi : s.disk.data i ≠ []) (ans : LogFile.Answers) :
    Kept s (LogFile.exec dirOf s (.init path ans)) i ↔ Keeps dirOf s.disk path ans := by
  have hne : entry dirOf (logFilename path) ≠ entry dirOf (oldLogFilename path) := by
    rw [entry_logFilename, entry_oldLogFilename]
    exact logEntry_ne _ _
  rw [lastLog] at hlast
  cases hlog : s.disk.dir (entry dirOf (logFilename path)) with
  | none =>
      rw [hlog] at hlast
      rw [Keeps, if_pos hlog]
      exact kept_of_none hclosed hne hlog hlast ans
  | some j =>
      rw [hlog] at hlast
      obtain rfl := Option.some_inj.1 hlast
      rw [Keeps, if_neg (by rw [hlog]; exact Option.some_ne_none _)]
      exact kept_of_some hclosed hne hlog hi ans

/-- A log that cannot be moved is lost. -/
theorem log_file_kept_iff_lost :
    ¬ Kept ⟨(LogFile.Disk.empty.make (entry dotDir (logFilename []))).write 0 [97], none⟩
      (LogFile.exec dotDir
        ⟨(LogFile.Disk.empty.make (entry dotDir (logFilename []))).write 0 [97], none⟩
        (.init [] ⟨true, false, true⟩)) 0 := by
  have hlast : lastLog dotDir
      ((LogFile.Disk.empty.make (entry dotDir (logFilename []))).write 0 [97]) [] = some 0 := rfl
  intro hkept
  have hkeeps := (log_file_kept_iff dotDir rfl hlast (List.cons_ne_nil _ _) _).1 hkept
  exact absurd hkeeps (by simp [Keeps, Disk.write, Disk.make])

end VModule

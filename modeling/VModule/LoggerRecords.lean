/-
**The records in the log files, whatever the interleaving.**

`VModule/LoggerMessages.lean` says which messages the logger thread has written;
`VModule/LogLines.lean` says what is read from lines.  Here the threads of the machine send what
`LogString` sends, each with its own number in the line, and meanwhile `Logger::Init` opens a file
and `Logger::Close` closes it, as often as they are called.  `fopen` empties the file, and the byte
order mark is in the buffer of the stream until `WriteStringToLog` has flushed it with the first
message.

Each file can be read, and holds what was written while it was open.  A message that the logger
thread takes while no file is open is in none of them.

Main definitions:

* `VModule.LoggerThread.sentBy`, `VModule.LoggerThread.pending` — what a thread has sent in a run,
  and what it is about to enqueue;
* `VModule.LoggerThread.Logs` — a step that sends only what `LogString` sends;
* `VModule.LoggerThread.Recorded` — the records of the messages, with their senders;
* `VModule.LoggerFiles`, `VModule.LoggerFiles.Step` — the logger with the files that it opens and
  closes;
* `VModule.LoggerFiles.whole` — the logger as if one file had been open all the time.

Main results:

* `VModule.LoggerThread.recorded_run` — a run leaves the records of what it sends;
* `VModule.LoggerFiles.run_whole` — what the threads do does not depend on the files;
* `VModule.LoggerFiles.filed_run` — what the files hold;
* `VModule.log_file_in_order` — **the files at any time of any run**.
-/

import VModule.LogLines
import VModule.LoggerMessages
import VModule.Stretches

set_option relaxedAutoImplicit false
set_option autoImplicit false

namespace VModule

open Function LogLines

namespace LoggerThread

variable {ι Tid : Type} [DecidableEq ι] [DecidableEq Tid]

/-! ### What a thread sends -/

/-- The message that an action of thread `t` sends, as far as it is copied. -/
def Action.sentBy (t : Tid) : Action Tid ι → Option Bytes
  | .send c _ logString => if c = t then some (cstr logString) else none
  | _ => none

/-- The messages that thread `t` has sent in a run. -/
def sentBy (t : Tid) (tr : List (State ι Tid × Action Tid ι)) : List Bytes :=
  tr.filterMap fun p => p.2.sentBy t

/-- A message that has been copied and is not in the queue yet. -/
def pending : Pc ι → List Bytes
  | .filled _ message => [message]
  | _ => []

theorem sentBy_snoc (t : Tid) (tr : List (State ι Tid × Action Tid ι)) (s : State ι Tid)
    (a : Action Tid ι) : sentBy t (tr ++ [(s, a)]) = sentBy t tr ++ (a.sentBy t).toList := by
  rw [sentBy, List.filterMap_append]
  cases h : a.sentBy t with
  | none => simp [h, sentBy]
  | some m => simp [h, sentBy]

omit [DecidableEq ι] in
/-- A thread that is not filling an item moves on. -/
theorem pending_update {pc : Tid → Pc ι} {c : Tid} {p q : Pc ι} (hc : pc c = p)
    (hp : pending p = []) (hq : pending q = []) (t : Tid) :
    pending (update pc c q t) = pending (pc t) := by
  by_cases htc : t = c
  · rw [htc, update_self, hc, hp, hq]
  · rw [update_of_ne htc]

omit [DecidableEq ι] [DecidableEq Tid] in
theorem pending_afterPop (r : Option ι) : pending (Pc.afterPop r) = [] := by
  cases r <;> rfl

/-- Only sending and enqueueing matter to what is pending and to what is enqueued. -/
theorem pending_step {s s' : State ι Tid} {a : Action Tid ι} (h : Step s a s') :
    (∃ c i m, a = .send c i m ∧ s.pc c = .outside ∧ s'.enqueued = s.enqueued ∧
      s'.pc = update s.pc c (.filled i (cstr m))) ∨
    (∃ c i m, a = .enQueue c i ∧ s.pc c = .filled i m ∧ s'.enqueued = s.enqueued ++ [m] ∧
      s'.pc = update s.pc c (.enQueuing s.enqueued.length)) ∨
    ((∀ t, a.sentBy t = none) ∧ s'.enqueued = s.enqueued ∧
      ∀ t, pending (s'.pc t) = pending (s.pc t)) := by
  cases h with
  | @send c i m hpc hi => exact .inl ⟨c, i, m, rfl, hpc, rfl, rfl⟩
  | @enQueue c i m q hpc hq => exact .inr (.inl ⟨c, i, m, rfl, hpc, rfl, rfl⟩)
  | signal hpc _ => exact .inr (.inr ⟨fun _ => rfl, rfl, pending_update hpc rfl rfl⟩)
  | enter hpc _ =>
      refine .inr (.inr ⟨fun _ => rfl, rfl, ?_⟩)
      rcases hpc with hpc | hpc
      · exact pending_update hpc rfl rfl
      · exact pending_update hpc rfl rfl
  | leave hpc _ =>
      refine .inr (.inr ⟨fun _ => rfl, rfl, ?_⟩)
      rcases hpc with hpc | hpc
      · exact pending_update hpc rfl rfl
      · exact pending_update hpc rfl rfl
  | take hpc _ => exact .inr (.inr ⟨fun _ => rfl, rfl, pending_update hpc rfl (pending_afterPop _)⟩)
  | resume hpc _ =>
      exact .inr (.inr ⟨fun _ => rfl, rfl, pending_update hpc rfl (pending_afterPop _)⟩)
  | print hpc _ => exact .inr (.inr ⟨fun _ => rfl, rfl, pending_update hpc rfl rfl⟩)
  | printNothing hpc _ => exact .inr (.inr ⟨fun _ => rfl, rfl, pending_update hpc rfl rfl⟩)
  | write hpc => exact .inr (.inr ⟨fun _ => rfl, rfl, pending_update hpc rfl rfl⟩)
  | free hpc _ => exact .inr (.inr ⟨fun _ => rfl, rfl, pending_update hpc rfl rfl⟩)
  | finish hpc => exact .inr (.inr ⟨fun _ => rfl, rfl, pending_update hpc rfl rfl⟩)
  | create _ hpc => exact .inr (.inr ⟨fun _ => rfl, rfl, pending_update hpc rfl rfl⟩)
  | _ => exact .inr (.inr ⟨fun _ => rfl, rfl, fun _ => rfl⟩)

/-! ### Records -/

/-- A thread sends what `LogString` sends, with the number of the thread. -/
def Logs (charSigned : Bool) (ident : Tid → UInt64) (_ : State ι Tid) : Action Tid ι → Prop
  | .send t _ message => ∃ e : Entry, e.threadId = ident t ∧ e.malloc 0 = true ∧
      logString charSigned e = some (some message)
  | _ => True

/-- The messages enqueued are the lines of some records, each of which has the number of its
sender; and what a thread has sent is what it has enqueued and what it is about to enqueue. -/
structure Recorded (ident : Tid → UInt64) (tr : List (State ι Tid × Action Tid ι))
    (s : State ι Tid) (who : List (Tid × Record)) : Prop where
  enqueued : (who.map Prod.snd).map Record.line = s.enqueued
  own : ∀ p ∈ who, p.2.threadId = ident p.1
  filled : ∀ t, ∀ m ∈ pending (s.pc t), ∃ r : Record, r.threadId = ident t ∧ r.line = m
  sent : ∀ t, sentBy t tr =
    ((who.filter fun p => p.1 = t).map Prod.snd).map Record.line ++ pending (s.pc t)

/-- What `LogString` sends is the line of a record, and so is the copy. -/
theorem exists_record {charSigned : Bool} {e : Entry} {message : Bytes}
    (hmalloc : e.malloc 0 = true) (h : logString charSigned e = some (some message)) :
    ∃ r : Record, r.threadId = e.threadId ∧ r.line = cstr message := by
  by_cases hempty : StringUtils.trimRight charSigned e.logString ≠ []
  · rw [logString, if_pos hempty, Option.map_eq_some_iff] at h
    obtain ⟨m, hm, hmessage⟩ := h
    obtain rfl := Option.some_inj.1 hmessage
    obtain ⟨level, -, hline⟩ := eq_line_of_formatLogString hmalloc hm
    let r : Record := ⟨getCurrentLocalTime e.localTime, e.threadId, level,
      StringUtils.trimRight charSigned e.logString⟩
    have hcstr : Record.line { r with text := cstr r.text } = cstr m := by
      rw [← cstr_line, hline]
    exact ⟨{ r with text := cstr r.text }, rfl, hcstr⟩
  · rw [logString, if_neg hempty] at h
    cases h

/-- **A run leaves the records of what it sends.** -/
theorem recorded_run {charSigned : Bool} {ident : Tid → UInt64} {mFile : Option Bytes} {t : Tid}
    {tr : List (State ι Tid × Action Tid ι)} {s : State ι Tid}
    (h : ((oneStop ι mFile t).restrict (Logs charSigned ident)).Run (constructed ι mFile t) tr s) :
    ∃ who, Recorded ident tr s who := by
  induction h with
  | nil =>
      have hpending : ∀ c, pending ((constructed ι mFile t).pc c) = [] := by
        intro c
        by_cases hct : c = t
        · simp [constructed, hct, pending]
        · simp [constructed, update_of_ne hct, pending]
      refine ⟨[], rfl, by simp, fun c m hm => ?_, fun c => ?_⟩
      · rw [hpending c] at hm
        cases hm
      · rw [hpending c]
        rfl
  | @snoc tr s a s' _ hstep ih =>
      obtain ⟨who, henqueued, hown, hfilled, hsent⟩ := ih
      obtain ⟨⟨hs, -⟩, hlogs⟩ := hstep
      rcases pending_step hs with ⟨c, i, m, rfl, hpc, heq, hpc'⟩ | ⟨c, i, m, rfl, hpc, heq, hpc'⟩ |
        ⟨hnone, heq, hpending⟩
      · obtain ⟨e, hid, hmalloc, hlog⟩ := hlogs
        obtain ⟨r, hr, hline⟩ := exists_record hmalloc hlog
        refine ⟨who, by rw [henqueued, heq], hown, fun d m' hm' => ?_, fun d => ?_⟩
        · rw [hpc'] at hm'
          by_cases hdc : d = c
          · rw [hdc, update_self, pending, List.mem_singleton] at hm'
            exact ⟨r, by rw [hr, hid, hdc], by rw [hline, hm']⟩
          · rw [update_of_ne hdc] at hm'
            exact hfilled d m' hm'
        · rw [sentBy_snoc, hsent d, hpc']
          by_cases hdc : d = c
          · rw [hdc, update_self, hpc]
            simp [pending, Action.sentBy]
          · rw [update_of_ne hdc]
            simp [Action.sentBy, Ne.symm hdc]
      · obtain ⟨r, hr, hline⟩ := hfilled c m (by rw [hpc]; exact List.mem_cons_self ..)
        refine ⟨who ++ [(c, r)], ?_, fun p hp => ?_, fun d m' hm' => ?_, fun d => ?_⟩
        · rw [List.map_append, List.map_append, henqueued, heq, List.map_singleton,
            List.map_singleton, hline]
        · rcases List.mem_append.1 hp with hp | hp
          · exact hown p hp
          · rw [List.mem_singleton.1 hp]
            exact hr
        · rw [hpc'] at hm'
          by_cases hdc : d = c
          · rw [hdc, update_self] at hm'
            cases hm'
          · rw [update_of_ne hdc] at hm'
            exact hfilled d m' hm'
        · rw [sentBy_snoc, hsent d, hpc']
          by_cases hdc : d = c
          · rw [hdc, update_self, hpc]
            simp [pending, Action.sentBy, hline]
          · rw [update_of_ne hdc]
            simp [Action.sentBy, Ne.symm hdc]
      · refine ⟨who, by rw [henqueued, heq], hown, fun d m' hm' => ?_, fun d => ?_⟩
        · rw [hpending d] at hm'
          exact hfilled d m' hm'
        · rw [sentBy_snoc, hsent d, hnone d, hpending d]
          simp

/-! ### The messages that are written -/

/-- What has been written are the first messages enqueued. -/
theorem written_prefix {file : Bytes} {t : Tid} {s : State ι Tid}
    (h : (oneStop ι (some file) t).Reachable s) : s.written <+: s.enqueued := by
  have hinv : (oneStop ι (some file) t).Invariant
      fun s => Running t s ∧ ∃ L, Delivery file t s L := by
    refine (running_invariant (some file) t).relative ?_ ?_
    · intro s hs
      rw [hs]
      exact ⟨[], delivery_constructed file t⟩
    · intro s a s' hr hd hs
      obtain ⟨L, hd⟩ := hd
      exact ⟨_, delivery_step hs.1 hr hd⟩
  obtain ⟨L, hd⟩ := (hinv.reachable h).2
  exact hd.accounted.log_prefix

/-- The file that some messages make. -/
def logFile (messages : List Bytes) : Bytes := bom ++ (messages.map logLine).flatten

theorem logFile_snoc (messages : List Bytes) (m : Bytes) :
    logFile (messages ++ [m]) = logFile messages ++ logLine m := by
  simp [logFile]

/-- The same logger with all that it has written in one file. -/
def State.withFile (s : State ι Tid) : State ι Tid := { s with mFile := some (logFile s.written) }

/-- What the threads do does not depend on the file. -/
theorem Step.withFile {s s' : State ι Tid} {a : Action Tid ι} (h : Step s a s') :
    Step s.withFile a s'.withFile := by
  cases h with
  | send hpc hi => exact .send hpc hi
  | enQueue hpc hq => exact .enQueue hpc hq
  | signal hpc hq => exact .signal hpc hq
  | enter hpc hrun => exact .enter hpc hrun
  | leave hpc hrun => exact .leave hpc hrun
  | wait hpc hq => exact .wait hpc hq
  | take hpc hq => exact .take hpc hq
  | spurious hq => exact .spurious hq
  | resume hpc hq => exact .resume hpc hq
  | print hpc hi => exact .print hpc hi
  | printNothing hpc hi => exact .printNothing hpc hi
  | @write c i loginfo hpc =>
      have hfile : (LoggerThread.writeStringToLog (some (logFile s.written)) loginfo).1 =
          some (logFile (s.written ++ [loginfo])) := by
        rw [writeStringToLog_eq, logFile_snoc]
      have hstep := Step.write (s := s.withFile) hpc
      dsimp only [State.withFile] at hstep ⊢
      rw [hfile] at hstep
      exact hstep
  | free hpc hi => exact .free hpc hi
  | finish hpc => exact .finish hpc
  | startRefused hc hrun => exact .startRefused hc hrun
  | start hc hrun => exact .start hc hrun
  | resetId hc => exact .resetId hc
  | raise hc => exact .raise hc
  | create hc hpc => exact .create hc hpc
  | createFails hc => exact .createFails hc
  | storeId hc => exact .storeId hc
  | lower hc => exact .lower hc
  | failed hc => exact .failed hc
  | stop hc => exact .stop hc
  | broadcast hc hq => exact .broadcast hc hq

end LoggerThread

open LoggerThread

variable {ι Tid : Type} [DecidableEq ι] [DecidableEq Tid]

/-! ### The files -/

/-- The logger with its files: `thread.mFile` is what has been put to the stream that is open. -/
structure LoggerFiles (ι Tid : Type) [DecidableEq ι] where
  thread : LoggerThread.State ι Tid
  /-- what of the stream has been flushed -/
  flushed : Bytes
  /-- the files that have been closed, the last one behind -/
  closed : List Bytes

namespace LoggerFiles

/-- A step of a thread, or a call of `Logger::Init` or `Logger::Close`. -/
inductive Action (Tid ι : Type) where
  | thread (a : LoggerThread.Action Tid ι)
  | init (opens : Bool)
  | close

/-- `OpenLogFile`, in which `fopen` succeeds or not. -/
def openLogFile (s : LoggerFiles ι Tid) (opens : Bool) : LoggerFiles ι Tid :=
  match s.thread.mFile with
  | some _ => s
  | none =>
      if opens then { s with thread := { s.thread with mFile := some bom }, flushed := [] } else s

/-- `CloseLogFile`: `fclose` flushes the stream. -/
def closeLogFile (s : LoggerFiles ι Tid) : LoggerFiles ι Tid :=
  match s.thread.mFile with
  | none => s
  | some file =>
      { thread := { s.thread with mFile := none }, flushed := [], closed := s.closed ++ [file] }

/-- After `WriteStringToLog` the stream is flushed. -/
def fflush (mFile : Option Bytes) (flushed : Bytes) : LoggerThread.Action Tid ι → Bytes
  | .write _ => mFile.getD []
  | _ => flushed

inductive Step : LoggerFiles ι Tid → Action Tid ι → LoggerFiles ι Tid → Prop
  | thread {s : LoggerFiles ι Tid} {a : LoggerThread.Action Tid ι} {thread : State ι Tid} :
      LoggerThread.Step s.thread a thread → Once s.thread a →
      Step s (.thread a)
        { s with thread := thread, flushed := fflush thread.mFile s.flushed a }
  | init {s : LoggerFiles ι Tid} {opens : Bool} : Step s (.init opens) (s.openLogFile opens)
  | close {s : LoggerFiles ι Tid} : Step s .close s.closeLogFile

/-- The logger whose constructor has created thread `t`. -/
def constructed (ι : Type) {Tid : Type} [DecidableEq ι] [DecidableEq Tid] (t : Tid) :
    LoggerFiles ι Tid :=
  ⟨LoggerThread.constructed ι none t, [], []⟩

/-- The machine of a logger that is never started again and stopped once. -/
def machine (ι : Type) {Tid : Type} [DecidableEq ι] [DecidableEq Tid] (t : Tid) :
    Machine (LoggerFiles ι Tid) (Action Tid ι) where
  init s := s = constructed ι t
  step := Step

/-- What the file that is open holds on the disk. -/
def onDisk (s : LoggerFiles ι Tid) : Option Bytes := s.thread.mFile.map fun _ => s.flushed

/-- A thread sends what `LogString` sends, with the number of the thread. -/
def Logs (charSigned : Bool) (ident : Tid → UInt64) (s : LoggerFiles ι Tid) : Action Tid ι → Prop
  | .thread a => LoggerThread.Logs charSigned ident s.thread a
  | _ => True

/-- The messages that thread `t` has sent in a run. -/
def sentBy (t : Tid) (tr : List (LoggerFiles ι Tid × Action Tid ι)) : List Bytes :=
  tr.filterMap fun p =>
    match p.2 with
    | .thread a => a.sentBy t
    | _ => none

/-! ### One file all the time -/

/-- The logger as if one file had been open all the time. -/
def whole (s : LoggerFiles ι Tid) : State ι Tid := s.thread.withFile

/-- The steps of the threads in a run. -/
def threadSteps (tr : List (LoggerFiles ι Tid × Action Tid ι)) :
    List (State ι Tid × LoggerThread.Action Tid ι) :=
  tr.filterMap fun p =>
    match p.2 with
    | .thread a => some (p.1.whole, a)
    | _ => none

omit [DecidableEq Tid] in
@[simp] theorem whole_openLogFile (s : LoggerFiles ι Tid) (opens : Bool) :
    (s.openLogFile opens).whole = s.whole := by
  unfold openLogFile
  split
  · rfl
  · split <;> rfl

omit [DecidableEq Tid] in
@[simp] theorem whole_closeLogFile (s : LoggerFiles ι Tid) : s.closeLogFile.whole = s.whole := by
  unfold closeLogFile
  split <;> rfl

theorem sentBy_threadSteps (t : Tid) (tr : List (LoggerFiles ι Tid × Action Tid ι)) :
    LoggerThread.sentBy t (threadSteps tr) = sentBy t tr := by
  rw [LoggerThread.sentBy, threadSteps, List.filterMap_filterMap, sentBy]
  refine List.filterMap_congr fun p _ => ?_
  cases p.2 <;> rfl

/-- **The threads do not depend on the files**: in a run they do what they do with one file. -/
theorem run_whole {charSigned : Bool} {ident : Tid → UInt64} {t : Tid}
    {tr : List (LoggerFiles ι Tid × Action Tid ι)} {s : LoggerFiles ι Tid}
    (h : ((machine ι t).restrict (Logs charSigned ident)).Run (constructed ι t) tr s) :
    ((oneStop ι (some bom) t).restrict (LoggerThread.Logs charSigned ident)).Run
      (LoggerThread.constructed ι (some bom) t) (threadSteps tr) s.whole := by
  induction h with
  | nil => exact .nil
  | @snoc tr s a s' _ hstep ih =>
      obtain ⟨hs, hlogs⟩ := hstep
      rw [threadSteps, List.filterMap_append]
      cases hs with
      | thread hthread honce => exact ih.snoc ⟨⟨hthread.withFile, honce⟩, hlogs⟩
      | init =>
          rw [whole_openLogFile]
          exact (List.append_nil (threadSteps tr)).symm ▸ ih
      | close =>
          rw [whole_closeLogFile]
          exact (List.append_nil (threadSteps tr)).symm ▸ ih

/-! ### What the files hold -/

/-- The messages in the files that are closed, and in the one that is open. -/
structure Filed (s : LoggerFiles ι Tid) (past : List (List Bytes)) (messages : List Bytes) :
    Prop where
  closed : s.closed = past.map logFile
  opened : ∀ file, s.thread.mFile = some file → file = logFile messages
  none : s.thread.mFile = none → messages = []
  flushed : s.flushed = [] ∧ messages = [] ∨ s.flushed = logFile messages
  stretches : ∃ earlier, s.thread.written = earlier ++ messages ∧ Stretches past earlier

omit [DecidableEq Tid] in
theorem filed_openLogFile {s : LoggerFiles ι Tid} {past : List (List Bytes)} {messages : List Bytes}
    (h : Filed s past messages) (opens : Bool) : Filed (s.openLogFile opens) past messages := by
  unfold openLogFile
  split
  · exact h
  · rename_i hnone
    obtain rfl := h.none hnone
    split
    · refine ⟨h.closed, fun file hfile => ?_, fun _ => rfl, .inl ⟨rfl, rfl⟩, h.stretches⟩
      exact (Option.some_inj.1 hfile).symm
    · exact h

omit [DecidableEq Tid] in
theorem filed_closeLogFile {s : LoggerFiles ι Tid} {past : List (List Bytes)}
    {messages : List Bytes} (h : Filed s past messages) :
    ∃ past messages, Filed s.closeLogFile past messages := by
  unfold closeLogFile
  split
  · exact ⟨past, messages, h⟩
  · rename_i file hfile
    obtain ⟨earlier, hwritten, hpast⟩ := h.stretches
    refine ⟨past ++ [messages], [], ⟨?_, fun _ hnone => ?_, fun _ => rfl, .inl ⟨rfl, rfl⟩,
      s.thread.written, (List.append_nil _).symm, ?_⟩⟩
    · rw [List.map_append, ← h.closed, h.opened file hfile]
      rfl
    · cases hnone
    · rw [hwritten]
      exact hpast.part messages

/-- A step of a thread writes one message or none. -/
theorem written_step {s s' : State ι Tid} {a : LoggerThread.Action Tid ι}
    (h : LoggerThread.Step s a s') :
    (∃ t m, a = .write t ∧ s'.written = s.written ++ [m] ∧
      s'.mFile = (LoggerThread.writeStringToLog s.mFile m).1) ∨
    ((∀ mFile flushed, fflush mFile flushed a = flushed) ∧ s'.written = s.written ∧
      s'.mFile = s.mFile) := by
  cases h with
  | @write c i m hpc => exact .inl ⟨c, m, rfl, rfl, rfl⟩
  | _ => exact .inr ⟨fun _ _ => rfl, rfl, rfl⟩

theorem filed_thread {s : LoggerFiles ι Tid} {thread : State ι Tid}
    {a : LoggerThread.Action Tid ι} {past : List (List Bytes)} {messages : List Bytes}
    (hs : LoggerThread.Step s.thread a thread) (h : Filed s past messages) :
    ∃ messages, Filed { s with thread := thread, flushed := fflush thread.mFile s.flushed a } past
      messages := by
  obtain ⟨earlier, hearlier, hpast⟩ := h.stretches
  rcases written_step hs with ⟨t, m, rfl, hwritten, hfile⟩ | ⟨hflush, hwritten, hfile⟩
  · cases hmFile : s.thread.mFile with
    | none =>
        rw [hmFile] at hfile
        obtain rfl := h.none hmFile
        refine ⟨[], h.closed, fun file hsome => ?_, fun _ => rfl, .inl ⟨?_, rfl⟩,
          earlier ++ [m], ?_, hpast.skip [m]⟩
        · cases hfile.symm.trans hsome
        · exact congrArg (fun o => Option.getD o []) hfile
        · rw [hwritten, hearlier, List.append_nil, List.append_nil]
    | some file =>
        have hnew : thread.mFile = some (logFile (messages ++ [m])) := by
          rw [hfile, hmFile, h.opened file hmFile, writeStringToLog_eq, logFile_snoc]
        refine ⟨messages ++ [m], h.closed, fun file hsome => ?_, fun hnone => ?_, .inr ?_,
          earlier, ?_, hpast⟩
        · exact (Option.some_inj.1 (hnew.symm.trans hsome)).symm
        · cases hnew.symm.trans hnone
        · exact congrArg (fun o => Option.getD o []) hnew
        · rw [hwritten, hearlier, List.append_assoc]
  · refine ⟨messages, h.closed, fun file hsome => ?_, fun hnone => ?_, ?_, earlier, ?_, hpast⟩
    · exact h.opened file (hfile.symm.trans hsome)
    · exact h.none (hfile.symm.trans hnone)
    · rw [hflush]
      exact h.flushed
    · exact hwritten.trans hearlier

/-- **What the files hold** in a run. -/
theorem filed_run {t : Tid} {tr : List (LoggerFiles ι Tid × Action Tid ι)} {s : LoggerFiles ι Tid}
    (h : (machine ι t).Run (constructed ι t) tr s) : ∃ past messages, Filed s past messages := by
  induction h with
  | nil =>
      refine ⟨[], [], rfl, fun file hfile => ?_, fun _ => rfl, .inl ⟨rfl, rfl⟩, [], rfl, .nil⟩
      cases hfile
  | snoc _ hstep ih =>
      obtain ⟨past, messages, hfiled⟩ := ih
      cases hstep with
      | thread hthread _ => exact ⟨past, filed_thread hthread hfiled⟩
      | init => exact ⟨past, messages, filed_openLogFile hfiled _⟩
      | close => exact filed_closeLogFile hfiled

omit [DecidableEq Tid] in
/-- The file of the lines of some records. -/
theorem readLog_logFile (v : List (Tid × Record)) :
    readLog (logFile (v.map fun p => p.2.line)) = some (v.map Prod.snd) := by
  have hlines : (v.map fun p => p.2.line).map logLine =
      (v.map Prod.snd).map fun r => logLine r.line := by
    rw [List.map_map, List.map_map]
    rfl
  rw [logFile, hlines]
  exact readLog_lines (v.map Prod.snd)

/-- The lines of one thread among those of some records. -/
def recordsOf (threadId : UInt64) (rs : List Record) : List Bytes :=
  (rs.filter fun r => r.threadId = threadId).map Record.line

omit [DecidableEq ι] in
/-- Records with the numbers of their senders. -/
theorem recordsOf_own {ident : Tid → UInt64} (hident : Function.Injective ident)
    {v : List (Tid × Record)} (hown : ∀ p ∈ v, p.2.threadId = ident p.1) (c : Tid) :
    recordsOf (ident c) (v.map Prod.snd) =
      ((v.filter fun p => p.1 = c).map Prod.snd).map Record.line := by
  have hfilter : v.filter ((fun r : Record => decide (r.threadId = ident c)) ∘ Prod.snd) =
      v.filter fun p => p.1 = c := by
    refine List.filter_congr fun p hp => ?_
    simp only [Function.comp_apply, hown p hp, decide_eq_decide]
    exact hident.eq_iff
  rw [recordsOf, List.filter_map, hfilter]

end LoggerFiles

open LoggerFiles

/-- **The files at any time of any run.**  Let the threads of a logger send what `LogString` sends,
with numbers that differ from thread to thread, while files are opened and closed.  However they are
interleaved, records are read from each file that was closed and from the one that is open, as soon
as anything of it is on the disk.  Their lines are stretches of what has been enqueued, and those of
one thread are stretches of what this thread has sent, in the order in which it has sent them: no
file has a gap, and none has what another one has. -/
theorem log_file_in_order (charSigned : Bool) {ident : Tid → UInt64}
    (hident : Function.Injective ident) (t : Tid)
    {tr : List (LoggerFiles ι Tid × LoggerFiles.Action Tid ι)} {s : LoggerFiles ι Tid}
    (h : ((LoggerFiles.machine ι t).restrict (LoggerFiles.Logs charSigned ident)).Run
      (LoggerFiles.constructed ι t) tr s) :
    ∃ (past : List (List Record)) (rs : List Record),
      s.closed.map readLog = past.map some ∧
      (∀ file, s.onDisk = some file → file = [] ∧ rs = [] ∨ readLog file = some rs) ∧
      Stretches ((past ++ [rs]).map (List.map Record.line)) s.thread.enqueued ∧
      ∀ c, Stretches ((past ++ [rs]).map (recordsOf (ident c))) (LoggerFiles.sentBy c tr) := by
  have hwhole := run_whole h
  obtain ⟨who, hwho⟩ := recorded_run hwhole
  have hprefix := written_prefix (hwhole.of_restrict.reachable (.init rfl))
  obtain ⟨past, messages, hfiled⟩ := filed_run h.of_restrict
  obtain ⟨earlier, hwritten, hpast⟩ := hfiled.stretches
  -- the messages in the files are the lines of records that were sent
  have hstretches : Stretches (past ++ [messages]) s.thread.enqueued := by
    refine (hpast.part messages).mono ?_
    rw [← hwritten]
    exact hprefix
  have hlines : s.thread.enqueued = who.map fun p => p.2.line := by
    rw [← Function.comp_def Record.line, ← List.map_map]
    exact hwho.enqueued.symm
  obtain ⟨whos, hwhos, hmap⟩ := hstretches.exists_of_map hlines
  obtain ⟨ws, last, rfl, rfl, hlast⟩ := List.map_eq_append_iff.1 hmap
  obtain ⟨w, rfl, rfl⟩ := List.map_eq_singleton_iff.1 hlast
  have hboth : ws.map (List.map Prod.snd) ++ [w.map Prod.snd] =
      (ws ++ [w]).map (List.map Prod.snd) := by
    simp
  refine ⟨ws.map (List.map Prod.snd), w.map Prod.snd, ?_, fun file hfile => ?_, ?_, fun c => ?_⟩
  · rw [hfiled.closed, List.map_map, List.map_map, List.map_map]
    exact List.map_congr_left fun v _ => readLog_logFile v
  · obtain ⟨_, _, rfl⟩ := Option.map_eq_some_iff.1 hfile
    rcases hfiled.flushed with ⟨hnone, hmessages⟩ | hflushed
    · exact .inl ⟨hnone, List.map_eq_nil_iff.2 (List.map_eq_nil_iff.1 hmessages)⟩
    · rw [hflushed]
      exact .inr (readLog_logFile w)
  · have hline : (ws ++ [w]).map (fun v => (v.map Prod.snd).map Record.line) =
        ws.map (List.map fun p => p.2.line) ++ [w.map fun p => p.2.line] := by
      simp [Function.comp_def]
    rw [hboth, List.map_map, Function.comp_def, hline]
    exact hstretches
  · have hof : (ws ++ [w]).map (fun v => recordsOf (ident c) (v.map Prod.snd)) =
        (ws ++ [w]).map fun v => ((v.filter fun p => p.1 = c).map Prod.snd).map Record.line := by
      refine List.map_congr_left fun v hv => ?_
      exact recordsOf_own hident (fun p hp => hwho.own p ((hwhos.isInfix v hv).subset hp)) c
    have hhom := hwhos.hom (φ := fun v => ((v.filter fun p => p.1 = c).map Prod.snd).map
      Record.line) rfl (fun v v' => by simp)
    rw [hboth, List.map_map, Function.comp_def, hof, ← sentBy_threadSteps, hwho.sent c]
    exact hhom.mono (List.prefix_append _ _)

namespace LoggerFiles

/-- A file is opened, and the message `m` of thread `true` is sent and written by the logger
thread. -/
theorem written_run (m : Bytes) : ∃ tr s,
    (LoggerFiles.machine ℕ false).Run (LoggerFiles.constructed ℕ false) tr s ∧
      tr.map Prod.snd = [.init true, .thread (.send true 5 m), .thread (.enQueue true 5),
        .thread (.signal true none), .thread (.test false), .thread (.take false (some 5)),
        .thread (.print false), .thread (.write false)] ∧
      s.onDisk = some (logFile [cstr m]) := by
  obtain ⟨q, q', hfree, hpush, hlength, hpop, -⟩ := (mqueueFifo ℕ).push_pop_empty 5
  have hnone := @BlockingQueue.isWaiting_update _ _ (fun _ => .idle) (fun _ => rfl) true
    .signalling rfl
  have h₀ : (LoggerFiles.machine ℕ false).Run (LoggerFiles.constructed ℕ false) [] _ := .nil
  have hopen : Step (LoggerFiles.constructed ℕ false) (.init true) _ := .init
  have hsend : LoggerThread.Step ((LoggerFiles.constructed ℕ false).openLogFile true).thread
      (.send true 5 m) _ := .send rfl rfl
  have h₁ := h₀.snoc hopen
  have h₂ := h₁.snoc (Step.thread hsend trivial)
  have h₃ := h₂.snoc (Step.thread (.enQueue (t := true) rfl (.enQueue rfl hfree hpush)) trivial)
  have h₄ := h₃.snoc (Step.thread (.signal (t := true) rfl (.signalNobody rfl hnone)) trivial)
  have h₅ := h₄.snoc (Step.thread (.enter (t := false) (.inl rfl) rfl) trivial)
  have h₆ := h₅.snoc (Step.thread (.take (t := false) rfl (.take rfl hlength hpop)) trivial)
  have h₇ := h₆.snoc (Step.thread (.print (t := false) rfl rfl) trivial)
  have h₈ := h₇.snoc (Step.thread (.write (t := false) rfl) trivial)
  refine ⟨_, _, h₈, rfl, ?_⟩
  have hwritten : (LoggerThread.writeStringToLog (some bom) (cstr (cstr m ++ [0]))).1 =
      some (logFile [cstr m]) := by
    rw [writeStringToLog_eq, cstr_cstr_append]
    simp [logFile]
  exact congrArg (fun mFile : Option Bytes => mFile.map fun _ => mFile.getD []) hwritten

end LoggerFiles

/-- Thread `true` has sent the letter `a`, and the logger thread `false` has written it to the file
that was opened before. -/
theorem log_file_in_order_sent : ∃ (r : Record) (tr : List _) (s : LoggerFiles ℕ Bool)
    (past : List (List Record)),
    ((LoggerFiles.machine ℕ false).restrict (LoggerFiles.Logs true Bool.toUInt64)).Run
      (LoggerFiles.constructed ℕ false) tr s ∧
    r = ⟨.midnight, 1, .debug, [97]⟩ ∧ s.onDisk = some (logFile [r.line]) ∧
    s.closed.map readLog = past.map some ∧
    Stretches ((past ++ [[r]]).map (List.map Record.line)) s.thread.enqueued ∧
    ∀ c, Stretches ((past ++ [[r]]).map (recordsOf c.toUInt64)) (LoggerFiles.sentBy c tr) := by
  obtain ⟨r, hr⟩ : ∃ r : Record, r = ⟨.midnight, 1, .debug, [97]⟩ := ⟨_, rfl⟩
  have hformat : formatLogString (fun _ => true) 2 none 1 LogPriority.debug.code [97] =
      some r.line := by
    rw [hr]
    exact formatLogString_code rfl none 1 .debug (by decide) (by decide)
  have hlogs : logString true ⟨fun _ => true, none, 1, 3, [97]⟩ = some (some r.line) := by
    rw [logString, if_pos (by decide)]
    exact congrArg (Option.map some) hformat
  have hcstr : cstr r.line = r.line := by
    rw [cstr_line, hr]
    rfl
  obtain ⟨tr, s, hrun, hactions, hdisk⟩ := LoggerFiles.written_run r.line
  have hcareful : ∀ a ∈ tr.map Prod.snd, LoggerFiles.Logs true Bool.toUInt64 s a := by
    rw [hactions]
    simp only [LoggerFiles.Logs, LoggerThread.Logs, List.forall_mem_cons, true_and]
    exact ⟨⟨_, rfl, rfl, hlogs⟩, List.forall_mem_nil _⟩
  have hrun' := hrun.restrict (C := LoggerFiles.Logs true Bool.toUInt64)
    fun p hp => hcareful p.2 (List.mem_map_of_mem hp)
  obtain ⟨past, rs, hclosed, hopened, henqueued, hsent⟩ :=
    log_file_in_order true (by decide) false hrun'
  rw [hcstr] at hdisk
  have hread := (hopened _ hdisk).resolve_left fun hempty => List.cons_ne_nil _ _ hempty.1
  obtain rfl := Option.some_inj.1 ((readLog_logFile [(true, r)]).symm.trans hread)
  exact ⟨r, tr, s, past, hrun', hr, hdisk, hclosed, henqueued, hsent⟩

end VModule

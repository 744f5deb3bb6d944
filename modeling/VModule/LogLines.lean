/-
**The lines of the log.**

`FormatLogString` of `sutils/Logger.cpp` puts the time, the thread and the level in front of a text,
and 44 blanks behind each line feed of it.  `WriteStringToLog` of `sutils/LoggerThread.cpp` ends
each message with a line feed, in a file that `OpenLogFile` has begun with a byte order mark.  A
line of the prefix begins with a digit, so that the records can be read back from the file,
whatever the texts are.

Main definitions:

* `VModule.LogLines.LocalTime`, `VModule.LogLines.Record` — what a message says;
* `VModule.LogLines.logPrefix`, `VModule.LogLines.formatLogString`,
  `VModule.LogLines.logString` — the functions of `Logger`;
* `VModule.LogLines.writeStringToLogW` — `WriteStringToLog` for Windows;
* `VModule.LogLines.readRecord`, `VModule.LogLines.readLog` — reading a file.

Main results:

* `VModule.LogLines.format_logPrefix` — the prefix always fits into the first buffer of `FormatV`;
* `VModule.LogLines.eq_line_of_formatLogString` — the message of a record;
* `VModule.LogLines.readRecord_printed` — a record is read from its prefix and text;
* `VModule.LogLines.readLog_lines` — the records are read from their lines.
-/

import VModule.FormatV
import VModule.HangingIndent
import VModule.LoggerLevels
import VModule.LoggerThread
import VModule.ReplaceRuns
import Mathlib.Data.Nat.Digits.Lemmas

set_option relaxedAutoImplicit false
set_option autoImplicit false

namespace VModule

open HangingIndent Words
open Logger (ascii)

namespace LogLines

/-! ### Numbers -/

/-- `%d` of a number that is not negative. -/
def decimal (n : ℕ) : Bytes :=
  if n = 0 then [48] else (Nat.digits 10 n).reverse.map fun d => UInt8.ofNat (48 + d)

def isDigit (c : UInt8) : Bool := 48 ≤ c ∧ c ≤ 57

/-- The number that some digits are. -/
def readDecimal (b : Bytes) : ℕ := Nat.ofDigits 10 (b.reverse.map fun c => c.toNat - 48)

/-- `%02.2d`: the precision adds zeros, and a width of two adds nothing to two digits. -/
def twoDigits (n : ℕ) : Bytes := List.replicate (2 - (decimal n).length) 48 ++ decimal n

/-- `%7s`. -/
def sevenWide (s : Bytes) : Bytes := List.replicate (7 - s.length) 32 ++ s

theorem isDigit_ofNat {d : ℕ} (h : d < 10) : isDigit (UInt8.ofNat (48 + d)) = true := by
  interval_cases d <;> rfl

theorem isDigit_decimal (n : ℕ) : ∀ c ∈ decimal n, isDigit c = true := by
  intro c hc
  by_cases hn : n = 0
  · rw [decimal, if_pos hn, List.mem_singleton] at hc
    rw [hc]
    rfl
  · rw [decimal, if_neg hn] at hc
    obtain ⟨d, hd, rfl⟩ := List.mem_map.1 hc
    exact isDigit_ofNat (Nat.digits_lt_base (by omega) (List.mem_reverse.1 hd))

theorem isDigit_twoDigits (n : ℕ) : ∀ c ∈ twoDigits n, isDigit c = true := by
  intro c hc
  rcases List.mem_append.1 hc with hc | hc
  · rw [List.eq_of_mem_replicate hc]
    rfl
  · exact isDigit_decimal n c hc

theorem readDecimal_decimal (n : ℕ) : readDecimal (decimal n) = n := by
  by_cases hn : n = 0
  · rw [decimal, if_pos hn, hn]
    rfl
  · have hdigit : ∀ d ∈ Nat.digits 10 n, (UInt8.ofNat (48 + d)).toNat - 48 = d := by
      intro d hd
      have hlt : d < 10 := Nat.digits_lt_base (by omega) hd
      interval_cases d <;> rfl
    have hmap : (Nat.digits 10 n).map ((fun c => c.toNat - 48) ∘ fun d => UInt8.ofNat (48 + d)) =
        Nat.digits 10 n := (List.map_congr_left hdigit).trans (List.map_id' _)
    rw [decimal, if_neg hn, readDecimal, ← List.map_reverse, List.reverse_reverse, List.map_map,
      hmap, Nat.ofDigits_digits]

theorem readDecimal_twoDigits (n : ℕ) : readDecimal (twoDigits n) = n := by
  have hzero : (UInt8.toNat 48 - 48) = 0 := rfl
  rw [twoDigits, readDecimal, List.reverse_append, List.map_append, List.reverse_replicate,
    List.map_replicate, hzero, Nat.ofDigits_append_replicate_zero]
  exact readDecimal_decimal n

theorem length_decimal_le {n k : ℕ} (hk : 0 < k) (h : n < 10 ^ k) : (decimal n).length ≤ k := by
  by_cases hn : n = 0
  · rw [decimal, if_pos hn]
    exact hk
  · rw [decimal, if_neg hn, List.length_map, List.length_reverse]
    exact (Nat.digits_length_le_iff (by omega) n).2 h

theorem length_twoDigits {n : ℕ} (h : n < 100) : (twoDigits n).length = 2 := by
  have hle : (decimal n).length ≤ 2 := length_decimal_le (by omega) h
  rw [twoDigits, List.length_append, List.length_replicate]
  omega

/-! ### Records -/

/-- The fields of a `struct tm` that are looked at; a second may be a leap second. -/
structure LocalTime where
  hour : ℕ
  minute : ℕ
  second : ℕ
  hour_lt : hour < 24
  minute_lt : minute < 60
  second_le : second ≤ 60
  deriving DecidableEq

def LocalTime.midnight : LocalTime := ⟨0, 0, 0, by decide, by decide, by decide⟩

/-- `GetCurrentLocalTime`, with what `localtime_r` answers; `none` if it fails, or `time` does. -/
def getCurrentLocalTime (localTime : Option LocalTime) : LocalTime :=
  match localTime with
  | some t => t
  | none => .midnight

/-- The name of a level in a line of the log. -/
def levelName : LogPriority → String
  | .unknown => "UNKNOWN"
  | .default => "DEFAULT"
  | .verbose => "VERBOSE"
  | .debug => "DEBUG"
  | .info => "INFO"
  | .warn => "WARN"
  | .error => "ERROR"
  | .fatal => "FATAL"
  | .silent => "SILENT"

def levels : List LogPriority :=
  [.unknown, .default, .verbose, .debug, .info, .warn, .error, .fatal, .silent]

theorem lookUp_code (level : LogPriority) :
    Logger.lookUp Logger.levelNames level.code = some (levelName level) := by
  cases level <;> rfl

/-- The levels of the enumeration are those that the table has a name for. -/
theorem eq_of_lookUp {logLevel : ℤ} {name : String}
    (h : Logger.lookUp Logger.levelNames logLevel = some name) :
    ∃ level : LogPriority, level.code = logLevel ∧ levelName level = name := by
  obtain ⟨hlow, hhigh⟩ := (Logger.lookUp_levelNames logLevel).1 ⟨name, h⟩
  rw [Logger.logUnknown] at hlow
  rw [Logger.logSilent] at hhigh
  have hcode : ∃ level : LogPriority, level.code = logLevel := by
    interval_cases logLevel
    · exact ⟨.unknown, rfl⟩
    · exact ⟨.default, rfl⟩
    · exact ⟨.verbose, rfl⟩
    · exact ⟨.debug, rfl⟩
    · exact ⟨.info, rfl⟩
    · exact ⟨.warn, rfl⟩
    · exact ⟨.error, rfl⟩
    · exact ⟨.fatal, rfl⟩
    · exact ⟨.silent, rfl⟩
  obtain ⟨level, rfl⟩ := hcode
  rw [lookUp_code] at h
  exact ⟨level, rfl, Option.some_inj.1 h⟩

/-- What a message says. -/
structure Record where
  time : LocalTime
  threadId : UInt64
  level : LogPriority
  text : Bytes

/-! ### Formatting -/

/-- What `vsnprintf` makes of `prefixFormat`. -/
def logPrefix (time : LocalTime) (threadId : UInt64) (levelName : Bytes) : Bytes :=
  twoDigits time.hour ++ ascii ":" ++ twoDigits time.minute ++ ascii ":" ++
    twoDigits time.second ++ ascii " T:" ++ decimal threadId.toNat ++ ascii " " ++
    sevenWide levelName ++ ascii ": "

/-- The blanks behind a line feed. -/
def indentation : Bytes := List.replicate 44 32

/-- `FormatLogString`, with the message that it sends.  It has none for a level outside the table
of names, or where the line feeds are more than an `int` counts; and there is no prefix in it if
`Format` has no memory. -/
def formatLogString (malloc : ℕ → Bool) (fuel : ℕ) (localTime : Option LocalTime)
    (threadId : UInt64) (logLevel : ℤ) (logString : Bytes) : Option Bytes :=
  match StringUtils.replaceString fuel logString [10] (10 :: indentation) with
  | none => none
  | some (strData, _) =>
      match Logger.lookUp Logger.levelNames logLevel with
      | none => none
      | some name =>
          match StringUtils.formatVLoop
              (.text (logPrefix (getCurrentLocalTime localTime) threadId (ascii name)))
              malloc fuel 512 0 with
          | some (.returned str _) => some (str ++ strData)
          | _ => none

/-- The prefix and the text of a record. -/
def Record.printed (r : Record) : Bytes :=
  logPrefix r.time r.threadId (ascii (levelName r.level)) ++ r.text

/-- The message of a record. -/
def Record.line (r : Record) : Bytes := hang 10 indentation r.printed

theorem not_mem_of_isDigit {b : Bytes} {c : UInt8} (hc : isDigit c = false)
    (h : ∀ c ∈ b, isDigit c = true) : c ∉ b := by
  intro hmem
  rw [h c hmem] at hc
  cases hc

/-- A prefix is one line, and a C string. -/
theorem not_mem_logPrefix (time : LocalTime) (threadId : UInt64) (level : LogPriority) {c : UInt8}
    (hc : c = 0 ∨ c = 10) : c ∉ logPrefix time threadId (ascii (levelName level)) := by
  have hnot : isDigit c = false := by
    rcases hc with rfl | rfl <;> rfl
  have htwo := fun n => not_mem_of_isDigit hnot (isDigit_twoDigits n)
  have hid := not_mem_of_isDigit hnot (isDigit_decimal threadId.toNat)
  have hname : c ∉ sevenWide (ascii (levelName level)) := by
    rcases hc with rfl | rfl <;> cases level <;> decide
  have hliteral : c ∉ ascii ":" ∧ c ∉ ascii " T:" ∧ c ∉ ascii " " ∧ c ∉ ascii ": " := by
    rcases hc with rfl | rfl <;> decide
  simp only [logPrefix, List.mem_append, not_or]
  exact ⟨⟨⟨⟨⟨⟨⟨⟨⟨htwo _, hliteral.1⟩, htwo _⟩, hliteral.1⟩, htwo _⟩, hliteral.2.1⟩, hid⟩,
    hliteral.2.2.1⟩, hname⟩, hliteral.2.2.2⟩

theorem logPrefix_ne_nil (time : LocalTime) (threadId : UInt64) (name : Bytes) :
    logPrefix time threadId name ≠ [] :=
  List.append_ne_nil_of_right_ne_nil _ (by decide)

/-- There are twenty digits at most in the number of a thread. -/
theorem length_logPrefix_le (time : LocalTime) (threadId : UInt64) (level : LogPriority) :
    (logPrefix time threadId (ascii (levelName level))).length ≤ 41 := by
  have hid : (decimal threadId.toNat).length ≤ 20 := by
    refine length_decimal_le (by omega) ?_
    have hlt := threadId.toNat_lt
    omega
  have hname : (sevenWide (ascii (levelName level))).length = 7 := by
    cases level <;> rfl
  have hminute : time.minute < 100 := Nat.lt_trans time.minute_lt (by omega)
  have hsecond : time.second < 100 := Nat.lt_of_le_of_lt time.second_le (by omega)
  have hhour : time.hour < 100 := Nat.lt_trans time.hour_lt (by omega)
  have hliteral : (ascii ":").length = 1 ∧ (ascii " T:").length = 3 ∧ (ascii " ").length = 1 ∧
      (ascii ": ").length = 2 := by
    decide
  simp only [logPrefix, List.length_append, length_twoDigits hhour, length_twoDigits hminute,
    length_twoDigits hsecond, hname, hliteral]
  omega

/-- **The prefix fits** into the first buffer of `FormatV`. -/
theorem format_logPrefix (time : LocalTime) (threadId : UInt64) (level : LogPriority)
    {malloc : ℕ → Bool} (h : malloc 0 = true) (fuel : ℕ) :
    StringUtils.formatVLoop (.text (logPrefix time threadId (ascii (levelName level)))) malloc
        (fuel + 1) 512 0 =
      some (.returned (logPrefix time threadId (ascii (levelName level))) 1) := by
  have hle := length_logPrefix_le time threadId level
  exact StringUtils.formatVLoop_fits h (by omega)

/-- The line feeds of a message are those of its text. -/
theorem Record.line_eq (r : Record) :
    r.line = logPrefix r.time r.threadId (ascii (levelName r.level)) ++
      hang 10 indentation r.text :=
  hang_append (not_mem_logPrefix _ _ _ (.inr rfl)) r.text

/-- What `Replace` makes of a character. -/
theorem fill_marked_singleton {α : Type} [DecidableEq α] (c : α) (g s : List α) :
    fill g (marked [c] s) = s.flatMap fun a => if a = c then g else [a] := by
  have hc : [c] ≠ [] := List.cons_ne_nil c []
  induction s with
  | nil => rfl
  | cons a s ih =>
      rw [List.flatMap_cons, ← ih]
      by_cases ha : a = c
      · have hocc : OccursAt [c] (a :: s) 0 := by
          rw [ha]
          exact occursAt_zero_append [c] s
        rw [if_pos ha, marked_of_occursAt hc hocc, fill_cons_none]
        rfl
      · have hocc : ¬ OccursAt [c] (a :: s) 0 := by
          intro h
          exact ha (by simpa [OccursAt] using h)
        rw [if_neg ha, marked_cons_of_not hocc]
        rfl

/-- The message that is sent, if one is, is that of a record. -/
theorem eq_line_of_formatLogString {malloc : ℕ → Bool} (hmalloc : malloc 0 = true) {fuel : ℕ}
    {localTime : Option LocalTime} {threadId : UInt64} {logLevel : ℤ} {logString message : Bytes}
    (h : formatLogString malloc fuel localTime threadId logLevel logString = some message) :
    ∃ level : LogPriority, level.code = logLevel ∧
      message = Record.line ⟨getCurrentLocalTime localTime, threadId, level, logString⟩ := by
  unfold formatLogString at h
  split at h
  case h_1 => cases h
  case h_2 strData count hreplace =>
    have hstr : strData = hang 10 indentation logString := by
      rw [StringUtils.replaceString, StringUtils.replaceIn, if_neg (List.cons_ne_nil _ _)]
        at hreplace
      have hr := StringUtils.replaceLoop_eq (List.cons_ne_nil _ _) fuel [] logString 0 _ hreplace
      rw [List.nil_append, fill_marked_singleton, flatMap_eq_hang] at hr
      exact congrArg Prod.fst hr
    split at h
    case h_1 => cases h
    case h_2 name hname =>
      obtain ⟨level, hcode, rfl⟩ := eq_of_lookUp hname
      refine ⟨level, hcode, ?_⟩
      cases fuel with
      | zero => cases h
      | succ fuel =>
          rw [format_logPrefix _ _ _ hmalloc] at h
          rw [Record.line_eq, ← hstr]
          exact (Option.some_inj.1 h).symm

/-- A level of the enumeration, and line feeds that an `int` counts. -/
theorem formatLogString_code {malloc : ℕ → Bool} (hmalloc : malloc 0 = true) {fuel : ℕ}
    (localTime : Option LocalTime) (threadId : UInt64) (level : LogPriority) {logString : Bytes}
    (hcount : logString.count 10 < 2 ^ 31) (hfuel : logString.length < fuel) :
    formatLogString malloc fuel localTime threadId level.code logString =
      some (Record.line ⟨getCurrentLocalTime localTime, threadId, level, logString⟩) := by
  have hcount' : disjoint [10] logString < 2 ^ 31 := by
    rwa [disjoint_singleton]
  rw [formatLogString, StringUtils.replaceString,
    StringUtils.replaceIn_eq (List.cons_ne_nil 10 []) hcount' hfuel]
  obtain ⟨fuel, rfl⟩ := Nat.exists_eq_add_of_le' (Nat.lt_of_le_of_lt (Nat.zero_le _) hfuel)
  dsimp only
  rw [lookUp_code, fill_marked_singleton, flatMap_eq_hang, Record.line_eq]
  dsimp only
  rw [format_logPrefix _ _ _ hmalloc]

/-! ### Reading a record -/

/-- A number, and what is behind it and something of the length of `sep`. -/
def readNumber (sep b : Bytes) : ℕ × Bytes :=
  (readDecimal (b.takeWhile isDigit), (b.dropWhile isDigit).drop sep.length)

/-- What is behind the number of the thread: the name of a level, behind blanks, and the text. -/
def readLevel (b : Bytes) : Option (LogPriority × Bytes) :=
  let b := b.dropWhile (· == 32)
  match levels.find? fun level => ascii (levelName level) = b.takeWhile (· != 58) with
  | none => none
  | some level => some (level, (b.dropWhile (· != 58)).drop 2)

def readRecord (b : Bytes) : Option Record :=
  let (hour, b) := readNumber (ascii ":") b
  let (minute, b) := readNumber (ascii ":") b
  let (second, b) := readNumber (ascii " T:") b
  let (threadId, b) := readNumber (ascii " ") b
  match readLevel b with
  | none => none
  | some (level, text) =>
      if h : hour < 24 ∧ minute < 60 ∧ second ≤ 60 then
        some ⟨⟨hour, minute, second, h.1, h.2.1, h.2.2⟩, UInt64.ofNat threadId, level, text⟩
      else none

/-- The byte order mark of a log file. -/
def bom : Bytes := [0xEF, 0xBB, 0xBF]

/-- The records of a log file. -/
def readLog (file : Bytes) : Option (List Record) :=
  if file.take 3 = bom then (readPage 10 indentation (file.drop 3)).mapM readRecord else none

theorem readNumber_append {ds sep : Bytes} (h : ∀ c ∈ ds, isDigit c = true) {c : UInt8}
    (hsep : sep.head? = some c) (hc : isDigit c = false) (rest : Bytes) :
    readNumber sep (ds ++ (sep ++ rest)) = (readDecimal ds, rest) := by
  obtain ⟨sep, rfl⟩ := List.head?_eq_some_iff.1 hsep
  have hneg : ¬ isDigit c = true := by
    rw [hc]
    exact Bool.false_ne_true
  rw [readNumber, List.takeWhile_append_of_pos h, List.dropWhile_append_of_pos h, List.cons_append,
    List.takeWhile_cons_of_neg hneg, List.dropWhile_cons_of_neg hneg, List.append_nil,
    ← List.cons_append, List.drop_left]

theorem readNumber_twoDigits (n : ℕ) {sep : Bytes} {c : UInt8} (hsep : sep.head? = some c)
    (hc : isDigit c = false) (rest : Bytes) :
    readNumber sep (twoDigits n ++ (sep ++ rest)) = (n, rest) := by
  rw [readNumber_append (isDigit_twoDigits n) hsep hc, readDecimal_twoDigits]

theorem readNumber_decimal (n : ℕ) {sep : Bytes} {c : UInt8} (hsep : sep.head? = some c)
    (hc : isDigit c = false) (rest : Bytes) :
    readNumber sep (decimal n ++ (sep ++ rest)) = (n, rest) := by
  rw [readNumber_append (isDigit_decimal n) hsep hc, readDecimal_decimal]

theorem readLevel_append (level : LogPriority) (text : Bytes) :
    readLevel (sevenWide (ascii (levelName level)) ++ (ascii ": " ++ text)) =
      some (level, text) := by
  cases level <;> rfl

/-- **A record is read** from its prefix and text. -/
theorem readRecord_printed (r : Record) : readRecord r.printed = some r := by
  have hprinted : r.printed = twoDigits r.time.hour ++ (ascii ":" ++ (twoDigits r.time.minute ++
      (ascii ":" ++ (twoDigits r.time.second ++ (ascii " T:" ++ (decimal r.threadId.toNat ++
        (ascii " " ++ (sevenWide (ascii (levelName r.level)) ++ (ascii ": " ++ r.text))))))))) := by
    simp only [Record.printed, logPrefix, List.append_assoc]
  rw [hprinted, readRecord, readNumber_twoDigits r.time.hour rfl rfl]
  dsimp only
  rw [readNumber_twoDigits r.time.minute rfl rfl]
  dsimp only
  rw [readNumber_twoDigits r.time.second rfl rfl]
  dsimp only
  rw [readNumber_decimal r.threadId.toNat rfl rfl]
  dsimp only
  rw [readLevel_append]
  dsimp only
  rw [dif_pos ⟨r.time.hour_lt, r.time.minute_lt, r.time.second_le⟩, UInt64.ofNat_toNat]

/-! ### Reading a file -/

/-- A line of the prefix begins with a digit. -/
theorem not_indentation_prefix (r : Record) : ¬ indentation <+: r.printed := by
  intro h
  obtain ⟨c, rest, hdigits⟩ : ∃ c rest, twoDigits r.time.hour = c :: rest := by
    refine List.exists_cons_of_ne_nil fun hnil => ?_
    have hlen := length_twoDigits (Nat.lt_trans r.time.hour_lt (by omega : 24 < 100))
    rw [hnil] at hlen
    cases hlen
  have hdigit := isDigit_twoDigits r.time.hour c (hdigits ▸ List.mem_cons_self ..)
  obtain ⟨tail, htail⟩ := h
  rw [Record.printed, logPrefix, hdigits] at htail
  have hc : (32 : UInt8) = c := (List.cons.inj htail).1
  rw [← hc] at hdigit
  cases hdigit

theorem mapM_readRecord (rs : List Record) :
    (rs.map Record.printed).mapM readRecord = some rs := by
  induction rs with
  | nil => rfl
  | cons r rs ih => simp [readRecord_printed, ih]

theorem logLine_line (r : Record) : LoggerThread.logLine r.line = r.line ++ [10] := by
  refine if_neg ?_
  rw [Record.line_eq]
  exact List.append_ne_nil_of_left_ne_nil (logPrefix_ne_nil _ _ _) _

/-- The lines of some records make up a page. -/
theorem flatten_logLine (rs : List Record) :
    (rs.map fun r => LoggerThread.logLine r.line).flatten =
      page 10 indentation (rs.map Record.printed) := by
  rw [page, List.flatMap_map, List.flatMap_def]
  exact congrArg List.flatten (List.map_congr_left fun r _ => logLine_line r)

/-- **The records are read** from their lines. -/
theorem readLog_lines (rs : List Record) :
    readLog (bom ++ (rs.map fun r => LoggerThread.logLine r.line).flatten) = some rs := by
  have hpage : readPage 10 indentation (page 10 indentation (rs.map Record.printed)) =
      rs.map Record.printed := by
    refine readPage_page (by decide) fun text htext => ?_
    obtain ⟨r, -, rfl⟩ := List.mem_map.1 htext
    exact not_indentation_prefix r
  have hbom : bom.length = 3 := rfl
  rw [readLog, flatten_logLine, ← hbom, List.take_left, List.drop_left, if_pos rfl, hpage,
    mapM_readRecord]

/-! ### Calls -/

/-- A call of `LogString`, in which `Log` and `LogFunction` end, with what `malloc` answers in
`Format`, the time and the thread. -/
structure Entry where
  malloc : ℕ → Bool
  localTime : Option LocalTime
  threadId : UInt64
  logLevel : ℤ
  logString : Bytes

variable (charSigned : Bool)

/-- `LogString`, with the message that is sent: none where nothing is left of the string. -/
def logString (e : Entry) : Option (Option Bytes) :=
  let strData := StringUtils.trimRight charSigned e.logString
  if strData ≠ [] then
    (formatLogString e.malloc (strData.length + 1) e.localTime e.threadId e.logLevel strData).map
      some
  else some none

/-- What is to be read in the log: the text ends at its first NUL. -/
def Entry.record (e : Entry) : Option Record :=
  let strData := StringUtils.trimRight charSigned e.logString
  match levels.find? fun level => level.code = e.logLevel with
  | none => none
  | some level =>
      if strData ≠ [] then
        some ⟨getCurrentLocalTime e.localTime, e.threadId, level, cstr strData⟩
      else none

/-- The level has a name, an `int` counts the line feeds, and there is memory for the prefix; or
nothing is written. -/
def Entry.Careful (e : Entry) : Prop :=
  StringUtils.trimRight charSigned e.logString ≠ [] → Logger.Enumerated e.logLevel ∧
    (StringUtils.trimRight charSigned e.logString).count 10 < 2 ^ 31 ∧ e.malloc 0 = true

instance (e : Entry) : Decidable (e.Careful charSigned) := inferInstanceAs (Decidable (_ → _))

/-- Some calls, one after the other, each of whose messages is copied and written to the file. -/
def logAll (write : Bytes → Bytes → Option Bytes) : List Entry → Bytes → Option Bytes
  | [], file => some file
  | e :: es, file =>
      match logString charSigned e with
      | none => none
      | some none => logAll write es file
      | some (some message) =>
          match write file (cstr message) with
          | none => none
          | some file => logAll write es file

/-- `WriteStringToLog` to a file that is open. -/
def writeStringToLog (file logString : Bytes) : Option Bytes :=
  (LoggerThread.writeStringToLog (some file) logString).1

/-- `WriteStringToLog` for Windows, to a file that is open. -/
def writeStringToLogW (file logString : Bytes) : Option Bytes :=
  match StringUtils.replaceString (logString.length + 1) logString [10] [13, 10] with
  | none => none
  | some (strData, _) => some (file ++ (strData ++ [13, 10]))

/-- A file of Windows, with the carriage returns in front of its line feeds left out. -/
def dropCr : Bytes → Bytes
  | [] => []
  | [c] => [c]
  | c :: d :: rest => if c = 13 ∧ d = 10 then dropCr (d :: rest) else c :: dropCr (d :: rest)

/-- A carriage return in front of each line feed. -/
def crlf (b : Bytes) : Bytes := b.flatMap fun c => if c = 10 then [13, 10] else [c]

theorem head_crlf_ne (b : Bytes) : (crlf b).head? ≠ some 10 := by
  cases b with
  | nil => simp [crlf]
  | cons c b =>
      by_cases hc : c = 10
      · simp [crlf, hc]
      · simp [crlf, hc]

theorem dropCr_cons {c : UInt8} {b : Bytes} (h : ¬(c = 13 ∧ b.head? = some 10)) :
    dropCr (c :: b) = c :: dropCr b := by
  cases b with
  | nil => rfl
  | cons d rest => exact if_neg (by simpa using h)

/-- Nothing else is left out. -/
theorem dropCr_crlf (b : Bytes) : dropCr (crlf b) = b := by
  induction b with
  | nil => rfl
  | cons c b ih =>
      by_cases hc : c = 10
      · have hcons : crlf (c :: b) = 13 :: 10 :: crlf b := by simp [crlf, hc]
        rw [hcons, dropCr, if_pos ⟨rfl, rfl⟩, dropCr_cons (by simp), ih, hc]
      · have hcons : crlf (c :: b) = c :: crlf b := by simp [crlf, hc]
        rw [hcons, dropCr_cons (fun h => head_crlf_ne b h.2), ih]

theorem crlf_append (a b : Bytes) : crlf (a ++ b) = crlf a ++ crlf b := List.flatMap_append

/-- The first NUL is not in the first part. -/
theorem cstr_append {a : Bytes} (h : 0 ∉ a) (b : Bytes) : cstr (a ++ b) = a ++ cstr b := by
  refine List.takeWhile_append_of_pos fun c hc => ?_
  exact bne_iff_ne.2 fun hzero => h (hzero ▸ hc)

/-- The text of a message ends at its first NUL, and so does what is printed of it. -/
theorem cstr_hang {indent : Bytes} (h : 0 ∉ indent) (text : Bytes) :
    cstr (hang 10 indent text) = hang 10 indent (cstr text) := by
  rw [← flatMap_eq_hang, ← flatMap_eq_hang]
  induction text with
  | nil => rfl
  | cons c text ih =>
      rw [List.flatMap_cons]
      by_cases hzero : c = 0
      · rw [hzero]
        rfl
      · have hcstr : cstr (c :: text) = c :: cstr text :=
          List.takeWhile_cons_of_pos (bne_iff_ne.2 hzero)
        rw [hcstr, List.flatMap_cons, cstr_append, ih]
        by_cases hc : c = 10
        · rw [if_pos hc, List.mem_cons, not_or]
          exact ⟨by decide, h⟩
        · rw [if_neg hc, List.mem_singleton]
          exact Ne.symm hzero

/-- What is sent of a message is that of the record whose text ends at the first NUL. -/
theorem cstr_line (r : Record) : cstr r.line = Record.line { r with text := cstr r.text } := by
  rw [Record.line_eq, Record.line_eq, cstr_append (not_mem_logPrefix _ _ _ (.inl rfl)),
    cstr_hang (by decide)]

theorem count_hang {indent : Bytes} (h : 10 ∉ indent) (text : Bytes) :
    (hang 10 indent text).count 10 = text.count 10 := by
  rw [← flatMap_eq_hang]
  induction text with
  | nil => rfl
  | cons c text ih =>
      rw [List.flatMap_cons, List.count_append, ih]
      by_cases hc : c = 10
      · rw [if_pos hc, hc, List.count_cons_self, List.count_cons_self, List.count_eq_zero.2 h,
          Nat.add_comm]
      · rw [if_neg hc, List.count_singleton, List.count_cons, Nat.add_comm]

/-- The line feeds of a message are those of its text. -/
theorem Record.count_line (r : Record) : r.line.count 10 = r.text.count 10 := by
  rw [Record.line_eq, List.count_append, count_hang (by decide),
    List.count_eq_zero.2 (not_mem_logPrefix _ _ _ (.inr rfl)), Nat.zero_add]

/-- The Windows file has the line of a record with its carriage returns. -/
theorem writeStringToLogW_line (file : Bytes) {r : Record} (h : r.text.count 10 < 2 ^ 31) :
    writeStringToLogW file r.line = some (file ++ crlf (LoggerThread.logLine r.line)) := by
  have hcount : disjoint [10] r.line < 2 ^ 31 := by
    rwa [disjoint_singleton, Record.count_line]
  rw [writeStringToLogW, StringUtils.replaceString,
    StringUtils.replaceIn_eq (List.cons_ne_nil _ _) hcount (Nat.lt_succ_self _), logLine_line,
    crlf_append, fill_marked_singleton]
  rfl

/-- The Windows file is the other one with its carriage returns. -/
theorem bom_append_crlf (rs : List Record) :
    bom ++ (rs.map fun r => crlf (LoggerThread.logLine r.line)).flatten =
      crlf (bom ++ (rs.map fun r => LoggerThread.logLine r.line).flatten) := by
  have hlines : ∀ rs : List Record, (rs.map fun r => crlf (LoggerThread.logLine r.line)).flatten =
      crlf (rs.map fun r => LoggerThread.logLine r.line).flatten := by
    intro rs
    induction rs with
    | nil => rfl
    | cons r rs ih =>
        rw [List.map_cons, List.flatten_cons, ih, List.map_cons, List.flatten_cons, crlf_append]
  have hbom : crlf bom = bom := rfl
  rw [hlines, crlf_append, hbom]

theorem writeStringToLog_line (file : Bytes) (r : Record) :
    writeStringToLog file r.line = some (file ++ LoggerThread.logLine r.line) := by
  rw [writeStringToLog, LoggerThread.writeStringToLog_eq]

/-! ### What is written for the calls -/

theorem find_code (level : LogPriority) :
    (levels.find? fun l => l.code = level.code) = some level := by
  cases level <;> rfl

variable {charSigned : Bool}

/-- The message of a call is the line of its record, as far as it is sent. -/
theorem logString_eq {e : Entry} (h : e.Careful charSigned) :
    ∃ sent, logString charSigned e = some sent ∧
      sent.map cstr = (e.record charSigned).map Record.line ∧
      ∀ r ∈ e.record charSigned, r.text.count 10 < 2 ^ 31 := by
  by_cases hempty : StringUtils.trimRight charSigned e.logString = []
  · refine ⟨none, by simp [logString, hempty], ?_⟩
    have hnone : e.record charSigned = none := by
      unfold Entry.record
      split
      · rfl
      · simp [hempty]
    simp [hnone]
  · obtain ⟨henum, hcount, hmalloc⟩ := h hempty
    obtain ⟨name, hname⟩ := (Logger.lookUp_levelNames e.logLevel).2 henum
    obtain ⟨level, hcode, -⟩ := eq_of_lookUp hname
    have hrecord : e.record charSigned = some ⟨getCurrentLocalTime e.localTime, e.threadId, level,
        cstr (StringUtils.trimRight charSigned e.logString)⟩ := by
      simp only [Entry.record, ← hcode, find_code]
      exact if_pos hempty
    refine ⟨some (Record.line ⟨getCurrentLocalTime e.localTime, e.threadId, level,
      StringUtils.trimRight charSigned e.logString⟩), ?_, ?_, ?_⟩
    · rw [logString, if_pos hempty, ← hcode,
        formatLogString_code hmalloc e.localTime e.threadId level hcount (Nat.lt_succ_self _),
        Option.map_some]
    · rw [hrecord, Option.map_some, Option.map_some, cstr_line]
    · intro r hr
      rw [hrecord, Option.mem_some_iff] at hr
      rw [← hr]
      exact Nat.lt_of_le_of_lt ((List.takeWhile_prefix _).sublist.count_le 10) hcount

/-- **What is written**, by a function that adds something for each line. -/
theorem logAll_eq {write : Bytes → Bytes → Option Bytes} {print : Record → Bytes}
    (hwrite : ∀ file r, r.text.count 10 < 2 ^ 31 → write file r.line = some (file ++ print r))
    {es : List Entry} (h : ∀ e ∈ es, e.Careful charSigned) (file : Bytes) :
    logAll charSigned write es file =
      some (file ++ ((es.filterMap (Entry.record charSigned)).map print).flatten) := by
  induction es generalizing file with
  | nil => simp [logAll]
  | cons e es ih =>
      have hes : ∀ e ∈ es, e.Careful charSigned := fun e he => h e (List.mem_cons_of_mem _ he)
      obtain ⟨sent, hsent, hline, hcount⟩ := logString_eq (h e (List.mem_cons_self ..))
      rw [logAll, hsent]
      cases hrecord : e.record charSigned with
      | none =>
          rw [hrecord, Option.map_none, Option.map_eq_none_iff] at hline
          rw [hline, List.filterMap_cons_none hrecord]
          exact ih hes file
      | some r =>
          rw [hrecord, Option.map_some] at hline
          obtain ⟨message, rfl, hmessage⟩ := Option.map_eq_some_iff.1 hline
          dsimp only
          rw [hmessage, hwrite file r (hcount r hrecord), List.filterMap_cons_some hrecord]
          dsimp only
          rw [ih hes, List.map_cons, List.flatten_cons, List.append_assoc]

end LogLines

open LogLines

/-- **The log file reads back.**  Whatever is logged, one call after the other, by whichever
threads: the file holds the records of the calls that log anything, each with its time, its thread,
its level and its text up to the first NUL.  The file that Windows writes has the same records, once
the carriage returns in front of its line feeds are left out. -/
theorem log_reads_back (charSigned : Bool) (es : List Entry)
    (h : ∀ e ∈ es, e.Careful charSigned) :
    (∃ file, logAll charSigned writeStringToLog es bom = some file ∧
      readLog file = some (es.filterMap (Entry.record charSigned))) ∧
    ∃ file, logAll charSigned writeStringToLogW es bom = some file ∧
      readLog (dropCr file) = some (es.filterMap (Entry.record charSigned)) := by
  let rs := es.filterMap (Entry.record charSigned)
  have hposix := logAll_eq (fun file r _ => writeStringToLog_line file r) h bom
  have hwindows := logAll_eq (fun file r hr => writeStringToLogW_line file hr) h bom
  refine ⟨⟨_, hposix, readLog_lines rs⟩, _, hwindows, ?_⟩
  rw [bom_append_crlf, dropCr_crlf]
  exact readLog_lines rs

/-- An error of two lines, at midnight, and a call that leaves nothing to write. -/
theorem log_reads_back_two : ∃ file,
    logAll true writeStringToLog [⟨fun _ => true, none, 7, 6, [97, 10, 98, 32]⟩,
      ⟨fun _ => true, none, 8, 9, [32, 10]⟩] bom =
        some file ∧
      readLog file = some [⟨.midnight, 7, .error, [97, 10, 98]⟩] :=
  (log_reads_back true [⟨fun _ => true, none, 7, 6, [97, 10, 98, 32]⟩,
    ⟨fun _ => true, none, 8, 9, [32, 10]⟩] (by decide)).1

end VModule

/-
**The tables of level names of `sutils/Logger.cpp`.**

The functions of `Logger` take any `int` as a level, and index two tables with it.  Here are the
lookups that a call makes; `VModule/Logger.lean` says which calls are stopped by the lock.  What
`FormatV` makes of a format and its arguments is part of a call.

Main definitions:

* `VModule.LogPriority` — the enumeration of `sutils/ILogger.h`;
* `VModule.Logger.levelNames`, `VModule.Logger.logLevelNames`, `VModule.Logger.lookUp` — the tables;
* `VModule.Logger.log`, `VModule.Logger.logFunction`, `VModule.Logger.logString`,
  `VModule.Logger.setLogLevel` — the lookups of the functions;
* `VModule.Logger.Lookup.Right` — a lookup finds what it should;
* `VModule.Logger.Call.Careful` — the level of a call is one it can be made with.

Main results:

* `VModule.Logger.lookUp_levelNames` — the indices of the table of the formatted lines;
* `VModule.Logger.not_right_logLevelNames` — `SetLogLevel` never finds the name of the level;
* `VModule.logger_lookups_iff` — the calls whose lookups are right.
-/

import VModule.Logger
import VModule.StringTrims

set_option relaxedAutoImplicit false
set_option autoImplicit false

namespace VModule

/-! ### Levels and their names -/

/-- `vmodule_LogPriority`. -/
inductive LogPriority
  | unknown
  | default
  | verbose
  | debug
  | info
  | warn
  | error
  | fatal
  | silent

/-- The value of an enumerator. -/
def LogPriority.code : LogPriority → Int
  | unknown => 0
  | default => 1
  | verbose => 2
  | debug => 3
  | info => 4
  | warn => 5
  | error => 6
  | fatal => 7
  | silent => 8

/-- The enumerator as it is written. -/
def LogPriority.name : LogPriority → String
  | unknown => "VMODULE_LOG_UNKNOWN"
  | default => "VMODULE_LOG_DEFAULT"
  | verbose => "VMODULE_LOG_VERBOSE"
  | debug => "VMODULE_LOG_DEBUG"
  | info => "VMODULE_LOG_INFO"
  | warn => "VMODULE_LOG_WARN"
  | error => "VMODULE_LOG_ERROR"
  | fatal => "VMODULE_LOG_FATAL"
  | silent => "VMODULE_LOG_SILENT"

namespace Logger

def levelNames : List String :=
  ["UNKNOWN", "DEFAULT", "VERBOSE", "DEBUG", "INFO", "WARN", "ERROR", "FATAL", "SILENT"]

def logLevelNames : List String :=
  ["VMODULE_LOG_UNKNOWN", "VMODULE_LOG_DEFAULT", "VMODULE_LOG_VERBOSE", "VMODULE_LOG_DEBUG",
    "VMODULE_LOG_INFO", "VMODULE_LOG_WARN", "VMODULE_LOG_ERROR", "VMODULE_LOG_FATAL",
    "VMODULE_LOG_SILENT"]

/-- The element with an index, if the table has one. -/
def lookUp (table : List String) (index : Int) : Option String :=
  if 0 ≤ index then table[index.toNat]? else none

/-- A lookup of a call. -/
inductive Lookup where
  /-- `levelNames[logLevel]` in `FormatLogString`. -/
  | levelNames (logLevel : Int)
  /-- `logLevelNames[index]` in `SetLogLevel`, which has set `mLogLevel`. -/
  | logLevelNames (index mLogLevel : Int)

/-- What is looked up lies inside the table, and has the name of the level where one is set. -/
def Lookup.Right : Lookup → Prop
  | levelNames logLevel => ∃ s, lookUp Logger.levelNames logLevel = some s
  | logLevelNames index mLogLevel =>
      ∃ p : LogPriority, p.code = mLogLevel ∧ lookUp Logger.logLevelNames index = some p.name

/-! ### The functions -/

/-- The bytes of a literal. -/
def ascii (s : String) : List UInt8 := s.toList.map fun c => UInt8.ofNat c.toNat

section Functions

variable (charSigned debug : Bool)

def formatLogString (logLevel : Int) : List Lookup := [.levelNames logLevel]

def logString (logLevel : Int) (logString : List UInt8) : List Lookup :=
  let strData := StringUtils.trimRight charSigned logString
  if strData ≠ [] then formatLogString logLevel else []

/-- What `Log` puts in front; the tag may be `NULL`. -/
def tagInfo (tag : Option (List UInt8)) : List UInt8 :=
  match tag with
  | some (c :: cs) => c :: cs ++ ascii ": "
  | _ => ascii "Logger:"

/-- What `LogFunction` puts in front. -/
def fNameStr (functionName : Option (List UInt8)) : List UInt8 :=
  match functionName with
  | some (c :: cs) => c :: cs ++ ascii ": "
  | _ => []

def log (mLogLevel loglevel : Int) (tag : Option (List UInt8)) (text : List UInt8) :
    List Lookup :=
  if isLogLevelLogged debug mLogLevel loglevel then
    logString charSigned loglevel (tagInfo tag ++ text)
  else []

def logFunction (mLogLevel loglevel : Int) (functionName : Option (List UInt8))
    (text : List UInt8) : List Lookup :=
  if isLogLevelLogged debug mLogLevel loglevel then
    logString charSigned loglevel (fNameStr functionName ++ text)
  else []

/-- `SetLogLevel`; the text is what its own call of `Log` formats. -/
def setLogLevel (mLogLevel level : Int) (text : List UInt8) : List Lookup :=
  if level ≥ logUnknown ∧ level ≤ logSilent then
    .logLevelNames (newLevel mLogLevel level + 1) (newLevel mLogLevel level) ::
      log charSigned debug (newLevel mLogLevel level) logVerbose
        (some (ascii "Log level changed to \"%s\"")) text
  else
    log charSigned debug (newLevel mLogLevel level) logError
      (some (ascii "%s: Invalid log level requested: %d")) text

/-- A call from outside, with its `int`. -/
inductive Call where
  | log (loglevel : Int) (tag : Option (List UInt8)) (text : List UInt8)
  | logFunction (loglevel : Int) (functionName : Option (List UInt8)) (text : List UInt8)
  | logString (logLevel : Int) (logString : List UInt8)
  | setLogLevel (level : Int) (text : List UInt8)

/-- The lookups of a call that finds a level set. -/
def Call.lookups (mLogLevel : Int) : Call → List Lookup
  | log loglevel tag text => Logger.log charSigned debug mLogLevel loglevel tag text
  | logFunction loglevel functionName text =>
      Logger.logFunction charSigned debug mLogLevel loglevel functionName text
  | logString logLevel text => Logger.logString charSigned logLevel text
  | setLogLevel level text => Logger.setLogLevel charSigned debug mLogLevel level text

end Functions

/-- The level is one of the enumeration. -/
def Enumerated (level : Int) : Prop := logUnknown ≤ level ∧ level ≤ logSilent

instance (level : Int) : Decidable (Enumerated level) := inferInstanceAs (Decidable (_ ∧ _))

/-- The level of a call is one that it can be made with: the filter stops it, nothing is left to
write, or it is one of the enumeration.  `SetLogLevel` can only be called with one that it refuses.
-/
def Call.Careful (debug : Bool) (mLogLevel : Int) : Call → Prop
  | log loglevel _ _ => isLogLevelLogged debug mLogLevel loglevel = true → Enumerated loglevel
  | logFunction loglevel functionName text => isLogLevelLogged debug mLogLevel loglevel = true →
      fNameStr functionName = [] ∧ (∀ c ∈ text, c ∈ whiteSpace) ∨ Enumerated loglevel
  | logString logLevel text => (∀ c ∈ text, c ∈ whiteSpace) ∨ Enumerated logLevel
  | setLogLevel level _ => ¬Enumerated level

/-! ### The tables -/

/-- **The indices of the table** are the levels of the enumeration. -/
theorem lookUp_levelNames (logLevel : Int) :
    (∃ s, lookUp levelNames logLevel = some s) ↔ Enumerated logLevel := by
  rw [lookUp, Enumerated, logUnknown, logSilent]
  by_cases hneg : 0 ≤ logLevel
  · have hlength : levelNames.length = 9 := rfl
    rw [if_pos hneg]
    constructor
    · intro h
      obtain ⟨s, hs⟩ := h
      obtain ⟨hlt, -⟩ := List.getElem?_eq_some_iff.1 hs
      omega
    · intro h
      exact ⟨_, List.getElem?_eq_getElem (by omega)⟩
  · rw [if_neg hneg]
    constructor
    · intro h
      obtain ⟨s, hs⟩ := h
      cases hs
    · intro h
      exact absurd h.1 hneg

/-- The index of the other table is shifted, and the names are not. -/
theorem lookUp_logLevelNames_ne (p : LogPriority) :
    lookUp logLevelNames (p.code + 1) ≠ some p.name := by
  cases p <;> decide

/-- **The name of the level that is set is never found.** -/
theorem not_right_logLevelNames (mLogLevel : Int) :
    ¬(Lookup.logLevelNames (mLogLevel + 1) mLogLevel).Right := by
  intro h
  obtain ⟨p, rfl, hfound⟩ := h
  exact lookUp_logLevelNames_ne p hfound

/-! ### The calls -/

variable {charSigned debug : Bool}

/-- Nothing is left of a string that is white space. -/
theorem trimRight_eq_nil_iff (charSigned : Bool) (str : List UInt8) :
    StringUtils.trimRight charSigned str = [] ↔ ∀ c ∈ str, c ∈ whiteSpace := by
  rw [StringUtils.trimRight_eq, List.rdropWhile_eq_nil_iff]
  constructor
  · intro h c hc
    exact of_decide_eq_true (h c hc)
  · intro h c hc
    exact decide_eq_true (h c hc)

/-- The lookup of a line that is written. -/
theorem logString_right_iff (logLevel : Int) (str : List UInt8) :
    (∀ x ∈ logString charSigned logLevel str, x.Right) ↔
      (∀ c ∈ str, c ∈ whiteSpace) ∨ Enumerated logLevel := by
  rw [← trimRight_eq_nil_iff charSigned, ← lookUp_levelNames, logString]
  by_cases hempty : StringUtils.trimRight charSigned str = []
  · simp [hempty]
  · simp [hempty, formatLogString, Lookup.Right]

theorem colon_mem_tagInfo (tag : Option (List UInt8)) : 58 ∈ tagInfo tag := by
  rcases tag with _ | _ | ⟨c, cs⟩
  · decide
  · decide
  · exact List.mem_append_right _ (by decide)

/-- What `Log` puts in front is not white space. -/
theorem not_whiteSpace_tagInfo (tag : Option (List UInt8)) (text : List UInt8) :
    ¬∀ c ∈ tagInfo tag ++ text, c ∈ whiteSpace := by
  intro h
  exact absurd (h 58 (List.mem_append_left _ (colon_mem_tagInfo tag))) (by decide)

/-- What `LogFunction` puts in front is not white space, if there is anything. -/
theorem whiteSpace_fNameStr_iff (functionName : Option (List UInt8)) (text : List UInt8) :
    (∀ c ∈ fNameStr functionName ++ text, c ∈ whiteSpace) ↔
      fNameStr functionName = [] ∧ ∀ c ∈ text, c ∈ whiteSpace := by
  rcases functionName with _ | _ | ⟨c, cs⟩
  · simp [fNameStr]
  · simp [fNameStr]
  · constructor
    · intro h
      have hcolon : 58 ∈ fNameStr (some (c :: cs)) := List.mem_append_right _ (by decide)
      exact absurd (h 58 (List.mem_append_left _ hcolon)) (by decide)
    · intro h
      exact absurd h.1 (by simp [fNameStr])

theorem log_right_iff (mLogLevel loglevel : Int) (tag : Option (List UInt8)) (text : List UInt8) :
    (∀ x ∈ log charSigned debug mLogLevel loglevel tag text, x.Right) ↔
      (isLogLevelLogged debug mLogLevel loglevel = true → Enumerated loglevel) := by
  rw [log]
  by_cases hlogged : isLogLevelLogged debug mLogLevel loglevel = true
  · rw [if_pos hlogged, logString_right_iff, or_iff_right (not_whiteSpace_tagInfo tag text)]
    simp [hlogged]
  · simp [hlogged]

theorem logFunction_right_iff (mLogLevel loglevel : Int) (functionName : Option (List UInt8))
    (text : List UInt8) :
    (∀ x ∈ logFunction charSigned debug mLogLevel loglevel functionName text, x.Right) ↔
      (isLogLevelLogged debug mLogLevel loglevel = true →
        fNameStr functionName = [] ∧ (∀ c ∈ text, c ∈ whiteSpace) ∨ Enumerated loglevel) := by
  rw [logFunction]
  by_cases hlogged : isLogLevelLogged debug mLogLevel loglevel = true
  · rw [if_pos hlogged, logString_right_iff, whiteSpace_fNameStr_iff]
    simp [hlogged]
  · simp [hlogged]

/-- Its own call of `Log` looks up what it should; its own lookup never does. -/
theorem setLogLevel_right_iff (mLogLevel level : Int) (text : List UInt8) :
    (∀ x ∈ setLogLevel charSigned debug mLogLevel level text, x.Right) ↔ ¬Enumerated level := by
  have hown : ∀ l tag, Enumerated l → ∀ x ∈ log charSigned debug (newLevel mLogLevel level) l
      tag text, x.Right := fun l tag hl => (log_right_iff _ _ _ _).2 fun _ => hl
  rw [setLogLevel]
  by_cases hlevel : level ≥ logUnknown ∧ level ≤ logSilent
  · rw [if_pos hlevel]
    refine iff_of_false (fun h => ?_) (not_not_intro hlevel)
    exact not_right_logLevelNames _ (h _ (List.mem_cons_self ..))
  · rw [if_neg hlevel]
    exact iff_of_true (hown logError _ (by decide)) hlevel

end Logger

/-- **Which calls look up what they should.**  Every lookup of a call lies inside its table, and
`SetLogLevel` finds the name of the level it has set, exactly if the call is a careful one, whatever
level is set before, with `_DEBUG` or without. -/
theorem logger_lookups_iff (charSigned debug : Bool) (mLogLevel : Int) (c : Logger.Call) :
    (∀ x ∈ c.lookups charSigned debug mLogLevel, x.Right) ↔ c.Careful debug mLogLevel := by
  cases c with
  | log loglevel tag text => exact Logger.log_right_iff mLogLevel loglevel tag text
  | logFunction loglevel functionName text =>
      exact Logger.logFunction_right_iff mLogLevel loglevel functionName text
  | logString logLevel text => exact Logger.logString_right_iff logLevel text
  | setLogLevel level text => exact Logger.setLogLevel_right_iff mLogLevel level text

/-- `SetLogLevel(VMODULE_LOG_SILENT)`, in the level that is set at first. -/
theorem setLogLevel_silent_outside :
    ¬∀ (charSigned debug : Bool) (mLogLevel : Int) (c : Logger.Call),
      ∀ x ∈ c.lookups charSigned debug mLogLevel, x.Right := by
  intro h
  have hright : (Logger.Lookup.logLevelNames 9 8).Right :=
    h false false Logger.logDebug (.setLogLevel Logger.logSilent []) _ (List.mem_cons_self ..)
  obtain ⟨p, hcode, hfound⟩ := hright
  have hnone : Logger.lookUp Logger.logLevelNames 9 = none := by decide
  rw [hnone] at hfound
  cases hfound

end VModule

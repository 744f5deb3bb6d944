/-
**`Logger` of `sutils/Logger.cpp`: who takes `critSec`, and when.**

The public functions of `Logger` are called by any number of threads.  All of them but `Log` and
`LogFunction` begin with an `Autolock` on `s_globals.critSec`, and those two end in `LogString`.
What is done with the lock held (opening and closing the log file, formatting a line and handing it
to the logger thread) takes no lock of `Logger` again, except in `SetLogLevel`, which logs.

Main definitions:

* `VModule.Logger.isLogLevelLogged` — which levels are logged, by build and by the level set;
* `VModule.Logger.Step`, `VModule.Logger.logger` — the machine of the threads;
* `VModule.Logger.Sound` — the lock is held by the thread that is in a section;
* `VModule.Logger.BlocksOnItself` — a thread requests the lock that it holds;
* `VModule.Logger.Quiet` — no call of `SetLogLevel` gets anything logged.

Main results:

* `VModule.Logger.invariant_sound` — the invariant;
* `VModule.Logger.blocksOnItself_forever` — a thread that requests the lock it holds never moves
  again, and no other thread gets the lock;
* `VModule.logger_blocks_iff` — in a run no thread requests the lock it holds if and only if
  `SetLogLevel` never gets anything logged.
-/

import Mathlib.Logic.Function.Basic
import VModule.Machine

set_option relaxedAutoImplicit false
set_option autoImplicit false

open Function

namespace VModule

namespace Logger

/-! ### Levels -/

def logUnknown : Int := 0
def logVerbose : Int := 2
def logDebug : Int := 3
def logError : Int := 6
def logSilent : Int := 8

/-- `Logger::IsLogLevelLogged`; `debug` says whether `_DEBUG` or `PROFILE` is defined. -/
def isLogLevelLogged (debug : Bool) (mLogLevel loglevel : Int) : Bool :=
  if debug then true
  else if logDebug ≤ mLogLevel then true
  else if mLogLevel ≤ logUnknown then false
  else decide (logVerbose ≤ loglevel)

/-- The level that is set after `SetLogLevel`. -/
def newLevel (mLogLevel level : Int) : Int :=
  if logUnknown ≤ level ∧ level ≤ logSilent then level else mLogLevel

/-- The level of what `SetLogLevel` logs. -/
def ownLevel (level : Int) : Int :=
  if logUnknown ≤ level ∧ level ≤ logSilent then logVerbose else logError

/-! ### Threads -/

/-- The functions that begin with an `Autolock`. -/
inductive Section where
  | logString (logLevel : Int)
  | setLogLevel (level : Int)
  | init
  | close

/-- Where a thread is.  `nested` tells a call made by `SetLogLevel` from one made by a user. -/
inductive Pc where
  | outside
  /-- In `Log` or in `LogFunction`. -/
  | logging (loglevel : Int)
  /-- In the constructor of the `Autolock`. -/
  | requesting (c : Section) (nested : Bool)
  /-- Behind it. -/
  | inside (c : Section) (nested : Bool)
  /-- At the end of `SetLogLevel`. -/
  | leaving

/-- `critSec` with its owner, `m_logLevel`, and the threads. -/
structure State (Tid : Type) where
  critSec : Option Tid
  mLogLevel : Int
  pc : Tid → Pc

variable {Tid : Type}

/-- After the constructor of `LoggerGlobals`. -/
def start : State Tid := ⟨none, logDebug, fun _ => .outside⟩

/-- What a thread does. -/
inductive Action (Tid : Type) where
  /-- A call of `Log` or of `LogFunction`. -/
  | log (t : Tid) (loglevel : Int)
  /-- `IsLogLevelLogged` is asked. -/
  | test (t : Tid)
  /-- A call of another function. -/
  | call (t : Tid) (c : Section)
  | lock (t : Tid)
  /-- What is done with the lock held. -/
  | body (t : Tid)
  | unlock (t : Tid)

section Steps

variable [DecidableEq Tid]

/-- One step, in a build with or without `_DEBUG`.  Nobody but the owner of `critSec` writes
`m_logLevel`, so `SetLogLevel` may write it and ask `IsLogLevelLogged` in one step. -/
inductive Step (debug : Bool) : State Tid → Action Tid → State Tid → Prop
  | log {s : State Tid} {t : Tid} {l : Int} : s.pc t = .outside →
      Step debug s (.log t l) { s with pc := update s.pc t (.logging l) }
  | testTrue {s : State Tid} {t : Tid} {l : Int} : s.pc t = .logging l →
      isLogLevelLogged debug s.mLogLevel l = true →
      Step debug s (.test t) { s with pc := update s.pc t (.requesting (.logString l) false) }
  | testFalse {s : State Tid} {t : Tid} {l : Int} : s.pc t = .logging l →
      isLogLevelLogged debug s.mLogLevel l = false →
      Step debug s (.test t) { s with pc := update s.pc t .outside }
  | call {s : State Tid} {t : Tid} {c : Section} : s.pc t = .outside →
      Step debug s (.call t c) { s with pc := update s.pc t (.requesting c false) }
  | lock {s : State Tid} {t : Tid} {c : Section} {nested : Bool} :
      s.pc t = .requesting c nested → s.critSec = none →
      Step debug s (.lock t)
        { s with critSec := some t, pc := update s.pc t (.inside c nested) }
  | setLogs {s : State Tid} {t : Tid} {level : Int} {nested : Bool} :
      s.pc t = .inside (.setLogLevel level) nested →
      isLogLevelLogged debug (newLevel s.mLogLevel level) (ownLevel level) = true →
      Step debug s (.body t)
        { s with
          mLogLevel := newLevel s.mLogLevel level
          pc := update s.pc t (.requesting (.logString (ownLevel level)) true) }
  | setSilent {s : State Tid} {t : Tid} {level : Int} {nested : Bool} :
      s.pc t = .inside (.setLogLevel level) nested →
      isLogLevelLogged debug (newLevel s.mLogLevel level) (ownLevel level) = false →
      Step debug s (.body t)
        { s with mLogLevel := newLevel s.mLogLevel level, pc := update s.pc t .leaving }
  -- `LogString`, `Init` and `Close` do their work here, and release the lock
  | unlock {s : State Tid} {t : Tid} {c : Section} {nested : Bool} :
      s.pc t = .inside c nested → (∀ level, c ≠ .setLogLevel level) →
      Step debug s (.unlock t)
        { s with critSec := none, pc := update s.pc t (if nested then .leaving else .outside) }
  | leave {s : State Tid} {t : Tid} : s.pc t = .leaving →
      Step debug s (.unlock t) { s with critSec := none, pc := update s.pc t .outside }

/-- The threads that use `Logger`. -/
def logger (Tid : Type) [DecidableEq Tid] (debug : Bool) : Machine (State Tid) (Action Tid) where
  init s := s = start
  step := Step debug

end Steps

/-! ### The lock -/

/-- The thread is in a section, or in a call that it makes from one. -/
def Pc.holds : Pc → Bool
  | .inside _ _ | .leaving => true
  | .requesting _ nested => nested
  | _ => false

/-- **The owner of `critSec` is the thread that is in a section**, and no call made from a section
gets into one of its own. -/
structure Sound (s : State Tid) : Prop where
  owner : ∀ t, s.critSec = some t ↔ (s.pc t).holds = true
  flat : ∀ t c, s.pc t ≠ .inside c true

/-- A thread requests the lock that it holds. -/
def BlocksOnItself (s : State Tid) : Prop :=
  ∃ t c nested, s.pc t = .requesting c nested ∧ s.critSec = some t

/-- What requests the lock its thread holds is the `LogString` that `SetLogLevel` calls. -/
theorem Sound.blocksOnItself_iff {s : State Tid} (h : Sound s) :
    BlocksOnItself s ↔ ∃ t c, s.pc t = .requesting c true := by
  constructor
  · rintro ⟨t, c, nested, hpc, hown⟩
    have hholds := (h.owner t).1 hown
    rw [hpc] at hholds
    obtain rfl : nested = true := hholds
    exact ⟨t, c, hpc⟩
  · rintro ⟨t, c, hpc⟩
    exact ⟨t, c, true, hpc, (h.owner t).2 (by rw [hpc]; rfl)⟩

variable [DecidableEq Tid] {s s' : State Tid} {t : Tid} {p : Pc} {debug : Bool}

/-- A thread moves on and the lock stays where it is. -/
theorem Sound.stay (h : Sound s) (hp : p.holds = (s.pc t).holds) (hflat : ∀ c, p ≠ .inside c true)
    (l : Int) : Sound { s with mLogLevel := l, pc := update s.pc t p } where
  owner := by
    refine (forall_update_iff s.pc fun u q => s.critSec = some u ↔ q.holds = true).2
      ⟨?_, fun u _ => h.owner u⟩
    rw [hp]
    exact h.owner t
  flat := (forall_update_iff s.pc fun _ q => ∀ c, q ≠ .inside c true).2
    ⟨hflat, fun u _ => h.flat u⟩

/-- A thread takes the lock. -/
theorem Sound.lock (h : Sound s) (hfree : s.critSec = none) {c : Section} :
    Sound { s with critSec := some t, pc := update s.pc t (.inside c false) } where
  owner := by
    refine (forall_update_iff s.pc fun u q => some t = some u ↔ q.holds = true).2
      ⟨iff_of_true rfl rfl, ?_⟩
    intro u hut
    have hno := h.owner u
    rw [hfree] at hno
    refine iff_of_false ?_ fun hholds => absurd (hno.2 hholds) (by simp)
    intro he
    exact hut (Option.some_inj.1 he).symm
  flat := (forall_update_iff s.pc fun _ q => ∀ c, q ≠ .inside c true).2
    ⟨by simp, fun u _ => h.flat u⟩

/-- A thread gives the lock back. -/
theorem Sound.unlock (h : Sound s) (ht : (s.pc t).holds = true) :
    Sound { s with critSec := none, pc := update s.pc t .outside } where
  owner := by
    refine (forall_update_iff s.pc fun u q => none = some u ↔ q.holds = true).2
      ⟨iff_of_false (by simp) (by simp [Pc.holds]), ?_⟩
    intro u hut
    refine iff_of_false (by simp) fun hholds => hut ?_
    -- the lock has one owner
    have hown := (h.owner t).2 ht
    rw [(h.owner u).2 hholds] at hown
    exact Option.some_inj.1 hown
  flat := (forall_update_iff s.pc fun _ q => ∀ c, q ≠ .inside c true).2
    ⟨by simp, fun u _ => h.flat u⟩

/-- **One step keeps the lock with the thread in a section.** -/
theorem Sound.step (h : Sound s) {a : Action Tid} (hs : Step debug s a s') : Sound s' := by
  cases hs with
  | log hpc => exact h.stay (by simp [hpc, Pc.holds]) (by simp) s.mLogLevel
  | testTrue hpc _ => exact h.stay (by simp [hpc, Pc.holds]) (by simp) s.mLogLevel
  | testFalse hpc _ => exact h.stay (by simp [hpc, Pc.holds]) (by simp) s.mLogLevel
  | call hpc => exact h.stay (by simp [hpc, Pc.holds]) (by simp) s.mLogLevel
  | @lock t c nested hpc hfree =>
      cases nested with
      | false => exact h.lock hfree
      | true =>
          -- the lock is not free: this thread holds it
          have hown := (h.owner t).2 (by rw [hpc]; rfl)
          simp [hfree] at hown
  | setLogs hpc _ => exact h.stay (by simp [hpc, Pc.holds]) (by simp) _
  | setSilent hpc _ => exact h.stay (by simp [hpc, Pc.holds]) (by simp) _
  | @unlock t c nested hpc _ =>
      cases nested with
      | false => exact h.unlock (by rw [hpc]; rfl)
      | true => exact absurd hpc (h.flat t c)
  | leave hpc => exact h.unlock (by rw [hpc]; rfl)

theorem invariant_sound (Tid : Type) [DecidableEq Tid] (debug : Bool) :
    (logger Tid debug).Invariant Sound where
  init s := by
    rintro rfl
    exact ⟨fun t => by simp [start, Pc.holds], fun t c => by simp [start]⟩
  step s a s' h hs := h.step hs

/-- **A thread that requests the lock it holds stays where it is for ever**, and keeps the lock. -/
theorem blocksOnItself_forever (hr : (logger Tid debug).Reachable s) (hb : BlocksOnItself s)
    (hl : (logger Tid debug).Leads s s') : BlocksOnItself s' := by
  refine hl.keeps (fun q a q' hq hblocks hs => ?_) hr hb
  have hsound := (invariant_sound Tid debug).reachable hq
  obtain ⟨u, c, nested, hpc, hown⟩ := hblocks
  have hmoves : ∀ t p, (∀ c nested, q.pc t ≠ .requesting c nested) →
      update q.pc t p u = .requesting c nested := by
    intro t p ht
    rw [update_of_ne, hpc]
    rintro rfl
    exact ht c nested hpc
  -- no other thread is in a section
  have hother : ∀ t, (q.pc t).holds = true → t = u := by
    intro t ht
    have hot := (hsound.owner t).2 ht
    rw [hown] at hot
    exact (Option.some.inj hot).symm
  cases hs with
  | log h => exact ⟨u, c, nested, hmoves _ _ (by simp [h]), hown⟩
  | testTrue h _ => exact ⟨u, c, nested, hmoves _ _ (by simp [h]), hown⟩
  | testFalse h _ => exact ⟨u, c, nested, hmoves _ _ (by simp [h]), hown⟩
  | call h => exact ⟨u, c, nested, hmoves _ _ (by simp [h]), hown⟩
  | lock _ hfree => simp [hown] at hfree
  | setLogs h _ => exact ⟨u, c, nested, hmoves _ _ (by simp [h]), hown⟩
  | setSilent h _ => exact ⟨u, c, nested, hmoves _ _ (by simp [h]), hown⟩
  | unlock h _ =>
      obtain rfl := hother _ (by rw [h]; rfl)
      simp [hpc] at h
  | leave h =>
      obtain rfl := hother _ (by rw [h]; rfl)
      simp [hpc] at h

/-! ### Quiet calls of `SetLogLevel` -/

/-- A call of `SetLogLevel` gets nothing logged: the build is without `_DEBUG`, and the level is
`VMODULE_LOG_UNKNOWN`, or an invalid one while the level that is set is `VMODULE_LOG_UNKNOWN`. -/
def QuietCall (debug : Bool) (mLogLevel level : Int) : Prop :=
  debug = false ∧ if logUnknown ≤ level ∧ level ≤ logSilent then level = logUnknown
    else mLogLevel ≤ logUnknown

theorem quietCall_iff (debug : Bool) (mLogLevel level : Int) :
    QuietCall debug mLogLevel level ↔
      isLogLevelLogged debug (newLevel mLogLevel level) (ownLevel level) = false := by
  unfold QuietCall isLogLevelLogged newLevel ownLevel logUnknown logSilent logDebug logVerbose
    logError
  cases debug with
  | true => simp
  | false =>
      by_cases hvalid : (0 : Int) ≤ level ∧ level ≤ 8
      · simp [hvalid]
        omega
      · simp [hvalid]
        omega

/-- Every call of `SetLogLevel` is quiet at the moment it has the lock. -/
def Quiet (debug : Bool) (s : State Tid) (a : Action Tid) : Prop :=
  ∀ t level nested, a = .body t → s.pc t = .inside (.setLogLevel level) nested →
    QuietCall debug s.mLogLevel level

/-- While the calls of `SetLogLevel` are quiet nobody calls anything from a section. -/
theorem invariant_quiet (Tid : Type) [DecidableEq Tid] (debug : Bool) :
    ((logger Tid debug).restrict (Quiet debug)).Invariant
      fun s => ∀ t c, s.pc t ≠ .requesting c true where
  init s := by
    rintro rfl t c
    simp [start]
  step s a s' h hs u c := by
    have hmoves : ∀ t p, p ≠ .requesting c true → update s.pc t p u ≠ .requesting c true := by
      intro t p hp
      exact (forall_update_iff s.pc fun _ q => q ≠ .requesting c true).2 ⟨hp, fun v _ => h v c⟩ u
    obtain ⟨hstep, hquiet⟩ := hs
    cases hstep with
    | log _ => exact hmoves _ _ (by simp)
    | testTrue _ _ => exact hmoves _ _ (by simp)
    | testFalse _ _ => exact hmoves _ _ (by simp)
    | call _ => exact hmoves _ _ (by simp)
    | lock _ _ => exact hmoves _ _ (by simp)
    | @setLogs t level nested hpc hlogged =>
        have hq := (quietCall_iff debug s.mLogLevel level).1 (hquiet t level nested rfl hpc)
        simp [hlogged] at hq
    | setSilent _ _ => exact hmoves _ _ (by simp)
    | @unlock t d nested _ _ =>
        refine hmoves _ _ ?_
        cases nested <;> simp
    | leave _ => exact hmoves _ _ (by simp)

end Logger

/-- **No thread requests the lock it holds exactly when `SetLogLevel` never gets anything
logged.** -/
theorem logger_blocks_iff (Tid : Type) [DecidableEq Tid] (debug : Bool) (s : Logger.State Tid)
    (tr : List (Logger.State Tid × Logger.Action Tid))
    (h : (Logger.logger Tid debug).Run Logger.start tr s) :
    (∀ q ∈ Machine.visited tr s, ¬ Logger.BlocksOnItself q) ↔
      ∀ p ∈ tr, Logger.Quiet debug p.1 p.2 := by
  have hsound := Logger.invariant_sound Tid debug
  refine Machine.Run.forall_visited_iff ?_ ?_ rfl h
  · intro q hq hblocks
    obtain ⟨t, c, hpc⟩ := (((hsound.restrict _).reachable hq).blocksOnItself_iff).1 hblocks
    exact (Logger.invariant_quiet Tid debug).reachable hq t c hpc
  · intro q a q' hq hstep hloud
    refine not_not_intro (((hsound.reachable (hq.step hstep)).blocksOnItself_iff).2 ?_)
    unfold Logger.Quiet at hloud
    push Not at hloud
    obtain ⟨t, level, nested, rfl, hpc, hcall⟩ := hloud
    cases hstep with
    | @setLogs _ level' _ hpc' _ =>
        exact ⟨t, _, update_self ..⟩
    | @setSilent _ level' nested' hpc' hsilent =>
        rw [hpc] at hpc'
        obtain ⟨rfl, rfl⟩ : level = level' ∧ nested = nested' := by simpa using hpc'
        exact absurd ((Logger.quietCall_iff debug q.mLogLevel level).2 hsilent) hcall

/-- One thread calls `SetLogLevel(VMODULE_LOG_ERROR)`. -/
theorem Logger.selfBlock_run : ∃ tr s, (Logger.logger ℕ false).Run Logger.start tr s ∧
    Logger.BlocksOnItself s ∧
      tr.map Prod.snd = [.call 0 (.setLogLevel Logger.logError), .lock 0, .body 0] := by
  have h₀ : (Logger.logger ℕ false).Run Logger.start [] Logger.start := .nil
  have h₁ := h₀.snoc (Step.call (t := 0) (c := .setLogLevel logError) rfl)
  have h₂ := h₁.snoc (Step.lock (t := 0) rfl rfl)
  have h₃ := h₂.snoc (Step.setLogs (t := 0) rfl rfl)
  exact ⟨_, _, h₃, ⟨0, .logString logVerbose, true, rfl, rfl⟩, rfl⟩

/-- In that run a call of `SetLogLevel` is not quiet. -/
theorem logger_blocks_iff_loud : ∃ tr s, (Logger.logger ℕ false).Run Logger.start tr s ∧
    ∃ p ∈ tr, ¬ Logger.Quiet false p.1 p.2 := by
  obtain ⟨tr, s, hrun, hblocks, -⟩ := Logger.selfBlock_run
  refine ⟨tr, s, hrun, ?_⟩
  by_contra hne
  have hall := (logger_blocks_iff ℕ false s tr hrun).2 fun p hp => by
    by_contra hq
    exact hne ⟨p, hp, hq⟩
  exact hall s (Machine.mem_visited tr s) hblocks

/-- **A thread that sets the level blocks on itself.** -/
theorem setLogLevel_blocks : ∃ tr s, (Logger.logger ℕ false).Run Logger.start tr s ∧
    Logger.BlocksOnItself s ∧
      tr.map Prod.snd = [.call 0 (.setLogLevel Logger.logError), .lock 0, .body 0] :=
  Logger.selfBlock_run

end VModule

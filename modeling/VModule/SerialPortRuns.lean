/-
**What `CSerialPort` owes: a failed `InitPort`, the settings of a line, and what a pass reads.**

A call of `InitPort` ends in one of four ways, and everything that is said about the call is read
off the way it ends.  The read task is a fold of `store` over the bytes that `ReadByte` delivers,
whichever version runs it.

Main definitions:

* `VModule.SerialPort.Ending` — the four ways;
* `VModule.InitUndone` — what a failed call owes;
* `VModule.SetFor` — what the settings handed to `tcsetattr` owe;
* `VModule.Received` — what a pass of the read task owes.

Main results:

* `VModule.initPort_undone_iff` — a failed call leaves nothing behind if and only if it was not the
  parity, the stop bits or `tcsetattr` that made it fail;
* `VModule.initPort_sets_iff` — the settings are right if and only if the number of data bits is one
  of the four and parity is not checked;
* `VModule.ReadTask.reads_iff_failed` — on POSIX a port is read only after `select` has failed;
* `VModule.threadLoop_received_iff` — a pass ends with the bytes it received if and only if it does
  not read and none had been read before.
-/

import VModule.SerialPort

set_option relaxedAutoImplicit false
set_option autoImplicit false

namespace VModule

/-! ### The settings -/

/-- Odd parity is asked for. -/
def OddParity (parity : Char) : Prop := parity = 'o' ∨ parity = 'O'

/-- Even parity is asked for. -/
def EvenParity (parity : Char) : Prop := parity = 'e' ∨ parity = 'E'

/-- No parity bit is asked for. -/
def NoParity (parity : Char) : Prop :=
  (parity = 'n' ∨ parity = 'N') ∨ parity = 's' ∨ parity = 'S'

/-- **What the settings owe to the arguments.** -/
structure SetFor (databits stopsbits : Int) (parity : Char) (tio : Termios) : Prop where
  size : (databits = 5 ∧ tio.cCflag &&& CSIZE = CS5) ∨ (databits = 6 ∧ tio.cCflag &&& CSIZE = CS6) ∨
    (databits = 7 ∧ tio.cCflag &&& CSIZE = CS7) ∨ (databits = 8 ∧ tio.cCflag &&& CSIZE = CS8)
  parenb : tio.cCflag &&& PARENB ≠ 0#32 ↔ OddParity parity ∨ EvenParity parity
  odd : OddParity parity → tio.cCflag &&& PARODD ≠ 0#32
  even : EvenParity parity → tio.cCflag &&& PARODD = 0#32
  inpck : tio.cIflag &&& INPCK ≠ 0#32 ↔ OddParity parity ∨ EvenParity parity
  cstopb : tio.cCflag &&& CSTOPB ≠ 0#32 ↔ stopsbits = 2
  clocal : tio.cCflag &&& CLOCAL ≠ 0#32
  cread : tio.cCflag &&& CREAD ≠ 0#32

namespace Termios

/-- After the control modes the line is local and read, and the size is still to be set. -/
theorem controlModes_spec (tio : Termios) :
    tio.controlModes.cCflag &&& CLOCAL = CLOCAL ∧ tio.controlModes.cCflag &&& CREAD = CREAD ∧
      tio.controlModes.cCflag &&& CSIZE = 0#32 := by
  simp (disch := decide) only [controlModes, FlagWord.clear_and_of_disjoint,
    FlagWord.set_and_of_disjoint, FlagWord.set_and_of_subset, FlagWord.clear_and_of_subset,
    and_self]

theorem dataBits?_subset {databits : Int} {cs : Flags} (h : dataBits? databits = some cs) :
    cs &&& CSIZE = cs := by
  unfold dataBits? at h
  split_ifs at h
  all_goals
    obtain rfl := Option.some.inj h
    decide

/-- Only `CSIZE` is changed by the number of data bits. -/
theorem setDataBits_of_disjoint (tio : Termios) (databits : Int) {k : Flags}
    (hk : CSIZE &&& k = 0#32) : (tio.setDataBits databits).cCflag &&& k = tio.cCflag &&& k := by
  unfold setDataBits
  split
  · next cs hcs =>
      have hd : cs &&& k = 0#32 := FlagWord.disjoint_of_subset (dataBits?_subset hcs) hk
      exact FlagWord.set_and_of_disjoint _ hd
  · rfl

/-- Where `CSIZE` was clear it reads the number of data bits, or five for an unsupported one. -/
theorem setDataBits_size (tio : Termios) (databits : Int) (h : tio.cCflag &&& CSIZE = 0#32) :
    (tio.setDataBits databits).cCflag &&& CSIZE = (dataBits? databits).getD CS5 := by
  unfold setDataBits
  split
  · next cs hcs => rw [hcs, Option.getD_some, FlagWord.set_and_of_clear _ h, dataBits?_subset hcs]
  · next hcs => rw [hcs, h, Option.getD_none, CS5]; rfl

/-- Which parities are supported. -/
theorem setParity_isSome_iff (tio : Termios) (parity : Char) :
    (tio.setParity parity).isSome = true ↔
      NoParity parity ∨ OddParity parity ∨ EvenParity parity := by
  unfold setParity NoParity OddParity EvenParity
  split_ifs with hn ho he hs <;> simp [*]

variable {tio tio' : Termios}

/-- What a supported parity does to the flags. -/
theorem setParity_cases {parity : Char} (h : tio.setParity parity = some tio') :
    (NoParity parity ∧ tio'.cCflag &&& PARENB = 0#32) ∨
    (OddParity parity ∧ tio'.cCflag &&& PARENB = PARENB ∧ tio'.cCflag &&& PARODD = PARODD) ∨
    (EvenParity parity ∧ tio'.cCflag &&& PARENB = PARENB ∧ tio'.cCflag &&& PARODD = 0#32) := by
  unfold setParity at h
  split_ifs at h with hn ho he hs <;> obtain rfl := Option.some.inj h
  · refine .inl ⟨.inl hn, FlagWord.clear_and_of_subset _ (by decide)⟩
  · refine .inr (.inl ⟨ho, FlagWord.set_and_of_subset _ (by decide), ?_⟩)
    exact FlagWord.set_and_of_subset _ (by decide)
  · refine .inr (.inr ⟨he, ?_, FlagWord.clear_and_of_subset _ (by decide)⟩)
    rw [FlagWord.clear_and_of_disjoint _ (by decide), FlagWord.set_and_of_subset _ (by decide)]
  · refine .inl ⟨.inr hs, ?_⟩
    rw [FlagWord.clear_and_of_disjoint _ (by decide), FlagWord.clear_and_of_subset _ (by decide)]

/-- The parity leaves the flags alone that it is not about. -/
theorem setParity_of_disjoint {parity : Char} (h : tio.setParity parity = some tio') {k : Flags}
    (hb : PARENB &&& k = 0#32) (hd : PARODD &&& k = 0#32) (hs : CSTOPB &&& k = 0#32) :
    tio'.cCflag &&& k = tio.cCflag &&& k := by
  unfold setParity at h
  split_ifs at h <;> obtain rfl := Option.some.inj h
  · exact FlagWord.clear_and_of_disjoint _ hb
  · exact FlagWord.set_and_of_disjoint _ (FlagWord.or_disjoint hd hb)
  · exact (FlagWord.clear_and_of_disjoint _ hd).trans (FlagWord.set_and_of_disjoint _ hb)
  · exact (FlagWord.clear_and_of_disjoint _ hs).trans (FlagWord.clear_and_of_disjoint _ hb)

/-- Which numbers of stop bits are supported. -/
theorem setStopBits_isSome_iff (tio : Termios) (stopsbits : Int) :
    (tio.setStopBits stopsbits).isSome = true ↔ stopsbits = 1 ∨ stopsbits = 2 := by
  unfold setStopBits
  split_ifs <;> simp [*]

/-- The stop bits decide `CSTOPB`. -/
theorem setStopBits_cstopb {stopsbits : Int} (h : tio.setStopBits stopsbits = some tio') :
    tio'.cCflag &&& CSTOPB ≠ 0#32 ↔ stopsbits = 2 := by
  unfold setStopBits at h
  split_ifs at h with h1 h2 <;> obtain rfl := Option.some.inj h
  · have hz : FlagWord.clear tio.cCflag CSTOPB &&& CSTOPB = 0#32 :=
      FlagWord.clear_and_of_subset _ (by decide)
    simp [hz, h1]
  · have hz : FlagWord.set tio.cCflag CSTOPB &&& CSTOPB = CSTOPB :=
      FlagWord.set_and_of_subset _ (by decide)
    simp only [hz, h2, iff_true]
    decide

/-- The stop bits leave the other flags alone. -/
theorem setStopBits_of_disjoint {stopsbits : Int} (h : tio.setStopBits stopsbits = some tio')
    {k : Flags} (hk : CSTOPB &&& k = 0#32) : tio'.cCflag &&& k = tio.cCflag &&& k := by
  unfold setStopBits at h
  split_ifs at h <;> obtain rfl := Option.some.inj h
  · exact FlagWord.clear_and_of_disjoint _ hk
  · exact FlagWord.set_and_of_disjoint _ hk

/-- **The settings put together are right but for `INPCK`, if the size is supported.** -/
theorem rawModes_setFor_iff {tio₀ tio₁ tio₂ : Termios} {databits stopsbits : Int} {parity : Char}
    (h₁ : (tio₀.controlModes.setDataBits databits).setParity parity = some tio₁)
    (h₂ : tio₁.setStopBits stopsbits = some tio₂) :
    SetFor databits stopsbits parity tio₂.rawModes ↔
      (databits = 5 ∨ databits = 6 ∨ databits = 7 ∨ databits = 8) ∧
        ¬ OddParity parity ∧ ¬ EvenParity parity := by
  obtain ⟨hclocal, hcread, hcsize⟩ := controlModes_spec tio₀
  -- the parity and the stop bits leave these three alone
  have hkeep : ∀ k : Flags, PARENB &&& k = 0#32 → PARODD &&& k = 0#32 → CSTOPB &&& k = 0#32 →
      tio₂.rawModes.cCflag &&& k = (tio₀.controlModes.setDataBits databits).cCflag &&& k := by
    intro k hb hd hs
    exact (setStopBits_of_disjoint h₂ hs).trans (setParity_of_disjoint h₁ hb hd hs)
  have hsize : tio₂.rawModes.cCflag &&& CSIZE = (dataBits? databits).getD CS5 :=
    (hkeep CSIZE (by decide) (by decide) (by decide)).trans (setDataBits_size _ _ hcsize)
  have hpar : ∀ k : Flags, CSTOPB &&& k = 0#32 →
      tio₂.rawModes.cCflag &&& k = tio₁.cCflag &&& k := by
    intro k hs
    exact setStopBits_of_disjoint h₂ hs
  have hinpck : tio₂.rawModes.cIflag &&& INPCK = 0#32 := by
    simp only [rawModes]
    decide
  constructor
  · intro h
    have hnot : ¬ (OddParity parity ∨ EvenParity parity) := by
      intro hp
      exact h.inpck.2 hp hinpck
    refine ⟨?_, fun ho => hnot (.inl ho), fun he => hnot (.inr he)⟩
    obtain ⟨h, _⟩ | ⟨h, _⟩ | ⟨h, _⟩ | ⟨h, _⟩ := h.size <;> simp [h]
  · rintro ⟨hbits, hodd, heven⟩
    have hno : tio₁.cCflag &&& PARENB = 0#32 := by
      obtain ⟨_, hz⟩ | ⟨ho, _⟩ | ⟨he, _⟩ := setParity_cases h₁
      · exact hz
      · exact absurd ho hodd
      · exact absurd he heven
    refine ⟨?_, ?_, fun ho => absurd ho hodd, fun he => absurd he heven, ?_, ?_, ?_, ?_⟩
    · rw [hsize]
      obtain rfl | rfl | rfl | rfl := hbits <;> simp [dataBits?]
    · simp [hpar PARENB (by decide), hno, hodd, heven]
    · simp [hinpck, hodd, heven]
    · show tio₂.cCflag &&& CSTOPB ≠ 0#32 ↔ _
      exact setStopBits_cstopb h₂
    · rw [hkeep CLOCAL (by decide) (by decide) (by decide),
        setDataBits_of_disjoint _ _ (by decide), hclocal]
      decide
    · rw [hkeep CREAD (by decide) (by decide) (by decide),
        setDataBits_of_disjoint _ _ (by decide), hcread]
      decide

end Termios

/-! ### A pass of the read task -/

namespace ReadTask

/-- The pass gets to the loop that reads, on POSIX. -/
structure Reads (alive : Bool) (p : SerialPort) (a : SelectAnswer p.mFile p.readset) : Prop where
  alive : alive = true
  mFile : 0 ≤ p.mFile
  select : a.result ≠ 0
  eintr : ¬ (a.result = -1 ∧ a.errno = eINTR)
  ready : p.mFile.toNat ∈ a.readset

/-- The pass gets to the loop that reads, on Windows. -/
structure ReadsWindows (alive : Bool) (a : CommAnswer) : Prop where
  alive : alive = true
  waits : a.waits = true
  rxchar : a.rxchar = true
  bytesInQue : getTotalBytes a ≠ 0

/-- A port whose set has at most its own descriptor is read on POSIX only after a `select` that has
failed: `select` is told to look at the descriptors below this one. -/
theorem reads_iff_failed {alive : Bool} {p : SerialPort} {a : SelectAnswer p.mFile p.readset}
    (hset : p.readset ⊆ {p.mFile.toNat}) :
    Reads alive p a ↔ alive = true ∧ 0 ≤ p.mFile ∧ a.result = -1 ∧ a.errno ≠ eINTR ∧
      p.mFile.toNat ∈ p.readset := by
  constructor
  · intro h
    have hfailed : a.result = -1 := by
      by_contra hne
      obtain ⟨hsub, hcount⟩ := a.answered hne
      have hnone : (a.readset.filter fun fd : ℕ => (fd : Int) < p.mFile) = ∅ := by
        refine Finset.filter_eq_empty_iff.2 fun fd hfd hlt => ?_
        have hself := Finset.mem_singleton.1 (hset (hsub hfd))
        have hmFile := h.mFile
        omega
      refine h.select ?_
      rw [hcount, hnone]
      rfl
    exact ⟨h.alive, h.mFile, hfailed, fun herrno => h.eintr ⟨hfailed, herrno⟩,
      a.failed hfailed ▸ h.ready⟩
  · intro h
    obtain ⟨halive, hmFile, hfailed, herrno, hmem⟩ := h
    refine ⟨halive, hmFile, ?_, fun heintr => herrno heintr.2, ?_⟩
    · rw [hfailed]
      decide
    · rw [a.failed hfailed]
      exact hmem

theorem threadLoop_of_reads {alive : Bool} {p : SerialPort} {a : SelectAnswer p.mFile p.readset}
    (h : Reads alive p a) (reads : List (Option UInt8)) (t : ReadTask) :
    t.threadLoop alive p a reads =
      (readLoop p.mFile reads t.reset).map fun t' =>
        ⟨true, { p with readset := a.readset }, t'.bump⟩ := by
  have halive : ¬ (alive = false ∨ p.mFile < 0) := by
    rintro (hf | hlt)
    · simp [h.alive] at hf
    · exact absurd h.mFile (by omega)
  simp only [threadLoop, if_neg halive, if_neg h.eintr, if_neg h.select]
  exact if_pos ⟨h.mFile, h.ready⟩

theorem threadLoop_of_not_reads {alive : Bool} {p : SerialPort}
    {a : SelectAnswer p.mFile p.readset} (h : ¬ Reads alive p a) (reads : List (Option UInt8))
    (t : ReadTask) :
    ∃ again q, t.threadLoop alive p a reads = some ⟨again, q, t⟩ ∧ q.mFile = p.mFile := by
  by_cases halive : alive = false ∨ p.mFile < 0
  · exact ⟨false, p, by rw [threadLoop, if_pos halive], rfl⟩
  · refine ⟨true, { p with readset := a.readset }, ?_, rfl⟩
    have hmFile : 0 ≤ p.mFile := by
      by_contra hlt
      exact halive (.inr (by omega))
    by_cases heintr : a.result = -1 ∧ a.errno = eINTR
    · simp only [threadLoop, if_neg halive, if_pos heintr]
    · by_cases hsel : a.result = 0
      · simp only [threadLoop, if_neg halive, if_neg heintr, if_pos hsel]
      · simp only [threadLoop, if_neg halive, if_neg heintr, if_neg hsel]
        refine if_neg fun hready => h ⟨?_, hmFile, hsel, heintr, hready.2⟩
        cases alive <;> simp_all

theorem threadLoopWindows_of_reads {alive : Bool} {a : CommAnswer} (h : ReadsWindows alive a)
    (reads : ℕ → Option UInt8) (p : SerialPort) (t : ReadTask) :
    t.threadLoopWindows alive a reads p =
      (readQueue p.mFile reads (getTotalBytes a) 0 t.reset).map fun t' => ⟨true, p, t'.bump⟩ := by
  have halive : ¬ alive = false := by simp [h.alive]
  simp only [threadLoopWindows, if_neg halive, if_pos (And.intro h.waits h.rxchar),
    if_neg h.bytesInQue]

theorem threadLoopWindows_of_not_reads {alive : Bool} {a : CommAnswer}
    (h : ¬ ReadsWindows alive a) (reads : ℕ → Option UInt8) (p : SerialPort) (t : ReadTask) :
    ∃ again, t.threadLoopWindows alive a reads p = some ⟨again, p, t⟩ := by
  by_cases halive : alive = false
  · exact ⟨false, by rw [threadLoopWindows, if_pos halive]⟩
  · refine ⟨true, ?_⟩
    by_cases hw : a.waits = true ∧ a.rxchar = true
    · have hque : getTotalBytes a = 0 := by
        by_contra hne
        exact h ⟨by simpa using halive, hw.1, hw.2, hne⟩
      simp only [threadLoopWindows, if_neg halive, if_pos hw, if_pos hque]
    · simp only [threadLoopWindows, if_neg halive, if_neg hw]

end ReadTask

/-! ### How a call of `InitPort` ends -/

/-- The device opens and nothing in the arguments or in `tcsetattr` is against it. -/
structure InitCall.SetsUp (c : InitCall) : Prop where
  parity : NoParity c.parity ∨ OddParity c.parity ∨ EvenParity c.parity
  stopsbits : c.stopsbits = 1 ∨ c.stopsbits = 2
  tcsetattr : c.tcsetattr = true

namespace SerialPort

variable {N : FdNumbering} {cfsetispeed : Termios → Int → Termios}

/-- The ways in which a call of `InitPort` on `p` ends. -/
inductive Ending (N : FdNumbering) (cfsetispeed : Termios → Int → Termios) (c : InitCall)
    (p : SerialPort) : Status × SerialPort → Prop
  /-- The port is refused as already initialised. -/
  | refused {q : SerialPort} :
      p.mFile ≠ invalidHandle → q.mFile = p.mFile → q.mReadTask = p.mReadTask →
      q.openFds = p.openFds → Ending N cfsetispeed c p (.invalidOperation, q)
  /-- The device does not open. -/
  | notOpened {q : SerialPort} :
      p.mFile = invalidHandle → c.opens = false → q.mFile = invalidHandle →
      q.mReadTask = p.mReadTask → q.openFds = p.openFds →
      Ending N cfsetispeed c p (.invalidOperation, q)
  /-- The device opens, and cannot be set up. -/
  | abandoned {q : SerialPort} :
      p.mFile = invalidHandle → c.opens = true → ¬ c.SetsUp → q.mFile = N.pick p.openFds →
      q.mReadTask = p.mReadTask → q.openFds = insert (N.pick p.openFds) p.openFds →
      Ending N cfsetispeed c p (.invalidOperation, q)
  /-- The port is initialised. -/
  | done {q : SerialPort} {tio₁ tio₂ : Termios} :
      p.mFile = invalidHandle → c.opens = true → c.SetsUp → q.mFile = N.pick p.openFds →
      q.mReadTask.isSome = true → q.openFds = insert (N.pick p.openFds) p.openFds →
      ((cfsetispeed (c.tcgetattr.getD .zero) c.baud).controlModes.setDataBits
        c.databits).setParity c.parity = some tio₁ →
      tio₁.setStopBits c.stopsbits = some tio₂ → q.handed = some tio₂.rawModes →
      Ending N cfsetispeed c p (.noError, q)

/-- After a successful call the read task runs. -/
theorem startReading_mReadTask (p : SerialPort) : p.startReading.mReadTask.isSome = true := by
  cases hp : p.mReadTask <;> simp [startReading, hp]

/-- What is left of a call when the device is open. -/
theorem setUp_ending (c : InitCall) {p q : SerialPort} (hp : p.mFile = invalidHandle)
    (hopens : c.opens = true) (hm : q.mFile = N.pick p.openFds) (ht : q.mReadTask = p.mReadTask)
    (hfds : q.openFds = insert (N.pick p.openFds) p.openFds) :
    Ending N cfsetispeed c p (q.setUp cfsetispeed c) := by
  obtain ⟨hm₁, ht₁, hfds₁⟩ := q.check_spec c.tcgetattr.isSome "get termios Error"
  obtain ⟨hm₂, ht₂, hfds₂⟩ := (q.check c.tcgetattr.isSome "get termios Error").check_spec
    (Termios.dataBits? c.databits).isSome "Unsupported data size/n"
  rw [hm₁, hm] at hm₂
  rw [ht₁, ht] at ht₂
  rw [hfds₁, hfds] at hfds₂
  simp only [setUp]
  split
  · next hpar =>
      refine .abandoned hp hopens (fun hs => ?_) hm₂ ht₂ hfds₂
      exact Option.isSome_iff_ne_none.1 ((Termios.setParity_isSome_iff _ _).2 hs.parity) hpar
  · next tio₁ hpar =>
      split
      · next hstop =>
          refine .abandoned hp hopens (fun hs => ?_) hm₂ ht₂ hfds₂
          exact Option.isSome_iff_ne_none.1
            ((Termios.setStopBits_isSome_iff _ _).2 hs.stopsbits) hstop
      · next tio₂ hstop =>
          split
          · next hset =>
              have hsup : c.SetsUp :=
                ⟨(Termios.setParity_isSome_iff _ _).1 (Option.isSome_of_eq_some hpar),
                  (Termios.setStopBits_isSome_iff _ _).1 (Option.isSome_of_eq_some hstop), hset⟩
              exact .done hp hopens hsup hm₂ (startReading_mReadTask _) hfds₂ hpar hstop rfl
          · next hset =>
              exact .abandoned hp hopens (fun hs => hset hs.tcsetattr) hm₂ ht₂ hfds₂

/-- **Every call ends in one of these ways.** -/
theorem initPort_ending (N : FdNumbering) (cfsetispeed : Termios → Int → Termios) (c : InitCall)
    (p : SerialPort) : Ending N cfsetispeed c p (p.initPort N cfsetispeed c) := by
  by_cases hm : p.mFile = invalidHandle
  · have hnot : ¬ p.mFile ≠ invalidHandle := not_not_intro hm
    rw [initPort, if_neg hnot]
    cases ho : c.opens with
    | true =>
        simp only [openPort, ho, if_true]
        exact setUp_ending c hm ho rfl rfl rfl
    | false =>
        simp only [openPort, ho, Bool.false_eq_true, if_false]
        exact .notOpened hm ho rfl rfl rfl
  · rw [initPort, if_pos hm]
    exact .refused hm rfl rfl rfl

/-- A port that the call was not refused on has no read task, unless the call succeeded. -/
theorem ok_of_setsUp {c : InitCall} {p : SerialPort} (hp : p.mFile = invalidHandle)
    (ho : c.opens = true) (hs : c.SetsUp) : (p.initPort N cfsetispeed c).1 = .noError := by
  have h := initPort_ending N cfsetispeed c p
  generalize p.initPort N cfsetispeed c = r at h
  cases h with
  | refused hm => exact absurd hp hm
  | notOpened _ hno => simp [ho] at hno
  | abandoned _ _ hns => exact absurd hs hns
  | done => rfl

/-- A pass leaves the handle alone. -/
theorem threadLoop_mFile {alive : Bool} {p : SerialPort} {a : SelectAnswer p.mFile p.readset}
    {reads : List (Option UInt8)} {t : ReadTask} {e : PassEnd}
    (h : t.threadLoop alive p a reads = some e) : e.port.mFile = p.mFile := by
  by_cases hr : ReadTask.Reads alive p a
  · rw [ReadTask.threadLoop_of_reads hr] at h
    obtain ⟨t', _, rfl⟩ := Option.map_eq_some_iff.1 h
    rfl
  · obtain ⟨again, q, hq, hm⟩ := ReadTask.threadLoop_of_not_reads hr reads t
    obtain rfl := Option.some.inj (hq.symm.trans h)
    exact hm

/-- A new descriptor is not the invalid handle. -/
theorem pick_ne_invalidHandle (N : FdNumbering) (fds : Finset ℕ) :
    ((N.pick fds : ℕ) : Int) ≠ invalidHandle := by
  simp only [invalidHandle]
  omega

/-- A port without a handle has no read task. -/
theorem invariant_mReadTask (N : FdNumbering) (cfsetispeed : Termios → Int → Termios) :
    (serialPort N cfsetispeed).Invariant
      fun p => p.mFile = invalidHandle → p.mReadTask = none where
  init p := by
    rintro ⟨fds, rfl⟩ _
    rfl
  step p a p' hp hstep hm := by
    cases hstep with
    | init c =>
        have h := initPort_ending N cfsetispeed c p
        generalize p.initPort N cfsetispeed c = r at h hm
        cases h with
        | refused hne hq => exact absurd (hq.symm.trans hm) hne
        | notOpened hinv _ _ ht _ => exact ht.trans (hp hinv)
        | abandoned _ _ _ hq => exact absurd (hq.symm.trans hm) (pick_ne_invalidHandle N _)
        | done _ _ _ hq => exact absurd (hq.symm.trans hm) (pick_ne_invalidHandle N _)
    | pass ht hpass =>
        have hnone := hp ((threadLoop_mFile hpass).symm.trans hm)
        simp [ht] at hnone

end SerialPort

/-! ### A failed `InitPort` -/

/-- **What a failed call of `InitPort` on `p` owes**: the port has no handle, nothing the call
opened is open, no read task runs, and a later call is not refused for what this one left. -/
structure InitUndone (N : FdNumbering) (cfsetispeed : Termios → Int → Termios) (p q : SerialPort) :
    Prop where
  mFile : q.mFile = invalidHandle
  openFds : ∀ fd ∈ q.openFds, fd ∈ p.openFds
  mReadTask : q.mReadTask = none
  later : ∀ c : InitCall, c.opens = true → c.SetsUp → (q.initPort N cfsetispeed c).1 = .noError

/-- **A failed `InitPort` is undone exactly when what failed was the opening of the device.** -/
theorem initPort_undone_iff (N : FdNumbering) (cfsetispeed : Termios → Int → Termios) (c : InitCall)
    (p : SerialPort) (hp : (serialPort N cfsetispeed).Reachable p)
    (hm : p.mFile = invalidHandle) :
    ((p.initPort N cfsetispeed c).1 ≠ .noError →
        InitUndone N cfsetispeed p (p.initPort N cfsetispeed c).2) ↔
      (c.opens = true → c.SetsUp) := by
  have ht := (SerialPort.invariant_mReadTask N cfsetispeed).reachable hp hm
  have h := SerialPort.initPort_ending N cfsetispeed c p
  generalize p.initPort N cfsetispeed c = r at h
  cases h with
  | refused hne => exact absurd hm hne
  | @notOpened q _ hno hq hqt hfds =>
      refine ⟨fun _ ho => by simp [hno] at ho, fun _ _ => ⟨hq, ?_, hqt.trans ht, ?_⟩⟩
      · intro fd hfd
        rwa [hfds] at hfd
      · intro c' ho hs
        exact SerialPort.ok_of_setsUp hq ho hs
  | @abandoned q _ ho hns hq _ _ =>
      refine ⟨fun hun => ?_, fun hs => absurd (hs ho) hns⟩
      have hinv := (hun (by simp)).mFile
      exact absurd (hq.symm.trans hinv) (SerialPort.pick_ne_invalidHandle N _)
  | done _ _ hs => exact ⟨fun _ _ => hs, fun _ hne => absurd rfl hne⟩

/-- The arguments of a call, on a device that opens and answers. -/
def InitCall.plain (parity : Char) (databits stopsbits : Int) : InitCall where
  name := "/dev/ttyS0"
  baud := 13
  parity := parity
  databits := databits
  stopsbits := stopsbits
  opens := true
  tcgetattr := some .zero
  tcsetattr := true

/-- A call for a device that does not open is undone. -/
theorem initPort_undone_notOpened :
    InitUndone .lowest (fun tio _ => tio) (SerialPort.create {0, 1, 2})
      ((SerialPort.create {0, 1, 2}).initPort .lowest (fun tio _ => tio)
        { InitCall.plain 'N' 8 1 with opens := false }).2 := by
  refine (initPort_undone_iff .lowest (fun tio _ => tio)
    { InitCall.plain 'N' 8 1 with opens := false } (SerialPort.create {0, 1, 2})
    (.init ⟨_, rfl⟩) rfl).2 (by simp) (by decide)

/-- A call with a parity that is not supported leaves the device open. -/
theorem initPort_leaves_open :
    (SerialPort.create {0, 1, 2}).mFile = invalidHandle ∧
    ((SerialPort.create {0, 1, 2}).initPort .lowest (fun tio _ => tio)
        (InitCall.plain 'Y' 8 1)).1 ≠ .noError ∧
      ¬ InitUndone .lowest (fun tio _ => tio) (SerialPort.create {0, 1, 2})
        ((SerialPort.create {0, 1, 2}).initPort .lowest (fun tio _ => tio)
          (InitCall.plain 'Y' 8 1)).2 := by
  refine ⟨rfl, by decide, fun h => ?_⟩
  exact absurd (h.openFds 3 (by decide)) (by decide)

/-- With `ClosePort` on the way out every failed call would be undone. -/
theorem initPort_closePort_undone (N : FdNumbering) (cfsetispeed : Termios → Int → Termios)
    (c : InitCall) (p : SerialPort) (hp : (serialPort N cfsetispeed).Reachable p)
    (hm : p.mFile = invalidHandle) (hfail : (p.initPort N cfsetispeed c).1 ≠ .noError) :
    InitUndone N cfsetispeed p (p.initPort N cfsetispeed c).2.closePort := by
  have ht := (SerialPort.invariant_mReadTask N cfsetispeed).reachable hp hm
  have h := SerialPort.initPort_ending N cfsetispeed c p
  generalize p.initPort N cfsetispeed c = r at h hfail
  cases h with
  | refused hne => exact absurd hm hne
  | notOpened _ _ hq hqt hfds =>
      rw [SerialPort.closePort, if_pos hq]
      exact ⟨hq, fun fd hfd => hfds ▸ hfd, hqt.trans ht, fun _ => SerialPort.ok_of_setsUp hq⟩
  | abandoned _ _ _ hq hqt hfds =>
      have hne := SerialPort.pick_ne_invalidHandle N p.openFds
      rw [SerialPort.closePort, if_neg (by rw [hq]; exact hne)]
      refine ⟨rfl, fun fd hfd => ?_, hqt.trans ht, fun _ => SerialPort.ok_of_setsUp rfl⟩
      simp only [hq, hfds, Int.toNat_natCast] at hfd
      rwa [Finset.erase_insert (N.pick_notMem _)] at hfd
  | done => exact absurd rfl hfail

/-- **The settings are right exactly when the size is supported and no parity is checked.** -/
theorem initPort_sets_iff (N : FdNumbering) (cfsetispeed : Termios → Int → Termios) (c : InitCall)
    (p : SerialPort) :
    ((p.initPort N cfsetispeed c).1 = .noError →
        ∃ tio, (p.initPort N cfsetispeed c).2.handed = some tio ∧
          SetFor c.databits c.stopsbits c.parity tio) ↔
      (p.mFile = invalidHandle → c.opens = true → c.SetsUp →
        (c.databits = 5 ∨ c.databits = 6 ∨ c.databits = 7 ∨ c.databits = 8) ∧
          ¬ OddParity c.parity ∧ ¬ EvenParity c.parity) := by
  have h := SerialPort.initPort_ending N cfsetispeed c p
  generalize p.initPort N cfsetispeed c = r at h
  cases h with
  | refused hne => exact ⟨fun _ hm => absurd hm hne, fun _ hok => by simp at hok⟩
  | notOpened _ hno => exact ⟨fun _ _ ho => by simp [hno] at ho, fun _ hok => by simp at hok⟩
  | abandoned _ _ hns => exact ⟨fun _ _ _ hs => absurd hs hns, fun _ hok => by simp at hok⟩
  | @done q tio₁ tio₂ hm ho hs _ _ _ hpar hstop hhanded =>
      have hiff := Termios.rawModes_setFor_iff hpar hstop
      constructor
      · intro hset _ _ _
        obtain ⟨tio, htio, hfor⟩ := hset rfl
        obtain rfl := Option.some.inj (hhanded.symm.trans htio)
        exact hiff.1 hfor
      · intro hcond _
        exact ⟨tio₂.rawModes, hhanded, hiff.2 (hcond hm ho hs)⟩

/-- Odd parity is not checked, and nine data bits are taken for five. -/
theorem initPort_sets_wrong :
    (((SerialPort.create ∅).initPort .lowest (fun tio _ => tio) (.plain 'o' 8 1)).1 = .noError ∧
      ¬ ∃ tio, ((SerialPort.create ∅).initPort .lowest (fun tio _ => tio)
        (.plain 'o' 8 1)).2.handed = some tio ∧ SetFor 8 1 'o' tio) ∧
    ((SerialPort.create ∅).initPort .lowest (fun tio _ => tio) (.plain 'N' 9 1)).1 = .noError ∧
      ¬ ∃ tio, ((SerialPort.create ∅).initPort .lowest (fun tio _ => tio)
        (.plain 'N' 9 1)).2.handed = some tio ∧ SetFor 9 1 'N' tio := by
  refine ⟨⟨by decide, ?_⟩, by decide, ?_⟩
  · rintro ⟨tio, htio, hset⟩
    obtain rfl := Option.some.inj htio
    exact hset.inpck.2 (.inl (.inl rfl)) (by decide)
  · rintro ⟨tio, htio, hset⟩
    obtain ⟨h, _⟩ | ⟨h, _⟩ | ⟨h, _⟩ | ⟨h, _⟩ := hset.size <;> simp at h

/-! ### What a pass reads -/

namespace ReadTask

/-- `buffer[0..len)` is `bytes`. -/
def Holds (t : ReadTask) (bytes : List UInt8) : Prop :=
  t.len = bytes.length ∧ t.buffer.toList.take t.len = bytes

/-- What the calls of `ReadByte` deliver up to the first that fails. -/
def delivered (mFile : Int) : List (Option UInt8) → List UInt8
  | [] => []
  | r :: reads =>
      match readByte mFile r with
      | .ok byte => byte :: delivered mFile reads
      | .error _ => []

/-- What `n` calls of `ReadByte` deliver, of which the first is number `i`. -/
def deliveredQueue (mFile : Int) (reads : ℕ → Option UInt8) (n i : ℕ) : List UInt8 :=
  (List.range' i n).filterMap fun j => (readByte mFile (reads j)).toOption

/-- The bytes are stored one after the other. -/
def storeAll (bytes : List UInt8) (t : ReadTask) : Option ReadTask := bytes.foldlM store t

theorem readLoop_eq_storeAll (mFile : Int) (reads : List (Option UInt8)) (t : ReadTask) :
    readLoop mFile reads t = storeAll (delivered mFile reads) t := by
  induction reads generalizing t with
  | nil => rfl
  | cons r reads ih =>
      cases hr : readByte mFile r with
      | ok byte =>
          simp only [readLoop, delivered, hr, storeAll, List.foldlM_cons]
          exact congrArg (Option.bind (t.store byte)) (funext ih)
      | error st => simp [readLoop, delivered, hr, storeAll]

theorem readQueue_eq_storeAll (mFile : Int) (reads : ℕ → Option UInt8) (n i : ℕ) (t : ReadTask) :
    readQueue mFile reads n i t = storeAll (deliveredQueue mFile reads n i) t := by
  induction n generalizing i t with
  | zero => rfl
  | succ n ih =>
      rw [deliveredQueue, List.range'_succ]
      cases hr : readByte mFile (reads i) with
      | ok byte =>
          simp only [readQueue, hr, storeAll, Except.toOption, List.filterMap_cons,
            List.foldlM_cons]
          exact congrArg (Option.bind (t.store byte)) (funext fun t' => ih (i + 1) t')
      | error st =>
          simp only [readQueue, hr, Except.toOption, List.filterMap_cons]
          exact ih (i + 1) t

/-- A task does not hold more than the buffer does. -/
theorem Holds.length_le {t : ReadTask} {bytes : List UInt8} (h : t.Holds bytes) :
    bytes.length ≤ 1024 := by
  have hlen := congrArg List.length h.2
  simp at hlen
  omega

/-- One byte more is held, if there is room for it. -/
theorem Holds.store {t : ReadTask} {bytes : List UInt8} (h : t.Holds bytes) (byte : UInt8)
    (hroom : bytes.length < 1024) : ∃ t', t.store byte = some t' ∧ t'.Holds (bytes ++ [byte]) := by
  have hlt : t.len < 1024 := by
    rw [h.1]
    exact hroom
  refine ⟨⟨t.buffer.set t.len byte, t.len + 1⟩, by rw [ReadTask.store, dif_pos hlt], ?_, ?_⟩
  · simp [h.1]
  · have hlen : t.len < t.buffer.toList.length := by simpa using hlt
    have hget : (t.buffer.toList.set t.len byte)[t.len]? = some byte :=
      List.getElem?_set_self hlen
    rw [Vector.toList_set, List.take_add_one, List.take_set_of_le (Nat.le_refl _), hget, h.2]
    rfl

/-- **All bytes are stored, or one is written behind the buffer.** -/
theorem Holds.storeAll {t : ReadTask} {bytes : List UInt8} (h : t.Holds bytes)
    (more : List UInt8) :
    (bytes.length + more.length ≤ 1024 →
      ∃ t', storeAll more t = some t' ∧ t'.Holds (bytes ++ more)) ∧
    (1024 < bytes.length + more.length → storeAll more t = none) := by
  induction more generalizing t bytes with
  | nil =>
      have hle := h.length_le
      refine ⟨fun _ => ⟨t, rfl, by simpa using h⟩, fun hlt => ?_⟩
      exact absurd hlt (by rw [List.length_nil]; omega)
  | cons byte more ih =>
      by_cases hroom : bytes.length < 1024
      · obtain ⟨t', ht', hh⟩ := h.store byte hroom
        have ih' := ih hh
        simp only [List.append_assoc, List.singleton_append, List.length_append,
          List.length_singleton] at ih'
        have hstep : ReadTask.storeAll (byte :: more) t = ReadTask.storeAll more t' := by
          simp [ReadTask.storeAll, ht']
        rw [hstep, List.length_cons]
        exact ⟨fun hle => ih'.1 (by omega), fun hlt => ih'.2 (by omega)⟩
      · refine ⟨fun hle => absurd hle (by rw [List.length_cons]; omega), fun _ => ?_⟩
        have hnone : t.store byte = none := by
          rw [ReadTask.store, dif_neg]
          rw [h.1]
          exact hroom
        simp [ReadTask.storeAll, hnone]

theorem holds_reset (t : ReadTask) : t.reset.Holds [] := ⟨rfl, rfl⟩

instance (alive : Bool) (p : SerialPort) (a : SelectAnswer p.mFile p.readset) :
    Decidable (Reads alive p a) :=
  decidable_of_iff (alive = true ∧ 0 ≤ p.mFile ∧ a.result ≠ 0 ∧
      ¬ (a.result = -1 ∧ a.errno = eINTR) ∧ p.mFile.toNat ∈ a.readset)
    ⟨fun ⟨h₁, h₂, h₃, h₄, h₅⟩ => ⟨h₁, h₂, h₃, h₄, h₅⟩,
      fun ⟨h₁, h₂, h₃, h₄, h₅⟩ => ⟨h₁, h₂, h₃, h₄, h₅⟩⟩

instance (alive : Bool) (a : CommAnswer) : Decidable (ReadsWindows alive a) :=
  decidable_of_iff (alive = true ∧ a.waits = true ∧ a.rxchar = true ∧ getTotalBytes a ≠ 0)
    ⟨fun ⟨h₁, h₂, h₃, h₄⟩ => ⟨h₁, h₂, h₃, h₄⟩, fun ⟨h₁, h₂, h₃, h₄⟩ => ⟨h₁, h₂, h₃, h₄⟩⟩

/-- The bytes received in a pass, on POSIX. -/
def received (alive : Bool) (p : SerialPort) (a : SelectAnswer p.mFile p.readset)
    (reads : List (Option UInt8)) : List UInt8 :=
  if Reads alive p a then delivered p.mFile reads else []

/-- The bytes received in a pass, on Windows. -/
def receivedWindows (alive : Bool) (a : CommAnswer) (reads : ℕ → Option UInt8) (p : SerialPort) :
    List UInt8 :=
  if ReadsWindows alive a then deliveredQueue p.mFile reads (getTotalBytes a) 0 else []

end ReadTask

/-- **What a pass that received `bytes` owes**: nothing is written behind the buffer, and at the end
`buffer[0..len)` is what was received. -/
def Received (e : Option PassEnd) (bytes : List UInt8) : Prop :=
  ∃ r, e = some r ∧ r.task.Holds bytes

namespace ReadTask

/-- The reading passes of both versions end alike: what is stored is one element short of `len`. -/
theorem not_received_bump {bytes : List UInt8} {t : ReadTask} {f : ReadTask → PassEnd}
    (hf : ∀ t', (f t').task = t'.bump) : ¬ Received ((storeAll bytes t.reset).map f) bytes := by
  rintro ⟨r, hr, hlen, _⟩
  obtain ⟨t', ht', rfl⟩ := Option.map_eq_some_iff.1 hr
  have hall := t.holds_reset.storeAll bytes
  rw [List.nil_append, List.length_nil, Nat.zero_add] at hall
  rcases Nat.lt_or_ge 1024 bytes.length with hlt | hle
  · simp [hall.2 hlt] at ht'
  · obtain ⟨t'', ht'', hh⟩ := hall.1 hle
    obtain rfl := Option.some.inj (ht'.symm.trans ht'')
    rw [hf, bump, hh.1] at hlen
    simp at hlen

/-- A pass that does not read keeps what the task held before. -/
theorem received_nil_iff (again : Bool) (p : SerialPort) (t : ReadTask) :
    Received (some ⟨again, p, t⟩) [] ↔ t.len = 0 := by
  constructor
  · rintro ⟨r, hr, hh⟩
    obtain rfl := Option.some.inj hr
    exact hh.1
  · intro hlen
    exact ⟨_, rfl, hlen, by simp [hlen]⟩

/-- A pass begins with an empty buffer, so it has room for 1024 bytes. -/
theorem storeAll_reset_ne_none_iff (bytes : List UInt8) (t : ReadTask) :
    storeAll bytes t.reset ≠ none ↔ bytes.length ≤ 1024 := by
  have hall := t.holds_reset.storeAll bytes
  rw [List.nil_append, List.length_nil, Nat.zero_add] at hall
  constructor
  · intro hne
    by_contra hlt
    exact hne (hall.2 (by omega))
  · intro hle
    obtain ⟨t', ht', _⟩ := hall.1 hle
    simp [ht']

end ReadTask

/-- **A pass ends with the bytes it received exactly when it reads none and none were left.** -/
theorem threadLoop_received_iff (alive : Bool) (p : SerialPort)
    (a : SelectAnswer p.mFile p.readset) (w : CommAnswer) (reads : List (Option UInt8))
    (queue : ℕ → Option UInt8) (t : ReadTask) :
    (Received (t.threadLoop alive p a reads) (ReadTask.received alive p a reads) ↔
      ¬ ReadTask.Reads alive p a ∧ t.len = 0) ∧
    (Received (t.threadLoopWindows alive w queue p) (ReadTask.receivedWindows alive w queue p) ↔
      ¬ ReadTask.ReadsWindows alive w ∧ t.len = 0) := by
  constructor
  · by_cases hr : ReadTask.Reads alive p a
    · rw [ReadTask.threadLoop_of_reads hr, ReadTask.readLoop_eq_storeAll, ReadTask.received,
        if_pos hr]
      exact iff_of_false (ReadTask.not_received_bump fun _ => rfl) fun h => h.1 hr
    · obtain ⟨again, q, hq, _⟩ := ReadTask.threadLoop_of_not_reads hr reads t
      rw [hq, ReadTask.received, if_neg hr, ReadTask.received_nil_iff]
      exact (and_iff_right hr).symm
  · by_cases hr : ReadTask.ReadsWindows alive w
    · rw [ReadTask.threadLoopWindows_of_reads hr, ReadTask.readQueue_eq_storeAll,
        ReadTask.receivedWindows, if_pos hr]
      exact iff_of_false (ReadTask.not_received_bump fun _ => rfl) fun h => h.1 hr
    · obtain ⟨again, hq⟩ := ReadTask.threadLoopWindows_of_not_reads hr queue p t
      rw [hq, ReadTask.receivedWindows, if_neg hr, ReadTask.received_nil_iff]
      exact (and_iff_right hr).symm

/-- On Windows, with one byte in the queue of the device: after the pass that received it `len`
is 2. -/
theorem threadLoop_one_byte :
    ¬ Received
      (ReadTask.threadLoopWindows true ⟨true, true, some 1⟩ (fun _ => some 0x41)
        { SerialPort.create ∅ with mFile := 3 } ⟨Vector.replicate 1024 0, 0⟩)
      (ReadTask.receivedWindows true ⟨true, true, some 1⟩ (fun _ => some 0x41)
        { SerialPort.create ∅ with mFile := 3 }) := by
  intro h
  obtain ⟨r, hr, hlen, _⟩ := h
  obtain rfl := Option.some.inj hr
  exact absurd hlen (by decide)

/-- **Nothing is written behind the buffer exactly when at most 1024 bytes are received.** -/
theorem threadLoop_ne_none_iff (alive : Bool) (p : SerialPort)
    (a : SelectAnswer p.mFile p.readset) (w : CommAnswer) (reads : List (Option UInt8))
    (queue : ℕ → Option UInt8) (t : ReadTask) :
    (t.threadLoop alive p a reads ≠ none ↔
      (ReadTask.received alive p a reads).length ≤ 1024) ∧
    (t.threadLoopWindows alive w queue p ≠ none ↔
      (ReadTask.receivedWindows alive w queue p).length ≤ 1024) := by
  constructor
  · by_cases hr : ReadTask.Reads alive p a
    · rw [ReadTask.threadLoop_of_reads hr, ReadTask.readLoop_eq_storeAll, ReadTask.received,
        if_pos hr, ← ReadTask.storeAll_reset_ne_none_iff _ t, ne_eq, Option.map_eq_none_iff]
    · obtain ⟨again, q, hq, _⟩ := ReadTask.threadLoop_of_not_reads hr reads t
      simp [hq, ReadTask.received, hr]
  · by_cases hr : ReadTask.ReadsWindows alive w
    · rw [ReadTask.threadLoopWindows_of_reads hr, ReadTask.readQueue_eq_storeAll,
        ReadTask.receivedWindows, if_pos hr, ← ReadTask.storeAll_reset_ne_none_iff _ t, ne_eq,
        Option.map_eq_none_iff]
    · obtain ⟨again, hq⟩ := ReadTask.threadLoopWindows_of_not_reads hr queue p t
      simp [hq, ReadTask.receivedWindows, hr]

end VModule

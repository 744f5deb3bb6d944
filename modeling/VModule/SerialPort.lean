/-
**`CSerialPort` and its read task, `hardware/serial/SerialPort.cpp`.**

`InitPort` opens a device, sets it up through a `termios` and starts the read task, which reads the
line byte by byte into a buffer of 1024.  What the system calls answer is part of the input.  The
POSIX version is modelled whole; of the Windows version, the pass of the read task.

Main definitions:

* `VModule.Termios` — the settings of a line, with the flags of Linux;
* `VModule.SerialPort`, `VModule.ReadTask` — a port, and the task that reads it;
* `VModule.SerialPort.openPort`, `VModule.SerialPort.initPort`, `VModule.readByte` — the functions
  of `CSerialPort`;
* `VModule.ReadTask.threadLoop`, `VModule.ReadTask.threadLoopWindows` — one pass of the read task;
* `VModule.serialPort` — the machine whose steps are the calls of `InitPort` and the passes.
-/

import Mathlib.Data.Finset.Insert
import VModule.Descriptors
import VModule.Errors
import VModule.FlagWord
import VModule.Machine

set_option relaxedAutoImplicit false
set_option autoImplicit false

namespace VModule

/-! ### The settings of a line -/

/-- `tcflag_t`. -/
abbrev Flags := BitVec 32

/-! #### `c_cflag` -/

def CSIZE : Flags := 0o60
def CS5 : Flags := 0o0
def CS6 : Flags := 0o20
def CS7 : Flags := 0o40
def CS8 : Flags := 0o60
def CSTOPB : Flags := 0o100
def CREAD : Flags := 0o200
def PARENB : Flags := 0o400
def PARODD : Flags := 0o1000
def CLOCAL : Flags := 0o4000
def CRTSCTS : Flags := 0o20000000000

/-! #### `c_iflag` and `c_oflag` -/

def IGNPAR : Flags := 0o4
def INPCK : Flags := 0o20
def IXON : Flags := 0o2000
def IXANY : Flags := 0o4000
def IXOFF : Flags := 0o10000
def OPOST : Flags := 0o1

/-- A `termios`. -/
structure Termios where
  cIflag : Flags
  cOflag : Flags
  cCflag : Flags
  cLflag : Flags
  cCc : Vector UInt8 32
  cIspeed : BitVec 32
  cOspeed : BitVec 32

namespace Termios

/-- What `memset(&tio, 0, sizeof(tio))` leaves. -/
def zero : Termios := ⟨0, 0, 0, 0, Vector.replicate 32 0, 0, 0⟩

/-- The control modes that do not depend on the arguments. -/
def controlModes (tio : Termios) : Termios :=
  let c := FlagWord.set tio.cCflag CLOCAL
  let c := FlagWord.set c CREAD
  let c := FlagWord.clear c CRTSCTS
  -- these are flags of `c_iflag`
  let c := FlagWord.set c (IXON ||| IXOFF ||| IXANY)
  { tio with cCflag := FlagWord.clear c CSIZE }

/-- The bits of `CSIZE` for a number of data bits. -/
def dataBits? (databits : Int) : Option Flags :=
  if databits = 5 then some CS5
  else if databits = 6 then some CS6
  else if databits = 7 then some CS7
  else if databits = 8 then some CS8
  else none

/-- `switch (databits)`: another number only writes a line to the log. -/
def setDataBits (tio : Termios) (databits : Int) : Termios :=
  match dataBits? databits with
  | some cs => { tio with cCflag := FlagWord.set tio.cCflag cs }
  | none => tio

/-- `switch (parity)`. -/
def setParity (tio : Termios) (parity : Char) : Option Termios :=
  if parity = 'n' ∨ parity = 'N' then
    some { tio with
      cCflag := FlagWord.clear tio.cCflag PARENB
      cIflag := FlagWord.clear tio.cIflag INPCK }
  else if parity = 'o' ∨ parity = 'O' then
    some { tio with
      cCflag := FlagWord.set tio.cCflag (PARODD ||| PARENB)
      cIflag := FlagWord.set tio.cIflag INPCK }
  else if parity = 'e' ∨ parity = 'E' then
    some { tio with
      cCflag := FlagWord.clear (FlagWord.set tio.cCflag PARENB) PARODD
      cIflag := FlagWord.set tio.cIflag INPCK }
  else if parity = 's' ∨ parity = 'S' then
    some { tio with cCflag := FlagWord.clear (FlagWord.clear tio.cCflag PARENB) CSTOPB }
  else none

/-- `switch (stopsbits)`. -/
def setStopBits (tio : Termios) (stopsbits : Int) : Option Termios :=
  if stopsbits = 1 then some { tio with cCflag := FlagWord.clear tio.cCflag CSTOPB }
  else if stopsbits = 2 then some { tio with cCflag := FlagWord.set tio.cCflag CSTOPB }
  else none

/-- The modes for raw data; `VTIME` is 5 and `VMIN` is 6. -/
def rawModes (tio : Termios) : Termios :=
  { tio with
    cOflag := FlagWord.clear tio.cOflag OPOST
    cIflag := IGNPAR
    cLflag := 0
    cCc := (tio.cCc.set 5 1).set 6 1 }

end Termios

/-! ### The port and its read task -/

/-- The read task: `buffer` and `len`. -/
structure ReadTask where
  buffer : Vector UInt8 1024
  len : ℕ

/-- A port, with the descriptors that the process has open, the settings last handed to
`tcsetattr` and the log. -/
structure SerialPort where
  mFile : Int
  mReadTask : Option ReadTask
  readset : Finset ℕ
  maxFd : Int
  /-- `tv_sec` and `tv_usec`. -/
  timeOut : ℕ × ℕ
  openFds : Finset ℕ
  handed : Option Termios
  log : List String

/-- `INVALID_HANDLE_VALUE`. -/
def invalidHandle : Int := -1

/-- A call of `InitPort`: the arguments, and what the system calls answer.  `dwCommEvents` is not
read on POSIX. -/
structure InitCall where
  name : String
  baud : Int
  parity : Char
  databits : Int
  stopsbits : Int
  opens : Bool
  tcgetattr : Option Termios
  tcsetattr : Bool

namespace SerialPort

def print (p : SerialPort) (line : String) : SerialPort := { p with log := p.log ++ [line] }

/-- The line is printed unless all is well. -/
def check (p : SerialPort) (ok : Bool) (line : String) : SerialPort :=
  if ok then p else p.print line

@[simp] theorem print_mFile (p : SerialPort) (l : String) : (p.print l).mFile = p.mFile := rfl

@[simp] theorem print_mReadTask (p : SerialPort) (l : String) :
    (p.print l).mReadTask = p.mReadTask := rfl

@[simp] theorem print_openFds (p : SerialPort) (l : String) :
    (p.print l).openFds = p.openFds := rfl

/-- A line more in the log, or none, is all that `check` does. -/
theorem check_spec (p : SerialPort) (ok : Bool) (line : String) :
    (p.check ok line).mFile = p.mFile ∧ (p.check ok line).mReadTask = p.mReadTask ∧
      (p.check ok line).openFds = p.openFds := by
  cases ok <;> simp [check]

/-- `CSerialPort::openPort`; the results of the two calls of `fcntl` are not looked at. -/
def openPort (N : FdNumbering) (c : InitCall) (p : SerialPort) : Status × SerialPort :=
  let p := p.print ("device name:" ++ c.name)
  if c.opens then
    (.noError, { p with
      mFile := N.pick p.openFds
      openFds := insert (N.pick p.openFds) p.openFds })
  else
    (.invalidOperation, { p with mFile := invalidHandle }.print "open Serial client Error..")

/-- `CSerialPort::ClosePort`. -/
def closePort (p : SerialPort) : SerialPort :=
  if p.mFile = invalidHandle then p
  else { p with openFds := p.openFds.erase p.mFile.toNat, mFile := invalidHandle }

/-- The constructor of `CSerialPort`, in a process that has `fds` open. -/
def create (fds : Finset ℕ) : SerialPort :=
  ⟨invalidHandle, none, ∅, 0, (0, 0), fds, none, []⟩

/-- The end of `InitPort`, after `tcsetattr` has succeeded. -/
def startReading (p : SerialPort) : SerialPort :=
  { p with
    readset := if 0 ≤ p.mFile then {p.mFile.toNat} else ∅
    maxFd := p.mFile + 1
    timeOut := (10, 500000)
    mReadTask := p.mReadTask <|> some ⟨Vector.replicate 1024 0, 0⟩ }

/-- `InitPort` from `tcgetattr` on. -/
def setUp (cfsetispeed : Termios → Int → Termios) (c : InitCall) (p : SerialPort) :
    Status × SerialPort :=
  let p := p.check c.tcgetattr.isSome "get termios Error"
  let tio := (cfsetispeed (c.tcgetattr.getD .zero) c.baud).controlModes
  let p := p.check (Termios.dataBits? c.databits).isSome "Unsupported data size/n"
  match (tio.setDataBits c.databits).setParity c.parity with
  | none => (.invalidOperation, p.print "Unsupported parity/n")
  | some tio =>
      match tio.setStopBits c.stopsbits with
      | none => (.invalidOperation, p.print "Unsupported stop bits/n")
      | some tio =>
          let p := { p with handed := some tio.rawModes }
          if c.tcsetattr then (.noError, p.startReading)
          else (.invalidOperation, p.print "com set error!/n")

/-- `CSerialPort::InitPort`. -/
def initPort (N : FdNumbering) (cfsetispeed : Termios → Int → Termios) (c : InitCall)
    (p : SerialPort) : Status × SerialPort :=
  if p.mFile ≠ invalidHandle then
    (.invalidOperation, p.print "device has init ..")
  else
    match openPort N c p with
    | (.noError, p) => p.setUp cfsetispeed c
    | (_, p) => (.invalidOperation, p.print "Open Serial Error")

end SerialPort

/-! ### Reading -/

/-- `CSerialPort::ReadByte`, given what `read` (or `ReadFile`) stores, if it stores anything. -/
def readByte (mFile : Int) (read : Option UInt8) : Except Status UInt8 :=
  if mFile = invalidHandle then .error .invalidOperation
  else
    match read with
    | none => .error .invalidOperation
    | some byte => .ok byte

/-- What `select(nfds, &set, 0, 0, NULL)` answers: its result, `errno`, and the set that it leaves.
When it fails it leaves the set as it was; otherwise its result is the number of descriptors below
`nfds` that it leaves in the set.  Those from `nfds` on are not looked at, and may stay. -/
structure SelectAnswer (nfds : Int) (set : Finset ℕ) where
  result : Int
  errno : ℕ
  readset : Finset ℕ
  failed : result = -1 → readset = set
  answered : result ≠ -1 →
    readset ⊆ set ∧ result = (readset.filter fun fd : ℕ => (fd : Int) < nfds).card

def eINTR : ℕ := 4

/-- What the Windows version is answered: `WaitCommEvent`, whether `EV_RXCHAR` is set, and
`cbInQue` unless `ClearCommError` fails. -/
structure CommAnswer where
  waits : Bool
  rxchar : Bool
  cbInQue : Option (BitVec 32)

/-- `CSerialPort::GetTotalBytes`. -/
def getTotalBytes (a : CommAnswer) : ℕ := (a.cbInQue.getD 0).toNat

/-- What a pass of the read task leaves: its result, the port and the task. -/
structure PassEnd where
  again : Bool
  port : SerialPort
  task : ReadTask

namespace ReadTask

/-- A byte is written to `buffer[len]`, and `len` goes up; there is no result where `buffer` has
no such element. -/
def store (t : ReadTask) (byte : UInt8) : Option ReadTask :=
  if h : t.len < 1024 then some ⟨t.buffer.set t.len byte, t.len + 1⟩ else none

/-- `len = 0; memset(buffer, 0, 1024)`. -/
def reset (_ : ReadTask) : ReadTask := ⟨Vector.replicate 1024 0, 0⟩

/-- The `len++` after the loop. -/
def bump (t : ReadTask) : ReadTask := { t with len := t.len + 1 }

/-- The loop of the POSIX version over what the calls of `read` store; after the last one `read`
has nothing to store. -/
def readLoop (mFile : Int) : List (Option UInt8) → ReadTask → Option ReadTask
  | [], t => some t
  | r :: reads, t =>
      match readByte mFile r with
      | .ok byte => (t.store byte).bind (readLoop mFile reads)
      | .error _ => some t

/-- The loop of the Windows version: `BytesInQue` more steps, the next of which is number `i`. -/
def readQueue (mFile : Int) (reads : ℕ → Option UInt8) : ℕ → ℕ → ReadTask → Option ReadTask
  | 0, _, t => some t
  | bytesInQue + 1, i, t =>
      match readByte mFile (reads i) with
      | .ok byte => (t.store byte).bind (readQueue mFile reads bytesInQue (i + 1))
      | .error _ => readQueue mFile reads bytesInQue (i + 1) t

/-- `CSerialPortReadTask::threadLoop` on POSIX; `alive` says whether `mClient.promote()` finds the
port.  What is handed to `select` as the number of descriptors is `m_file`. -/
def threadLoop (alive : Bool) (p : SerialPort) (a : SelectAnswer p.mFile p.readset)
    (reads : List (Option UInt8)) (t : ReadTask) : Option PassEnd :=
  if alive = false ∨ p.mFile < 0 then
    some ⟨false, p, t⟩
  else
    let p := { p with readset := a.readset }
    if a.result = -1 ∧ a.errno = eINTR then some ⟨true, p, t⟩
    else if a.result = 0 then some ⟨true, p, t⟩
    else if 0 ≤ p.mFile ∧ p.mFile.toNat ∈ p.readset then
      (readLoop p.mFile reads t.reset).map fun t => ⟨true, p, t.bump⟩
    else some ⟨true, p, t⟩

/-- `CSerialPortReadTask::threadLoop` on Windows. -/
def threadLoopWindows (alive : Bool) (a : CommAnswer) (reads : ℕ → Option UInt8) (p : SerialPort)
    (t : ReadTask) : Option PassEnd :=
  if alive = false then some ⟨false, p, t⟩
  else if a.waits ∧ a.rxchar then
    let bytesInQue := getTotalBytes a
    if bytesInQue = 0 then some ⟨true, p, t⟩
    else (readQueue p.mFile reads bytesInQue 0 t.reset).map fun t => ⟨true, p, t.bump⟩
  else some ⟨true, p, t⟩

end ReadTask

/-! ### The life of a port -/

/-- What happens to a port: `InitPort` is called, or the read task makes a pass. -/
inductive PortAction where
  | init (c : InitCall)
  | pass (nfds : Int) (set : Finset ℕ) (a : SelectAnswer nfds set) (reads : List (Option UInt8))

/-- One step of a port on POSIX. -/
inductive SerialPort.Step (N : FdNumbering) (cfsetispeed : Termios → Int → Termios) :
    SerialPort → PortAction → SerialPort → Prop
  | init (p : SerialPort) (c : InitCall) :
      Step N cfsetispeed p (.init c) (p.initPort N cfsetispeed c).2
  | pass {p : SerialPort} {t : ReadTask} {a : SelectAnswer p.mFile p.readset}
      {reads : List (Option UInt8)} {e : PassEnd} :
      p.mReadTask = some t → t.threadLoop true p a reads = some e →
      Step N cfsetispeed p (.pass p.mFile p.readset a reads)
        { e.port with mReadTask := some e.task }

/-- A port from its constructor on. -/
def serialPort (N : FdNumbering) (cfsetispeed : Termios → Int → Termios) :
    Machine SerialPort PortAction where
  init p := ∃ fds, p = SerialPort.create fds
  step := SerialPort.Step N cfsetispeed

end VModule

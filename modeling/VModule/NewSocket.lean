/-
**`CSocket::Socket` and `CSocket::NewSocket` of `socket/Socket.cpp`.**

`getaddrinfo` returns a list of addresses, and the loop of `NewSocket` makes a socket for every one
of them.  What the system calls answer for an entry is part of the input here, so that a statement
about every list is a statement about every pattern of outcomes.

Main definitions:

* `VModule.AddrInfo`, `VModule.Outcomes` — an address, and what the system calls answer for it;
* `VModule.Process` — the open descriptors, the address lists not yet released, the log;
* `VModule.CSocket.socket`, `VModule.CSocket.newSocketLoop`, `VModule.CSocket.newSocket` — the
  functions;
* `VModule.CSocket.Passes` — what the loop does to `sfd`, to the descriptors and to the list;
* `VModule.NewSocketMeets` — what a call of `NewSocket` owes its caller.

Main results:

* `VModule.CSocket.newSocketLoop_passes` — every run of the loop is a pass over the list;
* `VModule.CSocket.Passes.last` — the last entry alone decides what is returned;
* `VModule.newSocket_meets_iff` — the call does what it owes if and only if no entry runs out of
  descriptors, only the last entry yields a socket, and the last entry is not refused
  `IPV6_V6ONLY`.
-/

import VModule.Descriptors

set_option relaxedAutoImplicit false
set_option autoImplicit false

namespace VModule

/-! ### What the call reads -/

/-- `socket_protocol`. -/
inductive SocketProtocol where
  | localSocket
  | tcpSocket
  | udpSocket
  deriving DecidableEq

/-- An address family, as far as `NewSocket` tells them apart. -/
inductive Family where
  | inet
  | inet6
  | other
  deriving DecidableEq

/-- An `addrinfo`: `ai_family`, and the family in the address it points to. -/
structure AddrInfo where
  aiFamily : Family
  saFamily : Family

/-- A value of `errno`. -/
abbrev Errno := ℕ

/-- No more descriptors for this process. -/
def eMFILE : Errno := 24

/-- What the system calls answer for one entry of the list.  A call that may set `errno` answers
with what is in `errno` when `Socket` returns, or with `none` where it succeeds. -/
structure Outcomes where
  socket : Option Errno
  getfl : Option Errno
  setfl : Option Errno
  v6only : Bool
  keepalive : Bool
  linger : Bool
  nodelay : Bool
  /-- The port that `getsockname` answers with. -/
  sockname : Option ℕ

/-- What `getaddrinfo` answers when it fails. -/
inductive LookupError where
  | system
  | other (text : String)

/-! ### What the call changes -/

/-- The process, as far as the call changes it. -/
structure Process where
  openFds : Finset ℕ
  /-- The address lists that no `freeaddrinfo` has released. -/
  addrLists : ℕ
  /-- What has been printed; of a `perror` it is the argument. -/
  log : List String

namespace Process

def print (p : Process) (line : String) : Process := { p with log := p.log ++ [line] }

/-- `CSocket::sError`. -/
def sError (p : Process) (s : String) : Process := p.print s

def close (p : Process) (fd : ℕ) : Process := { p with openFds := p.openFds.erase fd }

def freeaddrinfo (p : Process) : Process := { p with addrLists := p.addrLists - 1 }

/-- A successful `socket`. -/
def create (p : Process) (N : FdNumbering) : ℕ × Process :=
  (N.pick p.openFds, { p with openFds := insert (N.pick p.openFds) p.openFds })

@[simp] theorem print_openFds (p : Process) (l : String) : (p.print l).openFds = p.openFds := rfl

@[simp] theorem print_addrLists (p : Process) (l : String) :
    (p.print l).addrLists = p.addrLists := rfl

@[simp] theorem sError_openFds (p : Process) (s : String) : (p.sError s).openFds = p.openFds := rfl

@[simp] theorem sError_addrLists (p : Process) (s : String) :
    (p.sError s).addrLists = p.addrLists := rfl

@[simp] theorem close_openFds (p : Process) (fd : ℕ) :
    (p.close fd).openFds = p.openFds.erase fd := rfl

@[simp] theorem close_addrLists (p : Process) (fd : ℕ) :
    (p.close fd).addrLists = p.addrLists := rfl

@[simp] theorem freeaddrinfo_openFds (p : Process) : p.freeaddrinfo.openFds = p.openFds := rfl

@[simp] theorem freeaddrinfo_addrLists (p : Process) :
    p.freeaddrinfo.addrLists = p.addrLists - 1 := rfl

/-- The line is printed unless the call succeeded. -/
def check (p : Process) (ok : Bool) (s : String) : Process := if ok then p else p.sError s

@[simp] theorem check_openFds (p : Process) (ok : Bool) (s : String) :
    (p.check ok s).openFds = p.openFds := by
  cases ok <;> rfl

@[simp] theorem check_addrLists (p : Process) (ok : Bool) (s : String) :
    (p.check ok s).addrLists = p.addrLists := by
  cases ok <;> rfl

end Process

namespace CSocket

/-! ### The functions -/

/-- `CSocket::Socket`; an `.error` is the result -1 together with `errno`. -/
def socket (N : FdNumbering) (blocking : Bool) (o : Outcomes) (p : Process) :
    Except Errno ℕ × Process :=
  match o.socket with
  | some errno => (.error errno, p)
  | none =>
      let sfd := (p.create N).1
      let p := (p.create N).2
      if blocking then
        (.ok sfd, p)
      else
        match o.getfl <|> o.setfl with
        | some errno => (.error errno, (p.print "setting O_NONBLOCK").close sfd)
        | none => (.ok sfd, p)

/-- The options of a TCP socket, none of which stops the loop. -/
def setTcpOptions (transport : SocketProtocol) (o : Outcomes) (p : Process) : Process :=
  if transport = .tcpSocket then
    ((p.check o.keepalive "setsockopt").check o.linger "setsockopt").check o.nodelay "setsockopt"
  else p

/-- The name of the protocol in the log. -/
def protocolName (transport : SocketProtocol) : String :=
  if transport = .udpSocket then "UDP" else "TCP"

/-- The line about the port of the new socket. -/
def printPort (transport : SocketProtocol) (next : AddrInfo) (o : Outcomes) (p : Process) :
    Process :=
  match next.saFamily, o.sockname with
  | .inet, some port => p.print (protocolName transport ++ " INET: " ++ toString port ++ "\n")
  | .inet6, some port => p.print (protocolName transport ++ " INET6: " ++ toString port ++ "\n")
  | _, _ => p

/-- The loop of `NewSocket` over the rest of the list, with what is in `sfd`. -/
def newSocketLoop (N : FdNumbering) (transport : SocketProtocol) (blocking : Bool) :
    List (AddrInfo × Outcomes) → Int → Process → Int × Process
  | [], sfd, p => (sfd, p.freeaddrinfo)
  | (next, o) :: ai, _, p =>
      match socket N blocking o p with
      | (.error errno, p) =>
          -- out of descriptors: the list is not released on this way out
          if errno = eMFILE then (-1, p.sError "server_socket")
          else newSocketLoop N transport blocking ai (-1) p
      | (.ok sfd, p) =>
          if next.aiFamily = .inet6 ∧ o.v6only = false then
            -- `sfd` keeps the number of the descriptor that is closed here
            newSocketLoop N transport blocking ai sfd ((p.sError "setsockopt").close sfd)
          else
            newSocketLoop N transport blocking ai sfd
              (printPort transport next o (setTcpOptions transport o p))

/-- `CSocket::NewSocket`.  `getaddrinfo` gets the interface, the text of the port and whether the
socket is for datagrams; `sfd` is what the uninitialised variable holds. -/
def newSocket (N : FdNumbering)
    (getaddrinfo : Option String → String → Bool → Except LookupError (List (AddrInfo × Outcomes)))
    (interface : Option String) (port : Int) (transport : SocketProtocol) (blocking : Bool)
    (sfd : Int) (p : Process) : Int × Process :=
  let port := if port = -1 then 0 else port
  match getaddrinfo interface (toString port) (transport = .udpSocket) with
  | .error .system => (1, p.sError "getaddrinfo()")
  | .error (.other text) => (1, p.print ("getaddrinfo(): " ++ text ++ "\n"))
  | .ok ai =>
      newSocketLoop N transport blocking ai sfd { p with addrLists := p.addrLists + 1 }

@[simp] theorem setTcpOptions_openFds (t : SocketProtocol) (o : Outcomes) (p : Process) :
    (setTcpOptions t o p).openFds = p.openFds := by
  unfold setTcpOptions
  split <;> simp

@[simp] theorem setTcpOptions_addrLists (t : SocketProtocol) (o : Outcomes) (p : Process) :
    (setTcpOptions t o p).addrLists = p.addrLists := by
  unfold setTcpOptions
  split <;> simp

@[simp] theorem printPort_openFds (t : SocketProtocol) (next : AddrInfo) (o : Outcomes)
    (p : Process) : (printPort t next o p).openFds = p.openFds := by
  unfold printPort
  split <;> simp

@[simp] theorem printPort_addrLists (t : SocketProtocol) (next : AddrInfo) (o : Outcomes)
    (p : Process) : (printPort t next o p).addrLists = p.addrLists := by
  unfold printPort
  split <;> simp

/-! ### The entries of the list -/

end CSocket

namespace Outcomes

/-- What is in `errno` when `Socket` fails on the entry. -/
def failure (blocking : Bool) (o : Outcomes) : Option Errno :=
  match o.socket with
  | some errno => some errno
  | none => if blocking then none else o.getfl <|> o.setfl

end Outcomes

/-- The socket of the entry may not be restricted to IPv6. -/
def Refused (e : AddrInfo × Outcomes) : Prop := e.1.aiFamily = .inet6 ∧ e.2.v6only = false

/-- The entry yields a socket that can be used. -/
def Usable (blocking : Bool) (e : AddrInfo × Outcomes) : Prop :=
  e.2.failure blocking = none ∧ ¬ Refused e

instance (e : AddrInfo × Outcomes) : Decidable (Refused e) := inferInstanceAs (Decidable (_ ∧ _))

instance (blocking : Bool) (e : AddrInfo × Outcomes) : Decidable (Usable blocking e) :=
  inferInstanceAs (Decidable (_ ∧ ¬ _))

namespace CSocket

/-- What the loop does to `sfd`, to the open descriptors and to the list.  `Passes N blocking ai
sfd fds r fds' freed`: over the entries `ai`, begun with `sfd` and with `fds` open, the loop
returns `r` and leaves `fds'` open, and it has released the list if `freed`. -/
inductive Passes (N : FdNumbering) (blocking : Bool) :
    List (AddrInfo × Outcomes) → Int → Finset ℕ → Int → Finset ℕ → Bool → Prop
  | nil {sfd : Int} {fds : Finset ℕ} : Passes N blocking [] sfd fds sfd fds true
  | exhausted {e : AddrInfo × Outcomes} {ai : List (AddrInfo × Outcomes)} {sfd : Int}
      {fds : Finset ℕ} :
      e.2.failure blocking = some eMFILE → Passes N blocking (e :: ai) sfd fds (-1) fds false
  | failed {e : AddrInfo × Outcomes} {ai : List (AddrInfo × Outcomes)} {sfd r : Int}
      {fds fds' : Finset ℕ} {freed : Bool} {errno : Errno} :
      e.2.failure blocking = some errno → errno ≠ eMFILE →
      Passes N blocking ai (-1) fds r fds' freed → Passes N blocking (e :: ai) sfd fds r fds' freed
  | refused {e : AddrInfo × Outcomes} {ai : List (AddrInfo × Outcomes)} {sfd r : Int}
      {fds fds' : Finset ℕ} {freed : Bool} :
      e.2.failure blocking = none → Refused e →
      Passes N blocking ai (N.pick fds) fds r fds' freed →
      Passes N blocking (e :: ai) sfd fds r fds' freed
  | usable {e : AddrInfo × Outcomes} {ai : List (AddrInfo × Outcomes)} {sfd r : Int}
      {fds fds' : Finset ℕ} {freed : Bool} :
      Usable blocking e →
      Passes N blocking ai (N.pick fds) (insert (N.pick fds) fds) r fds' freed →
      Passes N blocking (e :: ai) sfd fds r fds' freed

variable {N : FdNumbering} {blocking : Bool}

theorem socket_of_failure {o : Outcomes} {errno : Errno} (h : o.failure blocking = some errno)
    (p : Process) : ∃ p', socket N blocking o p = (.error errno, p') ∧
      p'.openFds = p.openFds ∧ p'.addrLists = p.addrLists := by
  unfold Outcomes.failure at h
  unfold socket
  cases ho : o.socket with
  | some e =>
      rw [ho] at h
      obtain rfl : e = errno := by simpa using h
      exact ⟨p, rfl, rfl, rfl⟩
  | none =>
      rw [ho] at h
      cases hb : blocking with
      | true => simp [hb] at h
      | false =>
          have hfl : (o.getfl <|> o.setfl) = some errno := by simpa [hb] using h
          refine ⟨((p.create N).2.print "setting O_NONBLOCK").close (p.create N).1, ?_, ?_, rfl⟩
          · simp [hfl]
          · exact Finset.erase_insert (N.pick_notMem _)

theorem socket_of_none {o : Outcomes} (h : o.failure blocking = none) (p : Process) :
    socket N blocking o p = (.ok (p.create N).1, (p.create N).2) := by
  unfold Outcomes.failure at h
  unfold socket
  cases ho : o.socket with
  | some e => simp [ho] at h
  | none =>
      cases hb : blocking with
      | true => rfl
      | false =>
          have hfl : (o.getfl <|> o.setfl) = none := by simpa [ho, hb] using h
          simp [hfl]

/-- **The loop passes over the list.** -/
theorem newSocketLoop_passes (N : FdNumbering) (transport : SocketProtocol) (blocking : Bool)
    (ai : List (AddrInfo × Outcomes)) (sfd : Int) (p : Process) :
    ∃ freed, Passes N blocking ai sfd p.openFds (newSocketLoop N transport blocking ai sfd p).1
        (newSocketLoop N transport blocking ai sfd p).2.openFds freed ∧
      (newSocketLoop N transport blocking ai sfd p).2.addrLists =
        if freed then p.addrLists - 1 else p.addrLists := by
  induction ai generalizing sfd p with
  | nil => exact ⟨true, .nil, rfl⟩
  | cons e ai ih =>
      obtain ⟨next, o⟩ := e
      cases hf : o.failure blocking with
      | some errno =>
          obtain ⟨p', hs, hfds, hlists⟩ := socket_of_failure (N := N) hf p
          by_cases he : errno = eMFILE
          · subst he
            refine ⟨false, ?_, ?_⟩
            · simp only [newSocketLoop, hs, if_pos, Process.sError_openFds, hfds]
              exact .exhausted hf
            · simpa [newSocketLoop, hs] using hlists
          · obtain ⟨freed, hp, hl⟩ := ih (-1) p'
            refine ⟨freed, ?_, ?_⟩
            · simp only [newSocketLoop, hs, if_neg he]
              exact .failed hf he (hfds ▸ hp)
            · simp only [newSocketLoop, hs, if_neg he, hl, hlists]
      | none =>
          have hs := socket_of_none (N := N) hf p
          by_cases hr : next.aiFamily = .inet6 ∧ o.v6only = false
          · obtain ⟨freed, hp, hl⟩ :=
              ih (p.create N).1 (((p.create N).2.sError "setsockopt").close (p.create N).1)
            have hfds : (((p.create N).2.sError "setsockopt").close (p.create N).1).openFds =
                p.openFds := Finset.erase_insert (N.pick_notMem _)
            refine ⟨freed, ?_, ?_⟩
            · simp only [newSocketLoop, hs, if_pos hr]
              rw [hfds] at hp
              exact .refused hf hr hp
            · simp only [newSocketLoop, hs, if_pos hr, hl]
              rfl
          · obtain ⟨freed, hp, hl⟩ := ih (p.create N).1
              (printPort transport next o (setTcpOptions transport o (p.create N).2))
            refine ⟨freed, ?_, ?_⟩
            · simp only [newSocketLoop, hs, if_neg hr]
              rw [printPort_openFds, setTcpOptions_openFds] at hp
              exact .usable ⟨hf, hr⟩ hp
            · simp only [newSocketLoop, hs, if_neg hr, hl, printPort_addrLists,
                setTcpOptions_addrLists]
              rfl

namespace Passes

variable {ai : List (AddrInfo × Outcomes)} {sfd r : Int} {fds fds' : Finset ℕ} {freed : Bool}

/-- A descriptor open before the loop is open after it. -/
theorem subset (h : Passes N blocking ai sfd fds r fds' freed) : fds ⊆ fds' := by
  induction h with
  | nil => exact Finset.Subset.refl _
  | exhausted _ => exact Finset.Subset.refl _
  | failed _ _ _ ih => exact ih
  | refused _ _ _ ih => exact ih
  | usable _ _ ih => exact (Finset.subset_insert _ _).trans ih

/-- The list is released unless an entry runs out of descriptors. -/
theorem freed_iff (h : Passes N blocking ai sfd fds r fds' freed) :
    freed = true ↔ ∀ e ∈ ai, e.2.failure blocking ≠ some eMFILE := by
  induction h with
  | nil => simp
  | exhausted h => simp [h]
  | failed h hne _ ih => simp [h, hne, ih]
  | refused h _ _ ih => simp [h, ih]
  | usable h _ ih => simp [h.1, ih]

/-- A loop over some entries does not return a descriptor that was open before it. -/
theorem ne_of_mem (h : Passes N blocking ai sfd fds r fds' freed) {fd : ℕ} (hfd : fd ∈ fds)
    (hsfd : ai = [] → sfd ≠ fd) : r ≠ fd := by
  induction h with
  | nil => exact hsfd rfl
  | exhausted _ => exact fun h => absurd h (by omega)
  | failed _ _ _ ih => exact ih hfd fun _ h => absurd h (by omega)
  | refused _ _ _ ih => exact ih hfd fun _ h => N.pick_ne hfd (by exact_mod_cast h.symm)
  | usable _ _ ih =>
      exact ih (Finset.mem_insert_of_mem hfd) fun _ h => N.pick_ne hfd (by exact_mod_cast h.symm)

/-- When the first entry is not usable, one that is and that has others behind it comes later. -/
theorem exists_dropLast {e : AddrInfo × Outcomes} (he : ¬ Usable blocking e)
    (hu : ∃ x ∈ (e :: ai).dropLast, Usable blocking x) : ∃ x ∈ ai.dropLast, Usable blocking x := by
  obtain ⟨x, hx, hux⟩ := hu
  rcases ai with _ | ⟨y, ai⟩
  · simp at hx
  · rcases List.mem_cons.1 hx with rfl | hx
    · exact absurd hux he
    · exact ⟨x, hx, hux⟩

/-- A usable entry with others behind it leaves a descriptor open that is not returned. -/
theorem leak (h : Passes N blocking ai sfd fds r fds' true)
    (hu : ∃ e ∈ ai.dropLast, Usable blocking e) : ∃ fd ∈ fds', fd ∉ fds ∧ r ≠ fd := by
  generalize hfreed : true = freed at h
  induction h with
  | nil => simp at hu
  | exhausted _ => simp at hfreed
  | failed hf _ _ ih => exact ih (exists_dropLast (fun hu => by simp [hu.1] at hf) hu) hfreed
  | refused _ hr _ ih => exact ih (exists_dropLast (fun hu => hu.2 hr) hu) hfreed
  | @usable e ai _ _ fds _ _ _ h ih =>
      rcases ai with _ | ⟨y, ai⟩
      · simp at hu
      · refine ⟨N.pick fds, h.subset (Finset.mem_insert_self _ _), N.pick_notMem fds, ?_⟩
        exact h.ne_of_mem (Finset.mem_insert_self _ _) (by simp)

theorem mem_dropLast_cons {e x : AddrInfo × Outcomes} (hx : x ∈ ai.dropLast) :
    x ∈ (e :: ai).dropLast := by
  rcases ai with _ | ⟨y, ai⟩
  · simp at hx
  · exact List.mem_cons_of_mem _ hx

/-- Without such an entry nothing is left open but what is returned. -/
theorem no_leak (h : Passes N blocking ai sfd fds r fds' freed)
    (hu : ∀ e ∈ ai.dropLast, ¬ Usable blocking e) : ∀ fd ∈ fds', fd ∉ fds → r = fd := by
  induction h with
  | nil => exact fun fd hfd hn => absurd hfd hn
  | exhausted _ => exact fun fd hfd hn => absurd hfd hn
  | failed _ _ _ ih => exact ih fun x hx => hu x (mem_dropLast_cons hx)
  | refused _ _ _ ih => exact ih fun x hx => hu x (mem_dropLast_cons hx)
  | @usable e ai _ _ fds _ _ hue h _ =>
      rcases ai with _ | ⟨y, ai⟩
      · cases h with
        | nil =>
            intro fd hfd hn
            rcases Finset.mem_insert.1 hfd with rfl | hfd
            · rfl
            · exact absurd hfd hn
      · exact absurd hue (hu e List.mem_cons_self)

/-- Nothing is left open where no entry is usable. -/
theorem eq_of_unusable (h : Passes N blocking ai sfd fds r fds' freed)
    (hu : ∀ e ∈ ai, ¬ Usable blocking e) : fds' = fds := by
  induction h with
  | nil => rfl
  | exhausted _ => rfl
  | failed _ _ _ ih => exact ih fun x hx => hu x (List.mem_cons_of_mem _ hx)
  | refused _ _ _ ih => exact ih fun x hx => hu x (List.mem_cons_of_mem _ hx)
  | usable hue _ _ => exact absurd hue (hu _ List.mem_cons_self)

/-- Over the empty list `sfd` is returned as it was. -/
theorem eq_of_nil (h : Passes N blocking [] sfd fds r fds' freed) : r = sfd := by
  cases h
  rfl

/-- The result is decided by the last entry. -/
theorem last {init : List (AddrInfo × Outcomes)} {e : AddrInfo × Outcomes}
    (h : Passes N blocking (init ++ [e]) sfd fds r fds' true) :
    ((∃ errno, e.2.failure blocking = some errno) ∧ r = -1) ∨
    (∃ fd : ℕ, e.2.failure blocking = none ∧ Refused e ∧ r = fd ∧ fd ∉ fds') ∨
    (∃ fd : ℕ, Usable blocking e ∧ r = fd ∧ fd ∈ fds' ∧ fd ∉ fds) := by
  induction init generalizing sfd fds with
  | nil =>
      cases h with
      | failed hf _ h => cases h with | nil => exact .inl ⟨⟨_, hf⟩, rfl⟩
      | refused hf hr h =>
          cases h with
          | nil => exact .inr (.inl ⟨_, hf, hr, rfl, N.pick_notMem _⟩)
      | usable hu h =>
          cases h with
          | nil =>
              exact .inr (.inr ⟨_, hu, rfl, Finset.mem_insert_self _ _, N.pick_notMem _⟩)
  | cons x init ih =>
      cases h with
      | failed _ _ h => exact ih h
      | refused _ _ h => exact ih h
      | usable _ h =>
          obtain h | h | ⟨fd, hu, hr, hfd, hn⟩ := ih h
          · exact .inl h
          · exact .inr (.inl h)
          · exact .inr (.inr ⟨fd, hu, hr, hfd, fun hmem => hn (Finset.mem_insert_of_mem hmem)⟩)

end Passes

end CSocket

/-! ### What the call owes -/

/-- **What `NewSocket` owes its caller**: the result is a descriptor that is open and that the call
created if and only if some entry is usable, it is negative otherwise, no other descriptor that the
call created is open, and the list is released. -/
structure NewSocketMeets (blocking : Bool) (ai : List (AddrInfo × Outcomes)) (p : Process)
    (r : Int × Process) : Prop where
  returns : (∃ fd : ℕ, r.1 = fd ∧ fd ∈ r.2.openFds ∧ fd ∉ p.openFds) ↔
    ∃ e ∈ ai, Usable blocking e
  negative : (¬ ∃ e ∈ ai, Usable blocking e) → r.1 < 0
  noOther : ∀ fd ∈ r.2.openFds, fd ∉ p.openFds → r.1 = fd
  released : r.2.addrLists = p.addrLists

/-- No entry runs out of descriptors, none but the last is usable, and the last is not refused
`IPV6_V6ONLY`; on an empty list, what the variable `sfd` happens to hold is negative. -/
structure LastOnly (blocking : Bool) (sfd : Int) (ai : List (AddrInfo × Outcomes)) : Prop where
  nil : ai = [] → sfd < 0
  enough : ∀ e ∈ ai, e.2.failure blocking ≠ some eMFILE
  dropLast : ∀ e ∈ ai.dropLast, ¬ Usable blocking e
  getLast : ∀ e ∈ ai.getLast?, e.2.failure blocking = none → ¬ Refused e

/-- **`NewSocket` does what it owes exactly on the lists whose last entry alone may be usable.** -/
theorem newSocket_meets_iff (N : FdNumbering)
    (getaddrinfo : Option String → String → Bool → Except LookupError (List (AddrInfo × Outcomes)))
    (interface : Option String) (port : Int) (transport : SocketProtocol) (blocking : Bool)
    (sfd : Int) (p : Process) (ai : List (AddrInfo × Outcomes))
    (hai : getaddrinfo interface (toString (if port = -1 then 0 else port))
      (transport = .udpSocket) = .ok ai) :
    NewSocketMeets blocking ai p
        (CSocket.newSocket N getaddrinfo interface port transport blocking sfd p) ↔
      LastOnly blocking sfd ai := by
  obtain ⟨freed, h, hlists⟩ := CSocket.newSocketLoop_passes N transport blocking ai sfd
    { p with addrLists := p.addrLists + 1 }
  have hcall : CSocket.newSocket N getaddrinfo interface port transport blocking sfd p =
      CSocket.newSocketLoop N transport blocking ai sfd
        { p with addrLists := p.addrLists + 1 } := by
    simp only [CSocket.newSocket, hai]
  rw [hcall]
  generalize CSocket.newSocketLoop N transport blocking ai sfd
    { p with addrLists := p.addrLists + 1 } = r at h hlists
  have hfreed : r.2.addrLists = p.addrLists ↔ freed = true := by
    cases freed <;> simp [hlists]
  constructor
  · intro hm
    obtain rfl := hfreed.1 hm.released
    refine ⟨?_, h.freed_iff.1 rfl, ?_, ?_⟩
    · rintro rfl
      exact h.eq_of_nil ▸ hm.negative (by simp)
    · intro e he hu
      obtain ⟨fd, hfd, hn, hr⟩ := h.leak ⟨e, he, hu⟩
      exact hr (hm.noOther fd hfd hn)
    · intro e he hf hr
      obtain ⟨init, rfl⟩ := List.getLast?_eq_some_iff.1 he
      obtain ⟨⟨errno, hs⟩, _⟩ | ⟨fd, _, _, hfd, hn⟩ | ⟨fd, hu, _⟩ := h.last
      · simp [hf] at hs
      · -- the number of a closed descriptor is returned, whether an entry was usable or not
        by_cases hu : ∃ x ∈ init ++ [e], Usable blocking x
        · obtain ⟨fd', hfd', hopen, _⟩ := hm.returns.2 hu
          obtain rfl : fd = fd' := by omega
          exact hn hopen
        · have := hm.negative hu
          omega
      · exact hu.2 hr
  · intro hl
    obtain rfl := h.freed_iff.2 hl.enough
    refine ⟨⟨?_, ?_⟩, ?_, h.no_leak hl.dropLast, hfreed.2 rfl⟩
    · rintro ⟨fd, _, hopen, hn⟩
      by_contra hu
      rw [h.eq_of_unusable fun e he hue => hu ⟨e, he, hue⟩] at hopen
      exact hn hopen
    · rintro ⟨e, he, hu⟩
      obtain rfl | ⟨init, x, rfl⟩ := ai.eq_nil_or_concat'
      · simp at he
      · obtain rfl : e = x := by
          rcases List.mem_append.1 he with he | he
          · exact absurd hu (hl.dropLast e (by simpa using he))
          · simpa using he
        obtain ⟨⟨errno, hs⟩, _⟩ | ⟨_, _, hr, _⟩ | ⟨fd, _, hfd⟩ := h.last
        · simp [hu.1] at hs
        · exact absurd hr hu.2
        · exact ⟨fd, hfd⟩
    · intro hu
      obtain rfl | ⟨init, x, rfl⟩ := ai.eq_nil_or_concat'
      · exact h.eq_of_nil ▸ hl.nil rfl
      · obtain ⟨_, hr⟩ | ⟨_, hf, hr, _⟩ | ⟨_, hux, _⟩ := h.last
        · omega
        · exact absurd hr (hl.getLast x (by simp) hf)
        · exact absurd ⟨x, by simp, hux⟩ hu

/-- Every call succeeds. -/
def Outcomes.allGood : Outcomes where
  socket := none
  getfl := none
  setfl := none
  v6only := true
  keepalive := true
  linger := true
  nodelay := true
  sockname := some 80

/-- The family of the address is not supported. -/
def Outcomes.unsupported : Outcomes := { allGood with socket := some 97 }

/-- An address that yields no socket stands before one that does. -/
theorem newSocket_meets_one :
    NewSocketMeets false [(⟨.inet6, .inet6⟩, .unsupported), (⟨.inet, .inet⟩, .allGood)]
      ⟨{0, 1, 2}, 0, []⟩
      (CSocket.newSocket .lowest
        (fun _ _ _ => .ok [(⟨.inet6, .inet6⟩, .unsupported), (⟨.inet, .inet⟩, .allGood)]) none 80
        .tcpSocket false 0 ⟨{0, 1, 2}, 0, []⟩) ∧
    (CSocket.newSocket .lowest
      (fun _ _ _ => .ok [(⟨.inet6, .inet6⟩, .unsupported), (⟨.inet, .inet⟩, .allGood)]) none 80
      .tcpSocket false 0 ⟨{0, 1, 2}, 0, []⟩).1 = 3 := by
  refine ⟨(newSocket_meets_iff .lowest _ none 80 .tcpSocket false 0 _ _ rfl).2 ?_, by decide⟩
  refine ⟨by simp, ?_, ?_, ?_⟩
  · simp [Outcomes.failure, Outcomes.unsupported, Outcomes.allGood, eMFILE]
  · simp [Usable, Outcomes.failure, Outcomes.unsupported]
  · simp [Refused]

/-- With an address of each family the socket for the first one stays open and is lost. -/
theorem newSocket_leaks :
    ¬ NewSocketMeets false [(⟨.inet, .inet⟩, .allGood), (⟨.inet6, .inet6⟩, .allGood)]
      ⟨{0, 1, 2}, 0, []⟩
      (CSocket.newSocket .lowest
        (fun _ _ _ => .ok [(⟨.inet, .inet⟩, .allGood), (⟨.inet6, .inet6⟩, .allGood)]) none 80
        .tcpSocket false 0 ⟨{0, 1, 2}, 0, []⟩) := by
  intro h
  exact absurd (h.noOther 3 (by decide) (by decide)) (by decide)

end VModule

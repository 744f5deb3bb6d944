/-
**`CSocket::NewUnixSocket` of `socket/Socket.cpp`.**

The function makes a socket, removes an old one at the path, and binds the new one while another
file mode mask is in force.  What the system calls answer is part of the input.  An assertion that
fails ends the process, and the function has no result then.

Main definitions:

* `VModule.UnixProcess`, `VModule.UnixOutcomes` — the process, and what the system calls answer;
* `VModule.CSocket.newUnixSocket` — the function;
* `VModule.NewUnixSocketMeets` — what a call owes its caller;
* `VModule.Served` — the calls that can be served, read off their arguments and the answers.

Main results:

* `VModule.CSocket.compl_masked_umask` — the file of the socket has the permissions of the access
  mask;
* `VModule.CSocket.newUnixSocket_returned` — every call that returns leaves the mask as it was, and
  no descriptor but the one that it returns;
* `VModule.newUnixSocket_meets_iff` — **a call does what it owes exactly when it can be served**: it
  does not with a path that is missing, empty or too long, and when `bind` fails.
-/

import VModule.FileSystem
import VModule.NewSocket

set_option relaxedAutoImplicit false
set_option autoImplicit false

namespace VModule

/-! ### What the call reads and changes -/

/-- What the system calls answer: whether they succeed, and for `lstat` whether there is a
socket. -/
structure UnixOutcomes where
  socket : Bool
  getfl : Bool
  setfl : Bool
  lstat : Option Bool
  unlink : Bool
  bind : Bool

/-- What a socket is bound to: a file with its permissions, or a name that is no path. -/
inductive UnixAddress where
  | file (path : PathName) (mode : BitVec 9)
  | abstract

/-- The process, as far as the call changes it.  Only nine bits of a file mode mask are kept. -/
structure UnixProcess extends Process where
  umask : BitVec 9
  bound : ℕ → Option UnixAddress
  /-- The paths that were removed. -/
  unlinked : List PathName

namespace UnixProcess

def sError (p : UnixProcess) (s : String) : UnixProcess :=
  { p with toProcess := p.toProcess.sError s }

/-- A descriptor that is closed is not bound to anything. -/
def close (p : UnixProcess) (fd : ℕ) : UnixProcess :=
  { p with toProcess := p.toProcess.close fd, bound := Function.update p.bound fd none }

/-- A successful `socket`. -/
def create (p : UnixProcess) (N : FdNumbering) : ℕ × UnixProcess :=
  ((p.toProcess.create N).1, { p with toProcess := (p.toProcess.create N).2 })

/-- `umask`: the old mask is returned, and of the new one nine bits are kept. -/
def setUmask (p : UnixProcess) (mask : BitVec 32) : BitVec 32 × UnixProcess :=
  (p.umask.setWidth 32, { p with umask := mask.setWidth 9 })

end UnixProcess

namespace CSocket

/-! ### The function -/

/-- `lstat` and `unlink`: an old socket is removed, anything else is left. -/
def removeOld (o : UnixOutcomes) (path : PathName) (p : UnixProcess) : UnixProcess :=
  if o.lstat = some true ∧ o.unlink then { p with unlinked := p.unlinked ++ [path] } else p

/-- The address with `path` in `sun_path`.  A `sun_path` that begins with a zero is no path; a file
gets what the mask leaves of all permissions. -/
def address (path : PathName) (umask : BitVec 9) : UnixAddress :=
  if path = [] then .abstract else .file path (~~~umask)

/-- `Bind`. -/
def bind (o : UnixOutcomes) (sfd : ℕ) (path : PathName) (p : UnixProcess) : Bool × UnixProcess :=
  if o.bind then
    (true, { p with bound := Function.update p.bound sfd (some (address path p.umask)) })
  else (false, p.sError "bind error")

/-- What `strncpy` leaves of a path in `sun_path`, the last byte of which is a zero. -/
def sunPath (path : PathName) : PathName := path.take 107

/-- `NewUnixSocket`. -/
def newUnixSocket (N : FdNumbering) (path : Option PathName) (accessMask : BitVec 32)
    (blocking : Bool) (o : UnixOutcomes) (p : UnixProcess) : Option (Int × UnixProcess) :=
  match path with
  | none => some (1, p)
  | some path =>
      if o.socket = false then some (-1, p.sError "socket()")
      else
        let sfd := (p.create N).1
        let p := (p.create N).2
        if blocking = false ∧ (o.getfl && o.setfl) = false then
          some (-1, (p.sError "setting O_NONBLOCK").close sfd)
        else
          let p := removeOld o path p
          if sunPath path ≠ path then none
          else
            let oldUmask := (p.setUmask (~~~(accessMask &&& 0o777))).1
            let p := (p.setUmask (~~~(accessMask &&& 0o777))).2
            match bind o sfd (sunPath path) p with
            | (false, p) => some (1, (((p.sError "bind()").close sfd).setUmask oldUmask).2)
            | (true, p) => some (sfd, (p.setUmask oldUmask).2)

end CSocket

/-! ### What the call owes -/

/-- The call returns; what it returns is a descriptor that it has made, bound to the path and left
open, or it is negative and no descriptor was left open; and the mask is what it was. -/
def NewUnixSocketMeets (N : FdNumbering) (path : Option PathName) (accessMask : BitVec 32)
    (blocking : Bool) (o : UnixOutcomes) (p : UnixProcess) : Prop :=
  ∃ r p', CSocket.newUnixSocket N path accessMask blocking o p = some (r, p') ∧
    p'.umask = p.umask ∧
    ((∃ fd : ℕ, r = fd ∧ fd ∉ p.openFds ∧ fd ∈ p'.openFds ∧
        ∃ q mode, path = some q ∧ p'.bound fd = some (.file q mode)) ∨
      r < 0 ∧ p'.openFds = p.openFds)

/-- The socket and its flags are refused, or it can be bound to the path. -/
def Served (path : Option PathName) (blocking : Bool) (o : UnixOutcomes) : Prop :=
  ∃ q, path = some q ∧ (o.socket = false ∨ blocking = false ∧ (o.getfl && o.setfl) = false ∨
    q ≠ [] ∧ q.length ≤ 107 ∧ o.bind = true)

namespace CSocket

variable {N : FdNumbering} {path : PathName} {accessMask : BitVec 32} {blocking : Bool}
  {o : UnixOutcomes} {p : UnixProcess}

theorem sunPath_eq_iff : sunPath path = path ↔ path.length ≤ 107 := List.take_eq_self_iff path

@[simp] theorem removeOld_openFds : (removeOld o path p).openFds = p.openFds := by
  unfold removeOld
  split <;> rfl

@[simp] theorem removeOld_umask : (removeOld o path p).umask = p.umask := by
  unfold removeOld
  split <;> rfl

/-- The mask that was returned is the one that comes back. -/
theorem setUmask_setWidth (p : UnixProcess) (m : BitVec 9) :
    (p.setUmask (m.setWidth 32)).2.umask = m := by
  simp [UnixProcess.setUmask]

/-- With the new descriptor closed those are open that were before. -/
theorem close_openFds {p' : UnixProcess} (h : p'.openFds = (p.create N).2.openFds) :
    (p'.close (p.create N).1).openFds = p.openFds := by
  refine (congrArg (Finset.erase · (p.create N).1) h).trans ?_
  exact Finset.erase_insert (N.pick_notMem p.openFds)

/-! ### The ways in which a call ends -/

theorem newUnixSocket_of_socket (h : o.socket = false) :
    newUnixSocket N (some path) accessMask blocking o p = some (-1, p.sError "socket()") := by
  rw [newUnixSocket, if_pos h]

theorem newUnixSocket_of_flags (h : o.socket = true)
    (hflags : blocking = false ∧ (o.getfl && o.setfl) = false) :
    newUnixSocket N (some path) accessMask blocking o p =
      some (-1, ((p.create N).2.sError "setting O_NONBLOCK").close (p.create N).1) := by
  simp only [newUnixSocket, h, Bool.true_eq_false, if_false, if_pos hflags]

/-- The assertion on the length of the path. -/
theorem newUnixSocket_of_long (h : o.socket = true)
    (hflags : ¬ (blocking = false ∧ (o.getfl && o.setfl) = false)) (hlong : 107 < path.length) :
    newUnixSocket N (some path) accessMask blocking o p = none := by
  have hcut : sunPath path ≠ path := fun heq => absurd (sunPath_eq_iff.1 heq) (by omega)
  simp only [newUnixSocket, h, Bool.true_eq_false, if_false, if_neg hflags, if_pos hcut]

/-- The process when `bind` is called. -/
def masked (N : FdNumbering) (path : PathName) (accessMask : BitVec 32) (o : UnixOutcomes)
    (p : UnixProcess) : UnixProcess :=
  ((removeOld o path (p.create N).2).setUmask (~~~(accessMask &&& 0o777))).2

theorem masked_openFds :
    (masked N path accessMask o p).openFds = (p.create N).2.openFds :=
  removeOld_openFds

/-- The file of the socket gets the permissions of the access mask. -/
theorem compl_masked_umask :
    ~~~(masked N path accessMask o p).umask = accessMask.setWidth 9 := by
  have hmask : (masked N path accessMask o p).umask =
      (~~~(accessMask &&& 0o777)).setWidth 9 := rfl
  have hones : (0o777 : BitVec 32).setWidth 9 = BitVec.allOnes 9 := rfl
  rw [hmask, BitVec.setWidth_not (by decide), BitVec.not_not, BitVec.setWidth_and, hones,
    BitVec.and_allOnes]

/-- The call from `bind` on. -/
theorem newUnixSocket_of_short (h : o.socket = true)
    (hflags : ¬ (blocking = false ∧ (o.getfl && o.setfl) = false)) (hlen : path.length ≤ 107) :
    newUnixSocket N (some path) accessMask blocking o p =
      match bind o (p.create N).1 path (masked N path accessMask o p) with
      | (false, p') =>
          some (1, (((p'.sError "bind()").close (p.create N).1).setUmask (p.umask.setWidth 32)).2)
      | (true, p') => some ((p.create N).1, (p'.setUmask (p.umask.setWidth 32)).2) := by
  have hpath : sunPath path = path := sunPath_eq_iff.2 hlen
  have hold : ((removeOld o path (p.create N).2).setUmask (~~~(accessMask &&& 0o777))).1 =
      p.umask.setWidth 32 :=
    congrArg (BitVec.setWidth 32) removeOld_umask
  simp only [newUnixSocket, h, Bool.true_eq_false, if_false, if_neg hflags, hpath, hold]
  exact if_neg (not_not.2 rfl)

/-- A socket that cannot be bound is closed, and 1 is returned. -/
theorem newUnixSocket_of_not_bind (h : o.socket = true)
    (hflags : ¬ (blocking = false ∧ (o.getfl && o.setfl) = false)) (hlen : path.length ≤ 107)
    (hbind : o.bind = false) :
    ∃ p', newUnixSocket N (some path) accessMask blocking o p = some (1, p') ∧
      p'.openFds = p.openFds ∧ p'.umask = p.umask := by
  rw [newUnixSocket_of_short h hflags hlen]
  simp only [bind, hbind, Bool.false_eq_true, if_false]
  exact ⟨_, rfl, close_openFds masked_openFds, setUmask_setWidth _ p.umask⟩

/-- A socket that is bound is returned. -/
theorem newUnixSocket_of_bind (h : o.socket = true)
    (hflags : ¬ (blocking = false ∧ (o.getfl && o.setfl) = false)) (hlen : path.length ≤ 107)
    (hbind : o.bind = true) :
    ∃ p', newUnixSocket N (some path) accessMask blocking o p = some (↑(p.create N).1, p') ∧
      p'.openFds = (p.create N).2.openFds ∧ p'.umask = p.umask ∧
        p'.bound (p.create N).1 = some (address path (masked N path accessMask o p).umask) := by
  rw [newUnixSocket_of_short h hflags hlen]
  simp only [bind, hbind, if_true]
  have hopen : (masked N path accessMask o p).openFds = (p.create N).2.openFds := masked_openFds
  exact ⟨_, rfl, hopen, setUmask_setWidth _ p.umask, Function.update_self ..⟩

/-- Every call that returns leaves the mask as it was, and no descriptor but the one that it
returns. -/
theorem newUnixSocket_returned {q : Option PathName} {r : Int} {p' : UnixProcess}
    (h : newUnixSocket N q accessMask blocking o p = some (r, p')) :
    p'.umask = p.umask ∧ (p'.openFds = p.openFds ∧ (r = 1 ∨ r = -1) ∨
      p'.openFds = (p.create N).2.openFds ∧ r = (p.create N).1) := by
  cases q with
  | none =>
      obtain ⟨rfl, rfl⟩ := Prod.ext_iff.1 (Option.some_inj.1 h)
      exact ⟨rfl, .inl ⟨rfl, .inl rfl⟩⟩
  | some path =>
      by_cases hsocket : o.socket = false
      · rw [newUnixSocket_of_socket hsocket] at h
        obtain ⟨rfl, rfl⟩ := Prod.ext_iff.1 (Option.some_inj.1 h)
        exact ⟨rfl, .inl ⟨rfl, .inr rfl⟩⟩
      rw [Bool.not_eq_false] at hsocket
      by_cases hflags : blocking = false ∧ (o.getfl && o.setfl) = false
      · rw [newUnixSocket_of_flags hsocket hflags] at h
        obtain ⟨rfl, rfl⟩ := Prod.ext_iff.1 (Option.some_inj.1 h)
        exact ⟨rfl, .inl ⟨close_openFds rfl, .inr rfl⟩⟩
      rcases Nat.lt_or_ge 107 path.length with hlong | hlen
      · rw [newUnixSocket_of_long hsocket hflags hlong] at h
        cases h
      cases hbind : o.bind with
      | false =>
          obtain ⟨_, hret, hfds, humask⟩ :=
            @newUnixSocket_of_not_bind N path accessMask blocking o p hsocket hflags hlen hbind
          obtain ⟨rfl, rfl⟩ := Prod.ext_iff.1 (Option.some_inj.1 (hret.symm.trans h))
          exact ⟨humask, .inl ⟨hfds, .inl rfl⟩⟩
      | true =>
          obtain ⟨_, hret, hfds, humask, -⟩ :=
            @newUnixSocket_of_bind N path accessMask blocking o p hsocket hflags hlen hbind
          obtain ⟨rfl, rfl⟩ := Prod.ext_iff.1 (Option.some_inj.1 (hret.symm.trans h))
          exact ⟨humask, .inr ⟨hfds, rfl⟩⟩

/-- The result 1 is no descriptor of the call. -/
theorem not_meets_of_one {q : Option PathName} {p' : UnixProcess}
    (h : newUnixSocket N q accessMask blocking o p = some (1, p')) (hfds : p'.openFds = p.openFds) :
    ¬ NewUnixSocketMeets N q accessMask blocking o p := by
  rintro ⟨r, p'', hret, -, hcase⟩
  obtain ⟨hr, rfl⟩ := Prod.ext_iff.1 (Option.some_inj.1 (h.symm.trans hret))
  rcases hcase with ⟨fd, -, hnew, hopen, -⟩ | ⟨hneg, -⟩
  · exact hnew (hfds ▸ hopen)
  · dsimp only at hr
    omega

/-- A name that is no path does not do. -/
theorem not_meets_of_abstract {q : Option PathName} {fd : ℕ} {p' : UnixProcess}
    (h : newUnixSocket N q accessMask blocking o p = some (↑fd, p'))
    (hbound : p'.bound fd = some .abstract) :
    ¬ NewUnixSocketMeets N q accessMask blocking o p := by
  rintro ⟨r, p'', hret, -, hcase⟩
  obtain ⟨hr, rfl⟩ := Prod.ext_iff.1 (Option.some_inj.1 (h.symm.trans hret))
  dsimp only at hr hbound
  rcases hcase with ⟨fd', rfl, -, -, _, _, -, hfile⟩ | ⟨hneg, -⟩
  · obtain rfl : fd = fd' := Int.ofNat_inj.1 hr
    cases hbound.symm.trans hfile
  · omega

end CSocket

open CSocket

/-- **`NewUnixSocket` does what it owes exactly when the call can be served.** -/
theorem newUnixSocket_meets_iff (N : FdNumbering) (path : Option PathName) (accessMask : BitVec 32)
    (blocking : Bool) (o : UnixOutcomes) (p : UnixProcess) :
    NewUnixSocketMeets N path accessMask blocking o p ↔ Served path blocking o := by
  cases path with
  | none =>
      refine iff_of_false (not_meets_of_one rfl rfl) ?_
      rintro ⟨q, hq, -⟩
      cases hq
  | some q =>
      by_cases hsocket : o.socket = false
      · refine iff_of_true ⟨-1, _, newUnixSocket_of_socket hsocket, rfl, .inr ⟨by decide, rfl⟩⟩ ?_
        exact ⟨q, rfl, .inl hsocket⟩
      rw [Bool.not_eq_false] at hsocket
      by_cases hflags : blocking = false ∧ (o.getfl && o.setfl) = false
      · refine iff_of_true ⟨-1, _, newUnixSocket_of_flags hsocket hflags, rfl,
          .inr ⟨by decide, close_openFds rfl⟩⟩ ?_
        exact ⟨q, rfl, .inr (.inl hflags)⟩
      have hserved : Served (some q) blocking o ↔ q ≠ [] ∧ q.length ≤ 107 ∧ o.bind = true := by
        simp only [Served, Option.some_inj, exists_eq_left', hsocket, Bool.true_eq_false,
          hflags, false_or]
      rw [hserved]
      by_cases hlen : q.length ≤ 107
      · cases hbind : o.bind with
        | false =>
            obtain ⟨p', hret, hfds, -⟩ := newUnixSocket_of_not_bind hsocket hflags hlen hbind
            exact iff_of_false (not_meets_of_one hret hfds) (by simp)
        | true =>
            obtain ⟨p', hret, hfds, humask, hbound⟩ :=
              newUnixSocket_of_bind hsocket hflags hlen hbind
            rw [address] at hbound
            by_cases hq : q = []
            · rw [if_pos hq] at hbound
              refine iff_of_false ?_ fun h => h.1 hq
              exact not_meets_of_abstract hret hbound
            · rw [if_neg hq] at hbound
              refine iff_of_true ⟨_, p', hret, humask, .inl ⟨_, rfl, N.pick_notMem p.openFds, ?_,
                q, _, rfl, hbound⟩⟩ ⟨hq, hlen, rfl⟩
              rw [hfds]
              exact Finset.mem_insert_self _ _
      · refine iff_of_false ?_ fun h => hlen h.2.1
        rintro ⟨r, p', hret, -⟩
        rw [newUnixSocket_of_long hsocket hflags (Nat.lt_of_not_le hlen)] at hret
        cases hret

/-- A path at which nothing can be bound. -/
theorem newUnixSocket_returns_one :
    ¬ NewUnixSocketMeets .lowest (some [97]) 0 true ⟨true, true, true, none, true, false⟩
      ⟨⟨{0, 1, 2}, 0, []⟩, 0, fun _ => none, []⟩ := by
  obtain ⟨p', hret, hfds, -⟩ := @newUnixSocket_of_not_bind .lowest [97] 0 true
    ⟨true, true, true, none, true, false⟩ ⟨⟨{0, 1, 2}, 0, []⟩, 0, fun _ => none, []⟩ rfl (by decide)
    (by decide) rfl
  exact not_meets_of_one hret hfds

end VModule

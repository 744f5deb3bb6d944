/-
**`CFileUtils::MakeDir` of `sutils/FileUtils.cpp`.**

The loop cuts the path at each slash and hands what stands before it to `DoMakeDir`.  What that
call returns is a `status_t`, in which success is 0, and it is kept in a `bool`, of which the loop
goes on while it is true: so the loop goes on after a failure and ends with the first success.

A call of `stat` or `mkdir` may be refused for a reason of its own, and which calls are is part of
the input.

Main definitions:

* `VModule.Refusals` — the paths for which `stat` and `mkdir` are refused;
* `VModule.CFileUtils.doMakeDir`, `VModule.CFileUtils.makeDirLoop`, `VModule.CFileUtils.makeDir` —
  the functions;
* `VModule.CFileUtils.tries` — the prefixes that the loop is about;
* `VModule.CFileUtils.accepts`, `VModule.CFileUtils.inPlace` — when one of them is a success, and
  what there is then;
* `VModule.MakeDirMeets` — what a call of `MakeDir` owes its caller;
* `VModule.CFileUtils.Blocked`, `VModule.OneIsEnough` — what the prefixes have to be before the
  call.

Main results:

* `VModule.CFileUtils.mem_tries_iff` — the loop is about every prefix before a slash that does not
  end with one;
* `VModule.CFileUtils.makeDir_eq` — the first success decides;
* `VModule.OneIsEnough.iff_of_missing` — one success is enough for a missing prefix if nothing is
  named below it;
* `VModule.makeDir_meets_iff` — **the call does what it owes if and only if one success is enough**.
-/

import VModule.Errors
import VModule.NewDirectory

set_option relaxedAutoImplicit false
set_option autoImplicit false

namespace VModule

open PathName

/-- The paths for which a call fails for a reason of its own, as without a permission. -/
structure Refusals where
  stat : PathName → Bool
  mkdir : PathName → Bool

/-- `S_ISDIR`. -/
def sIsDir (stMode : ℕ) : Bool := stMode &&& 0o170000 == 0o040000

theorem sIsDir_format (nd : FsNode) : sIsDir nd.format = true ↔ ∃ d, nd = .dir d := by
  cases nd with
  | dir d => exact iff_of_true (by decide : sIsDir 0o040000 = true) ⟨d, rfl⟩
  | link t => exact iff_of_false (by decide : ¬ sIsDir 0o120000 = true) (by simp)
  | file k =>
      refine iff_of_false ?_ (by simp)
      cases k <;> decide

namespace CFileUtils

/-! ### The functions -/

/-- `DoMakeDir`, without the lines of its log. -/
def doMakeDir (o : Refusals) (fs : FileSystem) (path : PathName) (mode : UInt8) :
    Status × FileSystem :=
  match if o.stat path then none else fs.stat path with
  | none =>
      match if o.mkdir path then .error .other else fs.mkdir path mode.toNat with
      | .ok fs' => (.noError, fs')
      | .error .exist => (.noError, fs)
      | .error .other => (.badValue, fs)
  | some st => if sIsDir (fs.node st).format then (.noError, fs) else (.badValue, fs)

/-- The loop of `MakeDir` from a place in `copypath`: `pre` is what stands before it, and
`atPp` says that it is where `pp` points. -/
def makeDirLoop (o : Refusals) (mode : UInt8) (pre : PathName) (atPp : Bool) :
    PathName → FileSystem → Bool × FileSystem
  | [], fs => (true, fs)
  | c :: rest, fs =>
      if c = slash then
        if atPp then makeDirLoop o mode (pre ++ [c]) true rest fs
        else
          match doMakeDir o fs pre mode with
          | (st, fs') =>
              if st.toBool then makeDirLoop o mode (pre ++ [c]) true rest fs' else (false, fs')
      else makeDirLoop o mode (pre ++ [c]) false rest fs

/-- `MakeDir`, with the `bool` that it returns as a `status_t`. -/
def makeDir (o : Refusals) (fs : FileSystem) (path : PathName) (mode : UInt8) :
    ℤ × FileSystem :=
  match makeDirLoop o mode [] true path fs with
  | (true, fs') => ((doMakeDir o fs' path mode).1.toBool.toNat, (doMakeDir o fs' path mode).2)
  | (false, fs') => (false.toNat, fs')

/-! ### The first success -/

/-- The prefixes that the loop hands to `DoMakeDir` when none is a success. -/
def triesFrom (pre : PathName) (atPp : Bool) : PathName → List PathName
  | [] => []
  | c :: rest =>
      if c = slash then
        if atPp then triesFrom (pre ++ [c]) true rest
        else pre :: triesFrom (pre ++ [c]) true rest
      else triesFrom (pre ++ [c]) false rest

def tries (path : PathName) : List PathName := triesFrom [] true path

/-- `stat` finds a directory, or finds nothing and then `mkdir` makes one or says `EEXIST`. -/
def accepts (o : Refusals) (fs : FileSystem) (mode : UInt8) (q : PathName) : Bool :=
  match if o.stat q then none else fs.stat q with
  | some st => sIsDir (fs.node st).format
  | none =>
      match if o.mkdir q then .error .other else fs.mkdir q mode.toNat with
      | .error .other => false
      | _ => true

/-- The file system with the directory that `mkdir` makes where `stat` finds nothing. -/
def inPlace (o : Refusals) (fs : FileSystem) (mode : UInt8) (q : PathName) : FileSystem :=
  match if o.stat q then none else fs.stat q with
  | some _ => fs
  | none =>
      match fs.mkdir q mode.toNat with
      | .ok fs' => fs'
      | .error _ => fs

theorem doMakeDir_eq (o : Refusals) (fs : FileSystem) (path : PathName) (mode : UInt8) :
    doMakeDir o fs path mode =
      if accepts o fs mode path then (.noError, inPlace o fs mode path) else (.badValue, fs) := by
  unfold doMakeDir accepts inPlace
  cases (if o.stat path then none else fs.stat path) with
  | some st => rfl
  | none =>
      cases ho : o.mkdir path with
      | true => simp
      | false =>
          cases hm : fs.mkdir path mode.toNat with
          | ok fs' => simp
          | error e => cases e <;> simp

/-- The first success ends the loop, and the calls before it change nothing. -/
theorem makeDirLoop_eq (o : Refusals) (fs : FileSystem) (mode : UInt8) (rest : PathName) :
    ∀ pre atPp, makeDirLoop o mode pre atPp rest fs =
      match (triesFrom pre atPp rest).find? (accepts o fs mode) with
      | none => (true, fs)
      | some q => (false, inPlace o fs mode q) := by
  induction rest with
  | nil => exact fun _ _ => rfl
  | cons c rest ih =>
      intro pre atPp
      by_cases hc : c = slash
      · cases atPp with
        | true =>
            simp only [makeDirLoop, triesFrom, if_pos hc, if_true]
            exact ih (pre ++ [c]) true
        | false =>
            simp only [makeDirLoop, triesFrom, if_pos hc, Bool.false_eq_true, if_false,
              doMakeDir_eq, List.find?_cons]
            cases accepts o fs mode pre with
            | true => rfl
            | false => exact ih (pre ++ [c]) true
      · simp only [makeDirLoop, triesFrom, if_neg hc]
        exact ih (pre ++ [c]) false

/-- The first success among the prefixes and the path itself. -/
def firstSuccess (o : Refusals) (fs : FileSystem) (mode : UInt8) (path : PathName) :
    Option PathName :=
  (tries path ++ [path]).find? (accepts o fs mode)

/-- The first success decides: with one the call returns `OK`, and without one it returns 1 and
leaves everything as it was. -/
theorem makeDir_eq (o : Refusals) (fs : FileSystem) (path : PathName) (mode : UInt8) :
    makeDir o fs path mode =
      match firstSuccess o fs mode path with
      | none => (1, fs)
      | some q => (Status.noError.code, inPlace o fs mode q) := by
  rw [makeDir, makeDirLoop_eq, firstSuccess, List.find?_append, tries]
  cases (triesFrom [] true path).find? (accepts o fs mode) with
  | some q => rfl
  | none =>
      simp only [doMakeDir_eq, Option.none_or, List.find?_cons]
      cases accepts o fs mode path with
      | true => rfl
      | false => rfl

/-! ### The prefixes -/

/-- `q` is a non-empty part of the path that ends before a slash. -/
def EndsBeforeSlash (path q : PathName) : Prop := q ≠ [] ∧ ∃ rest, path = q ++ slash :: rest

/-- The first slash of a text is its first character or comes later. -/
theorem exists_slash_cons_iff {pre q rest : PathName} {c : UInt8} :
    (∃ u v, c :: rest = u ++ slash :: v ∧ q = pre ++ u) ↔
      c = slash ∧ q = pre ∨ ∃ u v, rest = u ++ slash :: v ∧ q = pre ++ [c] ++ u := by
  constructor
  · rintro ⟨u, v, hrest, rfl⟩
    cases u with
    | nil => exact .inl ⟨(List.cons_eq_cons.1 hrest).1, List.append_nil pre⟩
    | cons x u =>
        obtain ⟨rfl, htail⟩ : c = x ∧ rest = u ++ slash :: v := List.cons_eq_cons.1 hrest
        exact .inr ⟨u, v, htail, by rw [List.append_assoc, List.singleton_append]⟩
  · rintro (⟨rfl, rfl⟩ | ⟨u, v, rfl, rfl⟩)
    · exact ⟨[], rest, rfl, (List.append_nil q).symm⟩
    · exact ⟨c :: u, v, rfl, by rw [List.append_assoc, List.singleton_append]⟩

theorem mem_triesFrom_iff (q rest : PathName) :
    ∀ pre atPp, (atPp = true ↔ pre = [] ∨ pre.getLast? = some slash) →
      (q ∈ triesFrom pre atPp rest ↔ (q ≠ [] ∧ q.getLast? ≠ some slash) ∧
        ∃ u v, rest = u ++ slash :: v ∧ q = pre ++ u) := by
  induction rest with
  | nil => simp [triesFrom]
  | cons c rest ih =>
      intro pre atPp hflag
      have hnext : ∀ flag, (flag = true ↔ c = slash) →
          (q ∈ triesFrom (pre ++ [c]) flag rest ↔ (q ≠ [] ∧ q.getLast? ≠ some slash) ∧
            ∃ u v, rest = u ++ slash :: v ∧ q = pre ++ [c] ++ u) := by
        intro flag hc
        exact ih (pre ++ [c]) flag (by simp [hc])
      rw [exists_slash_cons_iff, triesFrom]
      by_cases hc : c = slash
      · have hrest := hnext true (iff_of_true rfl hc)
        rw [if_pos hc, and_iff_right hc]
        cases atPp with
        | true =>
            rw [if_pos rfl, hrest]
            refine and_congr_right fun hq => (or_iff_right ?_).symm
            rintro rfl
            rcases hflag.1 rfl with hnil | hlast
            · exact hq.1 hnil
            · exact hq.2 hlast
        | false =>
            have hpre : pre ≠ [] ∧ pre.getLast? ≠ some slash := by
              rw [ne_eq, ne_eq, ← not_or, ← hflag]
              exact Bool.false_ne_true
            rw [if_neg Bool.false_ne_true, List.mem_cons, hrest]
            constructor
            · rintro (rfl | ⟨hq, hu⟩)
              · exact ⟨hpre, .inl rfl⟩
              · exact ⟨hq, .inr hu⟩
            · rintro ⟨hq, hpre | hu⟩
              · exact .inl hpre
              · exact .inr ⟨hq, hu⟩
      · rw [if_neg hc, hnext false (iff_of_false Bool.false_ne_true hc),
          or_iff_right fun h => hc h.1]

/-- The loop is about the prefixes before a slash that do not end with one. -/
theorem mem_tries_iff (path q : PathName) :
    q ∈ tries path ↔ EndsBeforeSlash path q ∧ q.getLast? ≠ some slash := by
  rw [tries, mem_triesFrom_iff q path [] true (by simp)]
  constructor
  · rintro ⟨⟨hne, hlast⟩, u, v, hpath, rfl⟩
    exact ⟨⟨hne, v, hpath⟩, hlast⟩
  · rintro ⟨⟨hne, v, hpath⟩, hlast⟩
    exact ⟨⟨hne, hlast⟩, q, v, hpath, rfl⟩

end CFileUtils

/-! ### What is owed -/

open CFileUtils

/-- `MakeDir` returns `OK` exactly when all the prefixes and the path are directories, and where
one of them is none it returns an error and has made nothing below that one. -/
def MakeDirMeets (o : Refusals) (fs : FileSystem) (path : PathName) (mode : UInt8) : Prop :=
  let r := makeDir o fs path mode
  (r.1 = Status.noError.code ↔
    (∀ q, EndsBeforeSlash path q → r.2.IsDirectory q) ∧ r.2.IsDirectory path) ∧
  ∀ q, EndsBeforeSlash path q ∨ q = path → ¬ r.2.IsDirectory q →
    r.1 ≠ Status.noError.code ∧
    ∀ rest e, pieces rest ≠ [] → r.2.place (q ++ slash :: rest) = some e → e ∈ r.2.entries →
      e ∈ fs.entries

/-- What a directory is reached through is directories. -/
theorem isDirectory_of_endsBeforeSlash {fs : FileSystem} {path q : PathName}
    (hq : EndsBeforeSlash path q) (h : fs.IsDirectory path) : fs.IsDirectory q := by
  obtain ⟨hne, rest, rfl⟩ := hq
  obtain ⟨i, d, hi, -⟩ := h
  exact FileSystem.isDirectory_of_stat_append hne hi

/-- The call does what it owes if with the first success in place the path is a directory, or if
there is none and it is no directory. -/
theorem meets_iff_inPlace (o : Refusals) (fs : FileSystem) (path : PathName) (mode : UInt8) :
    MakeDirMeets o fs path mode ↔
      match firstSuccess o fs mode path with
      | none => ¬ fs.IsDirectory path
      | some q => (inPlace o fs mode q).IsDirectory path := by
  unfold MakeDirMeets
  rw [makeDir_eq]
  cases firstSuccess o fs mode path with
  | none =>
      simp only [ne_eq]
      constructor
      · rintro ⟨hret, -⟩ hdir
        refine absurd (hret.2 ⟨fun q hq => isDirectory_of_endsBeforeSlash hq hdir, hdir⟩) ?_
        decide
      · intro hdir
        refine ⟨iff_of_false (by decide) fun h => hdir h.2, ?_⟩
        exact fun q _ _ => ⟨by decide, fun _ e _ _ he => he⟩
  | some q₀ =>
      simp only [ne_eq, not_true_eq_false, false_and, imp_false, not_not]
      constructor
      · exact fun h => (h.1.1 trivial).2
      · intro hdir
        have hall : ∀ q, EndsBeforeSlash path q → (inPlace o fs mode q₀).IsDirectory q :=
          fun q hq => isDirectory_of_endsBeforeSlash hq hdir
        refine ⟨iff_of_true trivial ⟨hall, hdir⟩, ?_⟩
        rintro q (hq | rfl)
        · exact hall q hq
        · exact hdir

/-! ### What there is before the call -/

namespace CFileUtils

/-- Nothing comes of the calls for `q`: `stat` is let through and finds something that is no
directory, or it does not tell of anything, and `mkdir` is refused or has no directory to make it
in. -/
structure Blocked (o : Refusals) (fs : FileSystem) (q : PathName) : Prop where
  stat : o.stat q = false → ¬ fs.IsDirectory q
  mkdir : o.stat q = true ∨ fs.stat q = none → o.mkdir q = true ∨ ¬ fs.HasParent q

theorem accepts_eq_false_iff {o : Refusals} {fs : FileSystem} {q : PathName} (mode : UInt8) :
    accepts o fs mode q = false ↔ Blocked o fs q := by
  have hfound : (if o.stat q then none else fs.stat q) = none ↔
      o.stat q = true ∨ fs.stat q = none := by
    cases o.stat q <;> simp
  unfold accepts
  cases hfind : if o.stat q then none else fs.stat q with
  | some i =>
      have hrefuse : o.stat q = false := by
        cases hstat : o.stat q with
        | false => rfl
        | true =>
            rw [hstat] at hfind
            cases hfind
      have hi : fs.stat q = some i := by
        rw [hrefuse] at hfind
        exact hfind
      dsimp only
      rw [← Bool.not_eq_true, sIsDir_format]
      constructor
      · intro hno
        refine ⟨fun _ hdir => hno ?_, fun hmissing => ?_⟩
        · obtain ⟨j, d, hj, hd⟩ := hdir
          obtain rfl := Option.some_inj.1 (hi.symm.trans hj)
          exact ⟨d, hd⟩
        · have hnone := hfound.2 hmissing
          rw [hfind] at hnone
          cases hnone
      · intro hblocked hdir
        obtain ⟨d, hd⟩ := hdir
        exact hblocked.stat hrefuse ⟨i, d, hi, hd⟩
  | none =>
      have hmissing := hfound.1 hfind
      have hnot : o.stat q = false → ¬ fs.IsDirectory q := by
        intro hrefuse hdir
        obtain ⟨i, d, hi, -⟩ := hdir
        rcases hmissing with htrue | hnone
        · rw [hrefuse] at htrue
          cases htrue
        · rw [hi] at hnone
          cases hnone
      have hmkdir : Blocked o fs q ↔ o.mkdir q = true ∨ ¬ fs.HasParent q :=
        ⟨fun h => h.mkdir hmissing, fun h => ⟨hnot, fun _ => h⟩⟩
      rw [hmkdir, ← FileSystem.mkdir_eq_other_iff mode.toNat]
      dsimp only
      cases o.mkdir q with
      | true => simp
      | false =>
          cases hm : fs.mkdir q mode.toNat with
          | ok gs => simp
          | error e => cases e <;> simp

/-- `DoMakeDir` is a success for a directory that is there, unless both of its calls are refused. -/
theorem accepts_of_isDirectory {o : Refusals} {fs : FileSystem} {q : PathName} (mode : UInt8)
    (h : fs.IsDirectory q) (ho : ¬ (o.stat q = true ∧ o.mkdir q = true)) :
    accepts o fs mode q = true := by
  obtain ⟨i, d, hi, hd⟩ := h
  have hdir : sIsDir (fs.node i).format = true := (sIsDir_format _).2 ⟨d, hd⟩
  unfold accepts
  cases hstat : o.stat q with
  | false => simpa [hi] using hdir
  | true =>
      have hmkdir : o.mkdir q = false := by
        rw [← Bool.not_eq_true]
        exact fun hm => ho ⟨hstat, hm⟩
      have hother := FileSystem.mkdir_ne_other hi mode.toNat
      simp only [if_true, hmkdir, Bool.false_eq_true, if_false]

/-- What is missing where it can be made is not blocked, and it is made. -/
theorem accepts_of_place {o : Refusals} {fs : FileSystem} {q : PathName} {i : Inode}
    {n : FileName} {d : Directory} (mode : UInt8) (hmkdir : o.mkdir q = false)
    (hplace : fs.place q = some (i, n)) (hd : fs.node i = .dir d)
    (hn : n ∉ d.entries.map Prod.fst) : accepts o fs mode q = true ∧
      fs.mkdir q mode.toNat = .ok (inPlace o fs mode q) := by
  have hstat : (if o.stat q then none else fs.stat q) = none := by
    rw [FileSystem.stat_of_new hd hn hplace, ite_self]
  obtain ⟨gs, hgs⟩ := FileSystem.mkdir_of_place hplace hd hn mode.toNat
  unfold accepts inPlace
  rw [hstat, hmkdir]
  simp [hgs]

/-- What a success leaves is the file system as it was, or with the new directory. -/
theorem inPlace_cases (o : Refusals) (fs : FileSystem) (mode : UInt8) (q : PathName) :
    inPlace o fs mode q = fs ∨ fs.mkdir q mode.toNat = .ok (inPlace o fs mode q) := by
  unfold inPlace
  cases if o.stat q then none else fs.stat q with
  | some i => exact .inl rfl
  | none =>
      cases hm : fs.mkdir q mode.toNat with
      | error e => exact .inl rfl
      | ok gs => exact .inr rfl

end CFileUtils

/-- **What there has to be for one success.**  The path is a directory already, and for one of the
prefixes or the path a call is let through; or it is none, and nothing comes of any call; or nothing
comes of the calls before those for `q`, which can be made where it is missing, and over it the path
leads to a directory. -/
inductive OneIsEnough (o : Refusals) (fs : FileSystem) (path : PathName) : Prop
  | there : fs.IsDirectory path →
      (∃ q ∈ tries path ++ [path], ¬ (o.stat q = true ∧ o.mkdir q = true)) →
      OneIsEnough o fs path
  | blocked : ¬ fs.IsDirectory path → (∀ q ∈ tries path ++ [path], Blocked o fs q) →
      OneIsEnough o fs path
  | made {us vs : List PathName} {q : PathName} {i : Inode} {n : FileName} {d : Directory} :
      tries path ++ [path] = us ++ q :: vs → (∀ u ∈ us, Blocked o fs u) → o.mkdir q = false →
      fs.place q = some (i, n) → fs.node i = .dir d → n ∉ d.entries.map Prod.fst →
      fs.LeadsOver (i, n) path → OneIsEnough o fs path

namespace OneIsEnough

variable {o : Refusals} {fs : FileSystem} {path q : PathName} {mode : UInt8}

theorem not_blocked (h : accepts o fs mode q = true) : ¬ Blocked o fs q := by
  intro hblocked
  rw [(accepts_eq_false_iff mode).2 hblocked] at h
  cases h

theorem isDirectory_of_mem (hdir : fs.IsDirectory path) (hq : q ∈ tries path ++ [path]) :
    fs.IsDirectory q := by
  rcases List.mem_append.1 hq with hq | hq
  · exact isDirectory_of_endsBeforeSlash ((mem_tries_iff path q).1 hq).1 hdir
  · rw [List.mem_singleton.1 hq]
    exact hdir

/-- Where nothing comes of any call the path must not be a directory. -/
theorem iff_of_blocked (hall : ∀ q ∈ tries path ++ [path], Blocked o fs q) :
    OneIsEnough o fs path ↔ ¬ fs.IsDirectory path := by
  constructor
  · intro h hdir
    cases h with
    | blocked hno _ => exact hno hdir
    | there _ hcall =>
        obtain ⟨q, hq, hcall⟩ := hcall
        have haccepts := accepts_of_isDirectory 0 (isDirectory_of_mem hdir hq) hcall
        exact not_blocked haccepts (hall q hq)
    | made hsplit _ hmkdir hplace hd hn _ =>
        refine not_blocked (accepts_of_place 0 hmkdir hplace hd hn).1 (hall _ ?_)
        rw [hsplit]
        exact List.mem_append_right _ List.mem_cons_self
  · exact fun hno => .blocked hno hall

/-- With the first success in place the path is a directory, so one is enough. -/
theorem of_inPlace (hfirst : firstSuccess o fs mode path = some q)
    (hdir : (inPlace o fs mode q).IsDirectory path) : OneIsEnough o fs path := by
  obtain ⟨haccepts, us, vs, hsplit, hus⟩ := List.find?_eq_some_iff_append.1 hfirst
  have hblocked : ∀ u ∈ us, Blocked o fs u := by
    intro u hu
    rw [← accepts_eq_false_iff mode]
    simpa using hus u hu
  by_cases hbefore : fs.IsDirectory path
  · refine .there hbefore ⟨q, List.mem_of_find?_eq_some hfirst, fun hrefused => ?_⟩
    refine not_blocked haccepts ⟨?_, fun _ => .inl hrefused.2⟩
    rw [hrefused.1]
    exact fun hfalse => by cases hfalse
  · rcases inPlace_cases o fs mode q with hsame | hmade
    · rw [hsame] at hdir
      exact absurd hdir hbefore
    · obtain ⟨i, n, d, hd, hn, hplace, hgs⟩ := FileSystem.mkdir_eq_ok hmade
      have hstat := FileSystem.stat_of_new hd hn.2 hplace
      have hmkdir : o.mkdir q = false := by
        cases hrefuse : o.mkdir q with
        | false => rfl
        | true =>
            refine absurd ⟨?_, fun _ => .inl hrefuse⟩ (not_blocked haccepts)
            rintro - ⟨j, d', hj, -⟩
            rw [hstat] at hj
            cases hj
      rw [hgs] at hdir
      exact .made hsplit hblocked hmkdir hplace hd hn.2 (FileSystem.isDirectory_withDir_iff.1 hdir)

/-- What can be made behind paths that are blocked is the first success. -/
theorem firstSuccess_of_place {us vs : List PathName} {i : Inode} {n : FileName} {d : Directory}
    (mode : UInt8) (hsplit : tries path ++ [path] = us ++ q :: vs) (hus : ∀ u ∈ us, Blocked o fs u)
    (hmkdir : o.mkdir q = false) (hplace : fs.place q = some (i, n)) (hd : fs.node i = .dir d)
    (hn : n ∉ d.entries.map Prod.fst) : firstSuccess o fs mode path = some q := by
  have haccepts := (accepts_of_place mode hmkdir hplace hd hn).1
  refine List.find?_eq_some_iff_append.2 ⟨haccepts, us, vs, hsplit, ?_⟩
  intro u hu
  rw [(accepts_eq_false_iff mode).2 (hus u hu)]
  rfl

/-- Where one is enough, the path is a directory with the first success in place. -/
theorem inPlace (h : OneIsEnough o fs path) (hfirst : firstSuccess o fs mode path = some q) :
    (CFileUtils.inPlace o fs mode q).IsDirectory path := by
  cases h with
  | there hdir _ =>
      rcases inPlace_cases o fs mode q with hsame | hmade
      · rw [hsame]
        exact hdir
      · obtain ⟨i, n, d, hd, hn, -, hgs⟩ := FileSystem.mkdir_eq_ok hmade
        rw [hgs]
        exact hdir.withDir
  | blocked _ hall =>
      have haccepts := List.find?_some hfirst
      exact absurd (hall q (List.mem_of_find?_eq_some hfirst)) (not_blocked haccepts)
  | @made us vs q' i n d hsplit hblocked hmkdir hplace hd hn hover =>
      have hmade := (accepts_of_place mode hmkdir hplace hd hn).2
      have hfirst' := firstSuccess_of_place mode hsplit hblocked hmkdir hplace hd hn
      obtain rfl := Option.some_inj.1 (hfirst.symm.trans hfirst')
      obtain ⟨i', n', d', hd', hn', hplace', hgs⟩ := FileSystem.mkdir_eq_ok hmade
      obtain ⟨rfl, rfl⟩ := Prod.mk.inj (Option.some_inj.1 (hplace.symm.trans hplace'))
      rw [hgs]
      exact FileSystem.isDirectory_withDir_iff.2 hover

/-- **Where a prefix is missing and can be made**, and nothing comes of the calls before it, one
success is enough if and only if nothing but slashes and `.` follows it, unless there is a `..`. -/
theorem iff_of_missing {us vs : List PathName} {r : PathName} {i : Inode} {n : FileName}
    {d : Directory} (hsplit : tries (q ++ slash :: r) ++ [q ++ slash :: r] = us ++ q :: vs)
    (hus : ∀ u ∈ us, Blocked o fs u) (hmkdir : o.mkdir q = false)
    (hplace : fs.place q = some (i, n)) (hd : fs.node i = .dir d)
    (hn : n ∉ d.entries.map Prod.fst) (hr : dotDot ∉ pieces r) :
    OneIsEnough o fs (q ++ slash :: r) ↔ ∀ m ∈ pieces r, m = dot := by
  have hover := FileSystem.leadsOver_append_iff hplace hd hn hr
  have hfirst := firstSuccess_of_place 0 hsplit hus hmkdir hplace hd hn
  have hmem : q ∈ tries (q ++ slash :: r) ++ [q ++ slash :: r] := by
    rw [hsplit]
    exact List.mem_append_right _ List.mem_cons_self
  constructor
  · intro h
    cases h with
    | there hdir _ =>
        obtain ⟨j, d', hj, -⟩ := isDirectory_of_mem hdir hmem
        rw [FileSystem.stat_of_new hd hn hplace] at hj
        cases hj
    | blocked _ hall =>
        exact absurd (hall q hmem) (not_blocked (List.find?_some hfirst))
    | made hsplit' hus' hmkdir' hplace' hd' hn' hover' =>
        have hfirst' := firstSuccess_of_place 0 hsplit' hus' hmkdir' hplace' hd' hn'
        obtain rfl := Option.some_inj.1 (hfirst.symm.trans hfirst')
        rw [hplace', Option.some_inj] at hplace
        rw [hplace] at hover'
        exact hover.1 hover'
  · exact fun h => .made hsplit hus hmkdir hplace hd hn (hover.2 h)

end OneIsEnough

/-- **`MakeDir` does what it owes exactly when one success is enough**: the loop leaves with the
first one. -/
theorem makeDir_meets_iff (o : Refusals) (fs : FileSystem) (path : PathName) (mode : UInt8) :
    MakeDirMeets o fs path mode ↔ OneIsEnough o fs path := by
  rw [meets_iff_inPlace]
  cases hfirst : firstSuccess o fs mode path with
  | none =>
      refine (OneIsEnough.iff_of_blocked fun q hq => ?_).symm
      rw [← accepts_eq_false_iff mode, ← Bool.not_eq_true]
      exact List.find?_eq_none.1 hfirst q hq
  | some q => exact ⟨OneIsEnough.of_inPlace hfirst, fun h => h.inPlace hfirst⟩

/-- No call is refused. -/
def Refusals.none : Refusals := ⟨fun _ => false, fun _ => false⟩

/-- `"a/b"` below an empty root: `"a"` is made, the call returns `OK`, and there is no `"a/b"`. -/
theorem makeDir_stops_early : ¬ MakeDirMeets .none (.bare 0o700) [97, slash, 98] 0o300 := by
  intro h
  have hok : (makeDir .none (.bare 0o700) [97, slash, 98] 0o300).1 = Status.noError.code := by
    decide
  have hstat : (makeDir .none (.bare 0o700) [97, slash, 98] 0o300).2.stat [97, slash, 98]
      = none := by decide
  obtain ⟨i, d, hi, -⟩ := (h.1.1 hok).2
  rw [hstat] at hi
  cases hi

end VModule

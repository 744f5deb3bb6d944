/-
**`CFileUtils::DeleteDir` of `sutils/FileUtils.cpp`.**

The function reads a directory, builds the path of each entry in a buffer of 256 bytes, calls
itself where `IsDir` says so and removes what is left.  `IsDir` follows a symbolic link, and a
path that does not fit the buffer is cut.

What the system calls answer is part of the input: which of them are refused for a reason of their
own, and in which order `readdir` gives the names of a directory.  A run that has no end is one that
runs out of fuel, whatever the fuel.

Main definitions:

* `VModule.FsState`, `VModule.Answers` — what the calls change, and how they answer;
* `VModule.CFileUtils.isDir`, `VModule.CFileUtils.deleteEntries`, `VModule.CFileUtils.deleteDir` —
  the functions;
* `VModule.CFileUtils.Visited` — the paths that a run builds, read off the file system it starts
  on;
* `VModule.CFileUtils.Shrunk`, `VModule.CFileUtils.Takes` — entries are gone, and the entries that a
  removal may take.

Main results:

* `VModule.CFileUtils.deleteEntries_keeps` — what the call for each entry keeps, the loop keeps;
* `VModule.CFileUtils.deleteDir_shrinks` — a run only takes entries away, and only those that a path
  it builds may take;
* `VModule.CFileUtils.deleteDir_last` — before its last removal a run has taken what its entries may
  take.
-/

import VModule.Errors
import VModule.FileTree

set_option relaxedAutoImplicit false
set_option autoImplicit false

namespace VModule

open PathName

/-! ### The functions -/

/-- What the calls change. -/
structure FsState where
  fs : FileSystem
  /-- the system calls so far -/
  calls : ℕ
  /-- the directory streams that no `closedir` has closed -/
  streams : ℕ

/-- How the calls answer, by their number. -/
structure Answers where
  /-- the calls that fail for a reason of their own -/
  refuse : ℕ → Bool
  /-- the order in which a stream gives the names of its directory -/
  order : ℕ → List FileName → List FileName
  order_perm : ∀ c names, (order c names).Perm names

/-- No call is refused. -/
def Answers.Willing (env : Answers) : Prop := ∀ c, env.refuse c = false

/-- No call is refused, and a stream gives the names as the directory has them. -/
def Answers.plain : Answers := ⟨fun _ => false, fun _ names => names, fun _ _ => .refl _⟩

theorem Answers.plain_willing : Answers.plain.Willing := fun _ => rfl

namespace CFileUtils

variable (env : Answers)

/-- The state after a call that changes nothing. -/
def call (w : FsState) : FsState := { w with calls := w.calls + 1 }

/-- The state with one more open stream. -/
def opened (w : FsState) : FsState := { call w with streams := w.streams + 1 }

/-- `opendir`, with the names that `readdir` is going to give. -/
def opendir (w : FsState) (dirname : PathName) : Option (List FileName) × FsState :=
  match if env.refuse w.calls then none else w.fs.list dirname with
  | none => (none, call w)
  | some names => (some (env.order w.calls names), opened w)

def closedir (w : FsState) : FsState := { w with streams := w.streams - 1 }

/-- `remove`, and whether it returns 0. -/
def remove (w : FsState) (filename : PathName) : Bool × FsState :=
  match if env.refuse w.calls then none else w.fs.remove filename with
  | none => (false, call w)
  | some fs => (true, { call w with fs := fs })

/-- `IsDir`: `S_IFDIR` is one bit of `st_mode`, which some other types have as well. -/
def isDir (w : FsState) (filename : PathName) : Bool × FsState :=
  match if env.refuse w.calls then none else w.fs.stat filename with
  | none => (false, call w)
  | some st => ((w.fs.node st).format &&& 0o040000 != 0, call w)

/-- `snprintf` of `"%s/%s"` to the 256 bytes of `chBuf`, the last of which is a zero. -/
def chBuf (dirname : PathName) (name : FileName) : PathName := (dirname ++ slash :: name).take 255

/-- The loop of `DeleteDir`, which calls itself through `recur`.  A call without an end has no
result. -/
def deleteEntries (recur : FsState → PathName → Option ℤ × FsState) (dirname : PathName) :
    List FileName → FsState → Option ℤ × FsState
  | [], w => (some Status.noError.code, w)
  | name :: names, w =>
      if name = dot ∨ name = dotDot then deleteEntries recur dirname names w
      else
        match isDir env w (chBuf dirname name) with
        | (true, w) =>
            match recur w (chBuf dirname name) with
            | (none, w) => (none, w)
            | (some ret, w) =>
                if ret ≠ 0 then (some Status.unknownError.code, w)
                else deleteEntries recur dirname names w
        | (false, w) =>
            match remove env w (chBuf dirname name) with
            | (true, w) => deleteEntries recur dirname names w
            | (false, w) => (some Status.unknownError.code, w)

/-- `DeleteDir`, as far as `fuel` calls of itself within each other. -/
def deleteDir : ℕ → FsState → PathName → Option ℤ × FsState
  | 0, w, _ => (none, w)
  | fuel + 1, w, dirname =>
      match opendir env w dirname with
      | (none, w) => (some (-1), w)
      | (some names, w) =>
          match deleteEntries env (deleteDir fuel) dirname names w with
          | (some 0, w) =>
              match remove env (closedir w) dirname with
              | (true, w) => (some Status.noError.code, w)
              | (false, w) => (some Status.unknownError.code, w)
          | (ret, w) => (ret, w)

/-! ### What a call does to the file system -/

variable {env}

@[simp] theorem call_fs (w : FsState) : (call w).fs = w.fs := rfl

@[simp] theorem opened_fs (w : FsState) : (opened w).fs = w.fs := rfl

@[simp] theorem call_calls (w : FsState) : (call w).calls = w.calls + 1 := rfl

@[simp] theorem opened_calls (w : FsState) : (opened w).calls = w.calls + 1 := rfl

@[simp] theorem closedir_fs (w : FsState) : (closedir w).fs = w.fs := rfl

@[simp] theorem opendir_fs (w : FsState) (p : PathName) : (opendir env w p).2.fs = w.fs := by
  unfold opendir
  split <;> rfl

@[simp] theorem isDir_fs (w : FsState) (p : PathName) : (isDir env w p).2.fs = w.fs := by
  unfold isDir
  split <;> rfl

@[simp] theorem isDir_calls (w : FsState) (p : PathName) :
    (isDir env w p).2.calls = w.calls + 1 := by
  unfold isDir
  split <;> rfl

/-- A `stat` that is refused makes no directory. -/
theorem isDir_of_refused {w : FsState} {p : PathName} (h : env.refuse w.calls = true) :
    isDir env w p = (false, call w) := by
  simp only [isDir, h, if_true]

theorem list_of_opendir {w : FsState} {p : PathName} {names : List FileName}
    (h : (opendir env w p).1 = some names) :
    ∃ listed, w.fs.list p = some listed ∧ names.Perm listed := by
  unfold opendir at h
  split at h
  case h_1 => cases h
  case h_2 ns hns =>
    split at hns
    · cases hns
    · refine ⟨ns, hns, ?_⟩
      rw [← Option.some_inj.1 h]
      exact env.order_perm _ _

theorem remove_cases (w : FsState) (p : PathName) :
    (remove env w p).1 = false ∧ (remove env w p).2.fs = w.fs ∨
      (remove env w p).1 = true ∧ w.fs.remove p = some (remove env w p).2.fs := by
  unfold remove
  split
  case h_1 => exact .inl ⟨rfl, rfl⟩
  case h_2 fs hfs =>
    split at hfs
    · cases hfs
    · exact .inr ⟨rfl, hfs⟩

/-- What the call for each entry keeps, the loop keeps. -/
theorem deleteEntries_keeps (I : FsState → Prop)
    {recur : FsState → PathName → Option ℤ × FsState} {p : PathName} {names : List FileName}
    (hdir : ∀ n ∈ names, n ≠ dot → n ≠ dotDot → ∀ w, I w →
      (isDir env w (chBuf p n)).1 = true →
      I (recur (isDir env w (chBuf p n)).2 (chBuf p n)).2)
    (hfile : ∀ n ∈ names, n ≠ dot → n ≠ dotDot → ∀ w, I w →
      (isDir env w (chBuf p n)).1 = false →
      I (remove env (isDir env w (chBuf p n)).2 (chBuf p n)).2) :
    ∀ w, I w → I (deleteEntries env recur p names w).2 := by
  induction names with
  | nil => exact fun w hw => hw
  | cons n names ih =>
      intro w hw
      have hrest := ih (fun m hm => hdir m (List.mem_cons_of_mem _ hm))
        (fun m hm => hfile m (List.mem_cons_of_mem _ hm))
      rw [deleteEntries]
      split
      case isTrue => exact hrest w hw
      case isFalse hn =>
        obtain ⟨hdot, hdotDot⟩ := not_or.1 hn
        split
        case h_1 w₁ his =>
          have hcall := hdir n List.mem_cons_self hdot hdotDot w hw (congrArg Prod.fst his)
          rw [his] at hcall
          split
          case h_1 w₂ hret => rwa [hret] at hcall
          case h_2 ret w₂ hret =>
            rw [hret] at hcall
            split
            · exact hcall
            · exact hrest w₂ hcall
        case h_2 w₁ his =>
          have hcall := hfile n List.mem_cons_self hdot hdotDot w hw (congrArg Prod.fst his)
          rw [his] at hcall
          split
          case h_1 w₂ hret =>
            rw [hret] at hcall
            exact hrest w₂ hcall
          case h_2 w₂ hret => rwa [hret] at hcall

/-! ### The paths of a run -/

/-- The paths that a run on `d` builds. -/
inductive Visited (fs : FileSystem) (d : PathName) : PathName → Prop
  | self : Visited fs d d
  | entry {p i n j} : Visited fs d p → fs.stat p = some i → HasEntry fs.node i n j →
      Visited fs d (chBuf p n)

/-- A path that fits is not cut. -/
theorem chBuf_of_le {q : PathName} {n : FileName} (h : (q ++ slash :: n).length ≤ 255) :
    chBuf q n = q ++ slash :: n :=
  List.take_of_length_le h

/-- A path that fills the buffer is all of the path of its entries. -/
theorem chBuf_eq_self {q : PathName} {n : FileName} (h : q.length = 255) : chBuf q n = q := by
  rw [chBuf, ← h, List.take_left]

theorem chBuf_long {q : PathName} {n : FileName} (h : 255 ≤ q.length) :
    chBuf q n = q.take 255 :=
  List.take_append_of_le_length h

theorem chBuf_length_le (q : PathName) (n : FileName) : (chBuf q n).length ≤ 255 :=
  List.length_take_le _ _

/-- Two types pass for a directory. -/
def PassesForDir (nd : FsNode) : Prop := nd = .file .socket ∨ nd = .file .blockDevice

theorem format_and_ifdir (nd : FsNode) :
    (nd.format &&& 0o040000 != 0) = true ↔ (∃ d, nd = .dir d) ∨ PassesForDir nd := by
  cases nd with
  | dir d => exact iff_of_true (by decide : (0o040000 &&& 0o040000 != 0) = true) (.inl ⟨d, rfl⟩)
  | link t =>
      refine iff_of_false (by decide : ¬ (0o120000 &&& 0o040000 != 0) = true) ?_
      simp [PassesForDir]
  | file k => cases k <;> simp [PassesForDir, FsNode.format]

/-- What `IsDir` answers when its `stat` is not refused. -/
theorem isDir_eq_true_iff {w : FsState} {p : PathName} (h : env.refuse w.calls = false) :
    (isDir env w p).1 = true ↔
      ∃ j, w.fs.stat p = some j ∧ ((∃ d, w.fs.node j = .dir d) ∨ PassesForDir (w.fs.node j)) := by
  unfold isDir
  rw [h, if_neg Bool.false_ne_true]
  cases hstat : w.fs.stat p with
  | none => simp
  | some j => simp only [Option.some_inj, exists_eq_left', format_and_ifdir]

/-! ### Entries that are gone -/

/-- Entries of `P` are gone, and nothing else has changed. -/
def Shrunk (fs : FileSystem) (P : Set (Inode × FileName)) (fs' : FileSystem) : Prop :=
  ∃ T ⊆ P, fs' = fs.without T

theorem Shrunk.refl (fs : FileSystem) (P : Set (Inode × FileName)) : Shrunk fs P fs :=
  ⟨∅, Set.empty_subset P, (FileSystem.without_empty fs).symm⟩

theorem Shrunk.stat {fs cur : FileSystem} {P : Set (Inode × FileName)} {p : PathName} {i : Inode}
    (h : Shrunk fs P cur) (hs : cur.stat p = some i) : fs.stat p = some i := by
  obtain ⟨T, -, rfl⟩ := h
  exact FileSystem.stat_of_prune hs

/-- What is listed later was there from the start. -/
theorem Shrunk.list {fs cur : FileSystem} {P : Set (Inode × FileName)} {p : PathName}
    {listed : List FileName} (h : Shrunk fs P cur) (hlist : cur.list p = some listed) :
    ∃ i D, fs.stat p = some i ∧ fs.node i = .dir D ∧
      ∀ n ∈ listed, n ≠ dot → n ≠ dotDot → ∃ j, HasEntry fs.node i n j := by
  obtain ⟨i, D, hstat, hD, rfl⟩ := FileSystem.list_eq_some_iff.1 hlist
  obtain ⟨T, -, rfl⟩ := id h
  obtain ⟨D₀, hD₀, -⟩ := FileSystem.node_prune_eq_dir hD
  refine ⟨i, D₀, h.stat hstat, hD₀, ?_⟩
  intro n hn hdot hdotDot
  simp only [List.mem_cons, hdot, hdotDot, false_or, List.mem_map] at hn
  obtain ⟨⟨_, j⟩, hj, rfl⟩ := hn
  have hentry : HasEntry (fs.without T).node i _ j := ⟨D, hD, hj⟩
  exact ⟨j, (FileSystem.hasEntry_without.1 hentry).1⟩

/-- A type that passes for a directory is not changed by removals. -/
theorem Shrunk.passes {fs cur : FileSystem} {P : Set (Inode × FileName)} {j : Inode}
    (h : Shrunk fs P cur) (hj : PassesForDir (fs.node j)) : PassesForDir (cur.node j) := by
  obtain ⟨T, -, rfl⟩ := h
  exact hj.imp FileSystem.node_prune_eq_file.2 FileSystem.node_prune_eq_file.2

/-- The removal of `p` takes an entry of `P`, where only entries of `P` are gone.  What passes for a
directory is not removed when no call is refused. -/
def Takes (env : Answers) (fs : FileSystem) (P : Set (Inode × FileName)) (p : PathName) : Prop :=
  ∀ T ⊆ P, ∀ fs', (fs.without T).remove p = some fs' → ∀ e j, fs.place p = some e →
    HasEntry fs.node e.1 e.2 j → (env.Willing → ¬ PassesForDir (fs.node j)) → e ∈ P

/-- One more entry of `P` is gone after a removal. -/
theorem Shrunk.remove {fs cur fs' : FileSystem} {P : Set (Inode × FileName)} {p : PathName}
    (h : Shrunk fs P cur) (hr : cur.remove p = some fs') (hP : Takes env fs P p)
    (hplain : ∀ j, PassesForDir (fs.node j) → cur.stat p = some j → ¬ env.Willing) :
    Shrunk fs P fs' := by
  obtain ⟨T, hT, rfl⟩ := h
  obtain ⟨e, j, hplace, hentry, rfl, hstat⟩ := FileSystem.remove_without hr
  refine ⟨T ∪ {e}, Set.union_subset hT ?_, rfl⟩
  rintro _ rfl
  refine hP T hT _ hr _ j hplace hentry fun hwilling hpass => ?_
  exact hplain j hpass (hstat fun t ht => by simp [PassesForDir, ht] at hpass) hwilling

/-! ### A run only takes away what its paths may take -/

section Shrinks

variable {fs : FileSystem} {V : PathName → Prop} {P : Set (Inode × FileName)}

/-- The removal of a path for which `IsDir` said no. -/
theorem remove_shrinks_of_isDir {w : FsState} {p : PathName} (hp : Takes env fs P p)
    (hw : Shrunk fs P w.fs) (hno : (isDir env w p).1 = false) :
    Shrunk fs P (remove env (isDir env w p).2 p).2.fs := by
  rcases remove_cases (isDir env w p).2 p with ⟨-, hfs⟩ | ⟨-, hrm⟩
  · rwa [hfs, isDir_fs]
  · rw [isDir_fs] at hrm
    refine hw.remove hrm hp fun j hpass hstat hwilling => ?_
    have hyes := (isDir_eq_true_iff (hwilling w.calls)).2 ⟨j, hstat, .inr (hw.passes hpass)⟩
    exact absurd (hno.symm.trans hyes) Bool.false_ne_true

/-- The removal of a path that was listed before. -/
theorem Shrunk.remove_listed {cur fs' : FileSystem} {p : PathName} {i : Inode} {D : Directory}
    (hw : Shrunk fs P cur) (hrm : cur.remove p = some fs') (hp : Takes env fs P p)
    (hi : fs.stat p = some i) (hD : fs.node i = .dir D) : Shrunk fs P fs' := by
  refine hw.remove hrm hp fun j hpass hstat _ => ?_
  obtain rfl : i = j := Option.some_inj.1 (hi.symm.trans (hw.stat hstat))
  simp [PassesForDir, hD] at hpass

theorem deleteEntries_shrinks {recur : FsState → PathName → Option ℤ × FsState} {p : PathName}
    (htakes : ∀ q, V q → Takes env fs P q)
    (hrec : ∀ w q, V q → Shrunk fs P w.fs → Shrunk fs P (recur w q).2.fs) {names : List FileName}
    (hnames : ∀ n ∈ names, n ≠ dot → n ≠ dotDot → V (chBuf p n)) {w : FsState}
    (hw : Shrunk fs P w.fs) : Shrunk fs P (deleteEntries env recur p names w).2.fs := by
  refine deleteEntries_keeps (fun w => Shrunk fs P w.fs) ?_ ?_ w hw
  · intro n hn hdot hdotDot w hw _
    refine hrec _ _ (hnames n hn hdot hdotDot) ?_
    rwa [isDir_fs]
  · exact fun n hn hdot hdotDot w hw hno =>
      remove_shrinks_of_isDir (htakes _ (hnames n hn hdot hdotDot)) hw hno

/-- A run without a last removal, or what it is before that one. -/
theorem deleteDir_succ_last {fuel : ℕ} {w : FsState} {d : PathName}
    (htakes : ∀ q, V q → Takes env fs P q)
    (hrec : ∀ w q, V q → Shrunk fs P w.fs → Shrunk fs P (deleteDir env fuel w q).2.fs)
    (hbuilds : ∀ i n j, fs.stat d = some i → HasEntry fs.node i n j → V (chBuf d n))
    (hw : Shrunk fs P w.fs) :
    (deleteDir env (fuel + 1) w d).1 ≠ some Status.noError.code ∧
        Shrunk fs P (deleteDir env (fuel + 1) w d).2.fs ∨
      ∃ cur i D, Shrunk fs P cur ∧ fs.stat d = some i ∧ fs.node i = .dir D ∧
        cur.remove d = some (deleteDir env (fuel + 1) w d).2.fs := by
  have hopen : Shrunk fs P (opendir env w d).2.fs := by rwa [opendir_fs]
  rw [deleteDir]
  split
  case h_1 w₁ hdir =>
    rw [hdir] at hopen
    exact .inl ⟨by simp [Status.code], hopen⟩
  case h_2 names w₁ hdir =>
    rw [hdir] at hopen
    obtain ⟨listed, hlist, hperm⟩ := list_of_opendir (congrArg Prod.fst hdir)
    obtain ⟨i, D, hi, hD, hnames⟩ := hw.list hlist
    have hloop := deleteEntries_shrinks htakes hrec (fun n hn hdot hdotDot => by
      obtain ⟨j, hj⟩ := hnames n (hperm.subset hn) hdot hdotDot
      exact hbuilds i n j hi hj) hopen
    split
    case h_1 w₂ hdone =>
      rw [hdone] at hloop
      rcases @remove_cases env (closedir w₂) d with ⟨hno, hfs⟩ | ⟨hyes, hrm⟩
      · left
        split
        case h_1 w₃ hret =>
          exact absurd (hno.symm.trans (congrArg Prod.fst hret)) Bool.false_ne_true
        case h_2 w₃ hret =>
          rw [hret] at hfs
          refine ⟨by simp [Status.code], ?_⟩
          rw [hfs]
          exact hloop
      · right
        refine ⟨w₂.fs, i, D, hloop, hi, hD, ?_⟩
        split
        case h_1 w₃ hret => rwa [hret] at hrm
        case h_2 w₃ hret => rwa [hret] at hrm
    case h_2 ret w₂ hne hdone =>
      rw [hdone] at hloop
      exact .inl ⟨hne, hloop⟩

/-- A run on a path of `V` only takes entries of `P` away. -/
theorem deleteDir_shrinks (htakes : ∀ q, V q → Takes env fs P q)
    (hbuilds : ∀ q i n j, V q → fs.stat q = some i → HasEntry fs.node i n j → V (chBuf q n))
    (fuel : ℕ) : ∀ w q, V q → Shrunk fs P w.fs → Shrunk fs P (deleteDir env fuel w q).2.fs := by
  induction fuel with
  | zero => exact fun w q _ hw => hw
  | succ fuel ih =>
      intro w q hq hw
      rcases deleteDir_succ_last htakes ih (fun i n j => hbuilds q i n j hq) hw with
        ⟨-, hfs⟩ | ⟨cur, i, D, hcur, hi, hD, hrm⟩
      · exact hfs
      · exact hcur.remove_listed hrm (htakes q hq) hi hD

/-- Before its last removal a run has taken what its entries may take. -/
theorem deleteDir_last (htakes : ∀ q, V q → Takes env fs P q)
    (hbuilds : ∀ q i n j, V q → fs.stat q = some i → HasEntry fs.node i n j → V (chBuf q n))
    {fuel : ℕ} {w : FsState} {d : PathName}
    (hd : ∀ i n j, fs.stat d = some i → HasEntry fs.node i n j → V (chBuf d n))
    (hw : Shrunk fs P w.fs) :
    (deleteDir env fuel w d).1 ≠ some Status.noError.code ∧
        Shrunk fs P (deleteDir env fuel w d).2.fs ∨
      ∃ cur i D, Shrunk fs P cur ∧ fs.stat d = some i ∧ fs.node i = .dir D ∧
        cur.remove d = some (deleteDir env fuel w d).2.fs := by
  cases fuel with
  | zero => exact .inl ⟨nofun, hw⟩
  | succ fuel => exact deleteDir_succ_last htakes (deleteDir_shrinks htakes hbuilds fuel) hd hw

end Shrinks

/-! ### Call by call -/

variable {w w₁ w₂ w₃ : FsState} {p : PathName} {n : FileName} {names : List FileName}
  {recur : FsState → PathName → Option ℤ × FsState}

theorem opendir_eq {i : Inode} {D : Directory} (h : env.refuse w.calls = false)
    (hi : w.fs.stat p = some i) (hD : w.fs.node i = .dir D) :
    opendir env w p =
      (some (env.order w.calls (dot :: dotDot :: D.entries.map Prod.fst)), opened w) := by
  have hlist := FileSystem.list_eq_some_iff.2 ⟨i, D, hi, hD, rfl⟩
  simp only [opendir, h, if_neg Bool.false_ne_true, hlist]

theorem remove_eq {fs : FileSystem} (h : env.refuse w.calls = false)
    (hrm : w.fs.remove p = some fs) : remove env w p = (true, { call w with fs := fs }) := by
  simp only [remove, h, if_neg Bool.false_ne_true, hrm]

/-- A run that comes to its end. -/
theorem deleteDir_eq_ok {fuel : ℕ} (hopen : opendir env w p = (some names, w₁))
    (hloop : deleteEntries env (deleteDir env fuel) p names w₁ =
      (some Status.noError.code, w₂))
    (hrm : remove env (closedir w₂) p = (true, w₃)) :
    deleteDir env (fuel + 1) w p = (some Status.noError.code, w₃) := by
  rw [Status.code] at hloop
  simp only [deleteDir, hopen, hloop, hrm]

/-- The two names that every directory has are passed over. -/
theorem deleteEntries_cons_dot (hn : n = dot ∨ n = dotDot) :
    deleteEntries env recur p (n :: names) w = deleteEntries env recur p names w := by
  rw [deleteEntries, if_pos hn]

/-- The loop for an entry that `IsDir` takes for a directory. -/
theorem deleteEntries_cons_dir (hn : Valid n) (hdir : (isDir env w (chBuf p n)).1 = true) :
    deleteEntries env recur p (n :: names) w =
      match recur (isDir env w (chBuf p n)).2 (chBuf p n) with
      | (none, w) => (none, w)
      | (some ret, w) =>
          if ret ≠ 0 then (some Status.unknownError.code, w)
          else deleteEntries env recur p names w := by
  have his : isDir env w (chBuf p n) = (true, (isDir env w (chBuf p n)).2) := Prod.ext hdir rfl
  rw [deleteEntries, if_neg (not_or.2 ⟨hn.2.1, hn.2.2.1⟩), his]

/-- The loop for an entry that is removed. -/
theorem deleteEntries_cons_file (hn : Valid n) (hdir : (isDir env w (chBuf p n)).1 = false)
    (hrm : remove env (isDir env w (chBuf p n)).2 (chBuf p n) = (true, w₂)) :
    deleteEntries env recur p (n :: names) w = deleteEntries env recur p names w₂ := by
  have his : isDir env w (chBuf p n) = (false, (isDir env w (chBuf p n)).2) := Prod.ext hdir rfl
  rw [deleteEntries, if_neg (not_or.2 ⟨hn.2.1, hn.2.2.1⟩), his]
  dsimp only
  rw [hrm]

end CFileUtils

end VModule

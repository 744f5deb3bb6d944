/-
**A directory that `MakeDir` has made.**

`MakeDir` makes at most one directory, and `DeleteDir` of it undoes what `MakeDir` has done: every
path leads to what it led to before.  The functions are those of `VModule/MakeDir.lean` and
`VModule/DeleteDir.lean`.

Main definitions:

* `FileSystem.Held` — what hangs from the root.

Main results:

* `FileSystem.stat_undone` — a new directory that is taken away leaves no trace;
* `VModule.make_delete_dir` — **`DeleteDir` undoes `MakeDir`**.
-/

import VModule.DeleteDir
import VModule.MakeDir

set_option relaxedAutoImplicit false
set_option autoImplicit false

open PathName

namespace FileSystem

variable {fs gs : FileSystem} {i j k : Inode} {n : FileName} {p : PathName}

/-! ### What hangs from the root -/

/-- What hangs from the root. -/
inductive Held (fs : FileSystem) : Inode → Prop
  | root : Held fs fs.root
  | entry {i j : Inode} {n : FileName} : Held fs i → HasEntry fs.node i n j → Held fs j

theorem Held.lt (h : fs.Held i) : i < fs.next := by
  cases h with
  | root => exact fs.root_lt
  | entry _ hentry => exact fs.entry_lt hentry

theorem Held.parent {d : Directory} (h : fs.Held i) (hd : fs.node i = .dir d) :
    fs.Held d.parent := by
  cases h with
  | root =>
      rw [fs.root_top hd]
      exact .root
  | entry hi hentry =>
      rw [fs.parent_eq hentry hd]
      exact hi

/-- A step stays with what hangs from the root. -/
theorem Held.step (h : fs.Held i) (hj : fs.step i n = some j) : fs.Held j := by
  rcases step_eq_some_iff.1 hj with hentry | ⟨d, hd, ⟨-, rfl⟩ | ⟨-, rfl⟩⟩
  · exact h.entry hentry
  · exact h
  · exact h.parent hd

/-- What hangs from the root is found again where its nodes are the same. -/
theorem stat_congr (hroot : gs.root = fs.root) (hcwd : gs.cwd = fs.cwd)
    (hnode : ∀ i, fs.Held i → gs.node i = fs.node i)
    (hp : p.head? = some slash ∨ fs.Held fs.cwd) : gs.stat p = fs.stat p := by
  have hstart : fs.Held (fs.start fs.cwd p) := by
    unfold start
    split
    case isTrue => exact .root
    case isFalse h => exact hp.resolve_left h
  have hwalk : ∀ k, (∃ used, gs.Walk linkMax (fs.start fs.cwd p) (comps p) used k) ↔
      ∃ used, fs.Walk linkMax (fs.start fs.cwd p) (comps p) used k := by
    intro k
    constructor
    · intro h
      obtain ⟨used, h⟩ := h
      refine ⟨used, Walk.simulate (R := {i | fs.Held i}) hroot.symm ?_ ?_ ?_ h hstart⟩
      · rw [hroot]
        exact .root
      · intro i hi n j hj
        rw [step_congr (hnode i hi)] at hj
        exact ⟨hj, Held.step hi hj⟩
      · intro i hi t
        rw [hnode i hi]
    · intro h
      obtain ⟨used, h⟩ := h
      refine ⟨used, Walk.simulate (R := {i | fs.Held i}) hroot .root ?_ ?_ h hstart⟩
      · intro i hi n j hj
        exact ⟨by rw [step_congr (hnode i hi), hj], Held.step hi hj⟩
      · intro i hi t
        rw [hnode i hi]
  have hstart' : gs.start gs.cwd p = fs.start fs.cwd p := by rw [start, start, hroot, hcwd]
  refine Option.ext fun k => ?_
  rw [stat_eq_some_iff, stat_eq_some_iff, hstart', hwalk k]

/-! ### A new directory that is taken away -/

section WithDir

variable {d : Directory} {mode : ℕ} {hd : fs.node i = .dir d}
  {hn : Valid n ∧ n ∉ d.entries.map Prod.fst}

/-- Every inode but the new one is as it was before. -/
theorem node_undone (hj : j ≠ fs.next) :
    ((fs.withDir i d n mode hd hn).without {(i, n)}).node j = fs.node j := by
  by_cases hji : j = i
  · subst hji
    have hkept : d.entries.filter (fun e => !decide (e.1 = n)) = d.entries := by
      refine List.filter_eq_self.2 fun e he => ?_
      rw [Bool.not_eq_true', decide_eq_false_iff_not]
      rintro rfl
      exact hn.2 (List.mem_map_of_mem he)
    simp [without, prune, node_withDir_self, FsNode.prune, hd, hkept]
  · have hsame : (fs.withDir i d n mode hd hn).node j = fs.node j := node_withDir_of_ne hji hj
    cases hnode : fs.node j with
    | dir d' =>
        refine node_without_of_kept (hsame.trans hnode) fun m _ _ hmem => hji ?_
        exact congrArg Prod.fst (Set.mem_singleton_iff.1 hmem)
    | file kind => simp [without, prune, hsame, hnode, FsNode.prune]
    | link t => simp [without, prune, hsame, hnode, FsNode.prune]

/-- **A new directory that is taken away leaves no trace.** -/
theorem stat_undone {q : PathName} (hq : q.head? = some slash ∨ fs.Held fs.cwd) :
    ((fs.withDir i d n mode hd hn).without {(i, n)}).stat q = fs.stat q :=
  stat_congr rfl rfl (fun _ hj => node_undone (Nat.ne_of_lt hj.lt)) hq

end WithDir

end FileSystem

namespace VModule

open CFileUtils

namespace CFileUtils

variable {env : Answers}

/-- The loop passes over the two names that every directory has. -/
theorem deleteEntries_dots {recur : FsState → PathName → Option ℤ × FsState} {p : PathName}
    {names : List FileName} (h : ∀ n ∈ names, n = dot ∨ n = dotDot) (w : FsState) :
    deleteEntries env recur p names w = (some Status.noError.code, w) := by
  induction names with
  | nil => rfl
  | cons n names ih =>
      rw [deleteEntries, if_pos (h n List.mem_cons_self)]
      exact ih fun m hm => h m (List.mem_cons_of_mem n hm)

/-- A directory without entries is removed. -/
theorem deleteDir_empty (hw : env.Willing) {w : FsState} {p : PathName} {gs : FileSystem}
    (hlist : w.fs.list p = some [dot, dotDot]) (hremove : w.fs.remove p = some gs) (fuel : ℕ) :
    deleteDir env (fuel + 1) w p =
      (some Status.noError.code, ⟨gs, w.calls + 2, w.streams⟩) := by
  have hopen : opendir env w p = (some (env.order w.calls [dot, dotDot]), opened w) := by
    simp [opendir, hw w.calls, hlist]
  have hdots : ∀ n ∈ env.order w.calls [dot, dotDot], n = dot ∨ n = dotDot := by
    intro n hn
    simpa using (env.order_perm w.calls [dot, dotDot]).mem_iff.1 hn
  have hclosed : remove env (closedir (opened w)) p = (true, ⟨gs, w.calls + 2, w.streams⟩) := by
    simp [remove, hw _, hremove, closedir, opened, call]
  simp only [deleteDir, hopen, deleteEntries_dots hdots]
  rw [show Status.noError.code = 0 from rfl]
  simp only [hclosed]

/-- What `MakeDir` does to the file system, if anything, is a call of `mkdir`. -/
theorem makeDir_cases (o : Refusals) (fs : FileSystem) (path : PathName) (mode : UInt8) :
    (makeDir o fs path mode).2 = fs ∨ ∃ q, firstSuccess o fs mode path = some q ∧
      fs.mkdir q mode.toNat = .ok (makeDir o fs path mode).2 := by
  rw [makeDir_eq]
  cases firstSuccess o fs mode path with
  | none => exact .inl rfl
  | some q =>
      simp only [inPlace]
      cases if o.stat q then none else fs.stat q with
      | some st => exact .inl rfl
      | none =>
          cases hmkdir : fs.mkdir q mode.toNat with
          | error e => exact .inl rfl
          | ok gs => exact .inr ⟨q, rfl, hmkdir⟩

/-- The first success is on the way to the path, or it is the path. -/
theorem endsBeforeSlash_of_firstSuccess {o : Refusals} {fs : FileSystem} {path q : PathName}
    {mode : UInt8} (h : firstSuccess o fs mode path = some q) :
    EndsBeforeSlash path q ∨ q = path := by
  rcases List.mem_append.1 (List.mem_of_find?_eq_some h) with hmem | hmem
  · exact .inl ((mem_tries_iff path q).1 hmem).1
  · exact .inr (List.mem_singleton.1 hmem)

end CFileUtils

/-- **`DeleteDir` undoes `MakeDir`.**  Whatever path `MakeDir` is called with and whatever calls are
refused, it leaves the file system as it was or makes one directory, on the way to the path or at
its end.  `DeleteDir` of that one returns `OK`; then every path from the root, or from a working
directory that hangs from the root, leads where it led before `MakeDir` was called, and finds there
what it found. -/
theorem make_delete_dir (env : Answers) (hw : env.Willing) (o : Refusals) (fs : FileSystem)
    (path : PathName) (mode : UInt8) :
    (makeDir o fs path mode).2 = fs ∨
    ∃ q, (EndsBeforeSlash path q ∨ q = path) ∧ fs.stat q = none ∧
      (makeDir o fs path mode).2.IsDirectory q ∧ ∃ gs : FileSystem, (∀ fuel calls streams,
        deleteDir env (fuel + 1) ⟨(makeDir o fs path mode).2, calls, streams⟩ q =
          (some Status.noError.code, ⟨gs, calls + 2, streams⟩)) ∧
      (∀ i, fs.Held i → gs.node i = fs.node i) ∧
      ∀ p, p.head? = some slash ∨ fs.Held fs.cwd → gs.stat p = fs.stat p := by
  rcases makeDir_cases o fs path mode with hsame | ⟨q, hfirst, hmkdir⟩
  · exact .inl hsame
  · obtain ⟨i, n, d, hd, hn, hplace, hmade⟩ := FileSystem.mkdir_eq_ok hmkdir
    rw [hmade]
    refine .inr ⟨q, endsBeforeSlash_of_firstSuccess hfirst, FileSystem.stat_of_new hd hn.2 hplace,
      ⟨_, _, FileSystem.stat_withDir hplace, FileSystem.node_withDir_next⟩,
      (fs.withDir i d n mode.toNat hd hn).without {(i, n)}, ?_, ?_, ?_⟩
    · intro fuel calls streams
      have hlist : (fs.withDir i d n mode.toNat hd hn).list q = some [dot, dotDot] :=
        FileSystem.list_withDir hplace
      have hremove : (fs.withDir i d n mode.toNat hd hn).remove q =
          some ((fs.withDir i d n mode.toNat hd hn).without {(i, n)}) :=
        FileSystem.remove_withDir hplace
      exact deleteDir_empty hw (w := ⟨_, calls, streams⟩) hlist hremove fuel
    · intro j hj
      exact FileSystem.node_undone (Nat.ne_of_lt hj.lt)
    · intro p hp
      exact FileSystem.stat_undone hp

/-- `"a/b"` below an empty root: `"a"` is made, and goes again. -/
theorem make_delete_dir_first : ∃ q gs,
    deleteDir .plain 1 ⟨(makeDir .none (.bare 0o700) [97, slash, 98] 0o300).2, 0, 0⟩ q =
      (some 0, ⟨gs, 2, 0⟩) ∧
    gs.stat [slash, 97] = none := by
  rcases make_delete_dir .plain Answers.plain_willing .none (.bare 0o700) [97, slash, 98] 0o300
    with hsame | ⟨q, -, -, -, gs, hdelete, -, hstat⟩
  · have hnext : (makeDir .none (.bare 0o700) [97, slash, 98] 0o300).2.next = 2 := by decide
    rw [hsame] at hnext
    exact absurd hnext (by decide)
  · exact ⟨q, gs, hdelete 0 0 0, (hstat [slash, 97] (.inl rfl)).trans (by decide)⟩

end VModule

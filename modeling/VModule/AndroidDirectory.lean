/-
**`CFileUtils::GetCurrentDirectory` of `sutils/FileUtils.cpp`, on Android.**

The function names a directory of its own, which it is to make if it is not there.  `DirExist`
looks for it with `opendir` and never closes the stream, and `MakeDir` leaves with its first
success, which is `/data`.  So the directory is made only where `/data` can neither be read nor
made.  The name is copied whatever the size of the buffer is said to be.

Main definitions:

* `VModule.CFileUtils.dirExist`, `VModule.CFileUtils.strcpy`,
  `VModule.CFileUtils.getCurrentDirectoryAndroid` — the functions.

Main results:

* `VModule.android_directory` — **what the call returns and leaves**.
-/

import VModule.CurrentDirectory
import VModule.MadeDirectories

set_option relaxedAutoImplicit false
set_option autoImplicit false

open PathName

namespace VModule

open Bytes

namespace CFileUtils

/-! ### The functions -/

/-- `DirExist`, which leaves the stream open; there is no name if the pointer is `NULL`. -/
def dirExist (env : Answers) (w : FsState) : Option PathName → Bool × FsState
  | none => (false, w)
  | some dirname =>
      match opendir env w dirname with
      | (none, w) => (false, w)
      | (some _, w) => (true, w)

/-- `"/data"`. -/
def dataDir : PathName := [47, 100, 97, 116, 97]

/-- `"/data/vmodule"`. -/
def vmoduleDir : PathName := [47, 100, 97, 116, 97, 47, 118, 109, 111, 100, 117, 108, 101]

/-- `S_IRUSR | S_IWUSR | S_IXUSR`, of which a `uint8_t` has no more than `0300`. -/
def ownerMode : UInt8 := UInt8.ofNat 0o700

/-- `strcpy` to a buffer of `capacity` bytes. -/
def strcpy (capacity : ℕ) (name : ℕ → UInt8) (src : List UInt8) : Option (ℕ → UInt8) :=
  if src.length < capacity then some (store name 0 (src ++ [0])) else none

/-- `GetCurrentDirectory` with a buffer of `capacity` bytes, whatever `size` says. -/
def getCurrentDirectoryAndroid (env : Answers) (o : Refusals) (capacity : ℕ) (_size : ℤ)
    (name : ℕ → UInt8) (w : FsState) : Option (ℤ × (ℕ → UInt8)) × FsState :=
  match dirExist env w (some vmoduleDir) with
  | (found, w) =>
      let w := if found then w else { w with fs := (makeDir o w.fs vmoduleDir ownerMode).2 }
      ((strcpy capacity name vmoduleDir).bind fun name =>
        (strlen capacity name).map fun len : ℕ => ((len : ℤ), name), w)

/-! ### What it does -/

variable {env : Answers} {o : Refusals} {w : FsState} {fs : FileSystem}

/-- A directory that `opendir` opens is there. -/
theorem isDirectory_of_opendir {p : PathName} (h : (opendir env w p).1.isSome = true) :
    w.fs.IsDirectory p := by
  obtain ⟨names, hnames⟩ := Option.isSome_iff_exists.1 h
  obtain ⟨listed, hlist, -⟩ := list_of_opendir hnames
  obtain ⟨i, d, hi, hd, -⟩ := FileSystem.list_eq_some_iff.1 hlist
  exact ⟨i, d, hi, hd⟩

theorem streams_of_opendir (env : Answers) (w : FsState) (p : PathName) :
    (opendir env w p).2.streams = w.streams + if (opendir env w p).1.isSome then 1 else 0 := by
  unfold opendir
  split
  · rfl
  · rfl

/-- The loop is about `/data`, and then the whole path is tried. -/
theorem firstSuccess_vmoduleDir (o : Refusals) (fs : FileSystem) (mode : UInt8) :
    firstSuccess o fs mode vmoduleDir = [dataDir, vmoduleDir].find? (accepts o fs mode) := rfl

/-- What is made in a directory is made in a directory. -/
theorem isDirectory_of_place {q : PathName} {m n : FileName} {i : Inode} {d : Directory}
    (hm : Valid m) (hq : q.getLast? ≠ some slash)
    (hplace : fs.place (q ++ slash :: m) = some (i, n)) (hd : fs.node i = .dir d) (hne : q ≠ []) :
    fs.IsDirectory q := by
  obtain ⟨ns, used, hp, -, hw⟩ := FileSystem.place_eq_some_iff.1 hplace
  rw [pieces_concat q hm] at hp
  obtain ⟨rfl, -⟩ := List.append_inj' hp rfl
  rw [FileSystem.start_append _ _ _ hne] at hw
  have hcomps : comps q = pieces q := by rw [comps, if_neg hq, List.append_nil]
  exact ⟨i, d, FileSystem.Walk.stat hne (hcomps ▸ hw), hd⟩

/-- Nothing is made where the directory is. -/
theorem makeDir_of_isDirectory (mode : UInt8) (h : fs.IsDirectory vmoduleDir) :
    (makeDir o fs vmoduleDir mode).2 = fs := by
  rcases makeDir_cases o fs vmoduleDir mode with hsame | ⟨q, hfirst, hmkdir⟩
  · exact hsame
  · obtain ⟨i, n, d, hd, hn, hplace, -⟩ := FileSystem.mkdir_eq_ok hmkdir
    have hnone := FileSystem.stat_of_new hd hn.2 hplace
    have hq : fs.IsDirectory q := by
      rcases endsBeforeSlash_of_firstSuccess hfirst with hends | rfl
      · exact isDirectory_of_endsBeforeSlash hends h
      · exact h
    obtain ⟨k, -, hk, -⟩ := hq
    rw [hnone] at hk
    cases hk

/-- **When `MakeDir` makes the directory**: `/data` can neither be read nor made, and yet the
directory can be made in it. -/
theorem makeDir_vmoduleDir_iff (mode : UInt8) :
    (makeDir o fs vmoduleDir mode).2.IsDirectory vmoduleDir ↔ fs.IsDirectory vmoduleDir ∨
      (o.stat dataDir = true ∧ o.mkdir dataDir = true) ∧ o.mkdir vmoduleDir = false ∧
        ∃ gs, fs.mkdir vmoduleDir mode.toNat = .ok gs := by
  constructor
  · intro h
    rcases makeDir_cases o fs vmoduleDir mode with hsame | ⟨q, hfirst, hmkdir⟩
    · rw [hsame] at h
      exact .inl h
    · obtain ⟨i, n, d, hd, hn, hplace, hmade⟩ := FileSystem.mkdir_eq_ok hmkdir
      rw [firstSuccess_vmoduleDir, List.find?_cons] at hfirst
      cases hdata : accepts o fs mode dataDir with
      | true =>
          -- the new directory is `/data`, and there is nothing below
          rw [hdata] at hfirst
          cases hfirst
          obtain ⟨k, -, hk, -⟩ := h
          rw [hmade] at hk
          have hnone : (fs.withDir i d n mode.toNat hd hn).stat vmoduleDir = none :=
            FileSystem.stat_below_new hplace (m := [118, 109, 111, 100, 117, 108, 101]) (by decide)
          cases hnone.symm.trans hk
      | false =>
          rw [hdata, List.find?_cons] at hfirst
          cases haccepts : accepts o fs mode vmoduleDir with
          | false =>
              rw [haccepts] at hfirst
              cases hfirst
          | true =>
              rw [haccepts] at hfirst
              cases hfirst
              -- `/data` is there, for the directory is made in it
              have hnone := FileSystem.stat_of_new hd hn.2 hplace
              have hparent : fs.IsDirectory dataDir :=
                isDirectory_of_place (m := [118, 109, 111, 100, 117, 108, 101]) (by decide)
                  (by decide) hplace hd (by decide)
              refine .inr ⟨?_, ?_, _, hmkdir⟩
              · by_contra hrefused
                rw [accepts_of_isDirectory mode hparent hrefused] at hdata
                cases hdata
              · rw [← Bool.not_eq_true]
                intro hrefused
                rw [accepts, hnone, ite_self, hrefused] at haccepts
                cases haccepts
  · intro h
    rcases h with h | ⟨⟨hstat, hmkdir⟩, hallowed, gs, hgs⟩
    · rw [makeDir_of_isDirectory mode h]
      exact h
    · obtain ⟨i, n, d, hd, hn, hplace, hmade⟩ := FileSystem.mkdir_eq_ok hgs
      have hnone := FileSystem.stat_of_new hd hn.2 hplace
      have hdata : accepts o fs mode dataDir = false := by
        simp [accepts, hstat, hmkdir]
      have hvmodule : accepts o fs mode vmoduleDir = true := by
        simp [accepts, hnone, hallowed, hgs]
      have hfirst : firstSuccess o fs mode vmoduleDir = some vmoduleDir := by
        rw [firstSuccess_vmoduleDir, List.find?_cons, hdata, List.find?_cons, hvmodule]
      have hmakes : (makeDir o fs vmoduleDir mode).2 = gs := by
        rw [makeDir_eq, hfirst]
        simp [inPlace, hnone, hgs]
      rw [hmakes, hmade]
      exact ⟨_, _, FileSystem.stat_withDir hplace, FileSystem.node_withDir_next⟩

/-- A string that fits is copied, and its length is found again. -/
theorem strlen_strcpy {capacity : ℕ} {name : ℕ → UInt8} {src : List UInt8}
    (hsrc : (0 : UInt8) ∉ src) (hfits : src.length < capacity) :
    strlen capacity (store name 0 (src ++ [0])) = some src.length := by
  have hcell : ∀ i (hi : i < (src ++ [0]).length),
      store name 0 (src ++ [0]) i = (src ++ [0])[i] :=
    fun _ hi => store_zero_of_lt name hi
  refine strlen_eq_some_iff.2 ⟨hfits, ?_, ?_⟩
  · rw [hcell _ (by simp)]
    simp
  · intro j hj
    rw [hcell j (by simp; omega), List.getElem_append_left hj]
    intro hzero
    exact hsrc (hzero ▸ List.getElem_mem hj)

end CFileUtils

open CFileUtils

/-- **What `GetCurrentDirectory` returns and leaves on Android.**  It returns the name in any buffer
that has room for it, whatever size it is told, and writes beyond a buffer that has not.  If the
directory is there it leaves a stream open.  The directory is there afterwards exactly if it was
there before, or could not be opened, `/data` could neither be read nor made, and yet the directory
could be made in it. -/
theorem android_directory (env : Answers) (o : Refusals) (capacity : ℕ) (size : ℤ)
    (name : ℕ → UInt8) (w : FsState) :
    (getCurrentDirectoryAndroid env o capacity size name w).1 =
      (if 13 < capacity then some (13, store name 0 (vmoduleDir ++ [0])) else none) ∧
    (getCurrentDirectoryAndroid env o capacity size name w).2.streams =
      w.streams + (if (opendir env w vmoduleDir).1.isSome then 1 else 0) ∧
    ((getCurrentDirectoryAndroid env o capacity size name w).2.fs.IsDirectory vmoduleDir ↔
      w.fs.IsDirectory vmoduleDir ∨ (opendir env w vmoduleDir).1 = none ∧
        (o.stat dataDir = true ∧ o.mkdir dataDir = true) ∧ o.mkdir vmoduleDir = false ∧
          ∃ gs, w.fs.mkdir vmoduleDir ownerMode.toNat = .ok gs) := by
  have hname : ((strcpy capacity name vmoduleDir).bind fun name =>
      (strlen capacity name).map fun len : ℕ => ((len : ℤ), name)) =
        if 13 < capacity then some (13, store name 0 (vmoduleDir ++ [0])) else none := by
    have hlen : vmoduleDir.length = 13 := rfl
    rw [strcpy, hlen]
    split
    case isTrue h =>
      rw [Option.bind_some, strlen_strcpy (by decide) (by rw [hlen]; exact h), hlen]
      rfl
    case isFalse => rfl
  have hstreams := streams_of_opendir env w vmoduleDir
  have hfs : (opendir env w vmoduleDir).2.fs = w.fs := opendir_fs w vmoduleDir
  cases hopen : opendir env w vmoduleDir with
  | mk names w' =>
      rw [hopen] at hstreams hfs
      cases names with
      | none =>
          simp only [getCurrentDirectoryAndroid, dirExist, hopen]
          refine ⟨hname, hstreams, ?_⟩
          simp only [Bool.false_eq_true, if_false, true_and]
          rw [hfs]
          exact makeDir_vmoduleDir_iff ownerMode
      | some names =>
          simp only [getCurrentDirectoryAndroid, dirExist, hopen]
          refine ⟨hname, hstreams, ?_⟩
          have hfound : (opendir env w vmoduleDir).1.isSome = true := by rw [hopen]; rfl
          have hdir : w.fs.IsDirectory vmoduleDir := isDirectory_of_opendir hfound
          refine iff_of_true ?_ (.inl hdir)
          simp only [if_true]
          rw [hfs]
          exact hdir

end VModule

/-
**The directory streams that `CFileUtils::DeleteDir` leaves open.**

The function returns from its loop without `closedir` when the deletion of an entry fails, and so
does every call of it that waits for this one.  No call closes a stream that it did not open, so
that nothing makes up for it.

Main definitions:

* `VModule.CFileUtils.deleteEntry` — what the loop does with one entry;
* `VModule.CFileUtils.Fails`, `VModule.CFileUtils.LeavesOpen` — the deletion of an entry fails, and
  a run on `d` meets such an entry while it has `d` open;
* `VModule.KeepsStreams` — what is asked of the function.

Main results:

* `VModule.CFileUtils.deleteEntries_ne_zero_iff` — the loop is left at the first entry that fails;
* `VModule.CFileUtils.deleteDir_cases` — the ways in which a call returns;
* `VModule.CFileUtils.deleteDir_streams` — a call does not close more than it opens, and as much
  when it returns 0;
* `VModule.deleteDir_streams_iff` — **when a run leaves streams open**, and for which directories
  some run does.
-/

import VModule.DeleteDirRuns

set_option relaxedAutoImplicit false
set_option autoImplicit false

namespace VModule

open PathName

namespace CFileUtils

/-! ### One entry -/

section Entry

variable (env : Answers) (recur : FsState → PathName → Option ℤ × FsState)

/-- What the loop does with the entry that has the path `p`. -/
def deleteEntry (w : FsState) (p : PathName) : Option ℤ × FsState :=
  match isDir env w p with
  | (true, w) => recur w p
  | (false, w) =>
      match remove env w p with
      | (true, w) => (some Status.noError.code, w)
      | (false, w) => (some Status.unknownError.code, w)

/-- The deletion of what has the path `p` fails: of a directory the nested deletion, of anything
else the removal. -/
def Fails (w : FsState) (p : PathName) : Prop :=
  ∃ ret, (deleteEntry env recur w p).1 = some ret ∧ ret ≠ 0

/-- The loop comes to an entry whose deletion fails. -/
inductive LeftAt (dirname : PathName) : List FileName → FsState → Prop
  | here {n names w} : n ≠ dot → n ≠ dotDot → Fails env recur w (chBuf dirname n) →
      LeftAt dirname (n :: names) w
  | skip {n names w} : n = dot ∨ n = dotDot → LeftAt dirname names w →
      LeftAt dirname (n :: names) w
  | next {n names w w'} : n ≠ dot → n ≠ dotDot →
      deleteEntry env recur w (chBuf dirname n) = (some 0, w') → LeftAt dirname names w' →
      LeftAt dirname (n :: names) w

variable {env recur} {dirname : PathName} {n : FileName} {names : List FileName} {w w' : FsState}
  {ret : ℤ}

theorem deleteEntries_cons (hdot : n ≠ dot) (hdotDot : n ≠ dotDot) :
    deleteEntries env recur dirname (n :: names) w =
      match deleteEntry env recur w (chBuf dirname n) with
      | (none, w) => (none, w)
      | (some ret, w) =>
          if ret ≠ 0 then (some Status.unknownError.code, w)
          else deleteEntries env recur dirname names w := by
  rw [deleteEntries, if_neg (not_or.2 ⟨hdot, hdotDot⟩), deleteEntry]
  rcases isDir env w (chBuf dirname n) with ⟨_ | _, w₁⟩
  · dsimp only
    rcases remove env w₁ (chBuf dirname n) with ⟨_ | _, w₂⟩ <;> rfl
  · rfl

/-- What the loop does with the names that it is given: it passes over the first one, or deletes
what it names, or returns at it. -/
theorem deleteEntries_cases (h : deleteEntries env recur dirname (n :: names) w = (some ret, w')) :
    (n = dot ∨ n = dotDot) ∧ deleteEntries env recur dirname names w = (some ret, w') ∨
      n ≠ dot ∧ n ≠ dotDot ∧ ∃ r w₁, deleteEntry env recur w (chBuf dirname n) = (some r, w₁) ∧
        (r = 0 ∧ deleteEntries env recur dirname names w₁ = (some ret, w') ∨
          r ≠ 0 ∧ ret = Status.unknownError.code ∧ w' = w₁) := by
  by_cases hn : n = dot ∨ n = dotDot
  · rw [deleteEntries_cons_dot hn] at h
    exact .inl ⟨hn, h⟩
  · obtain ⟨hdot, hdotDot⟩ := not_or.1 hn
    refine .inr ⟨hdot, hdotDot, ?_⟩
    rw [deleteEntries_cons hdot hdotDot] at h
    rcases hentry : deleteEntry env recur w (chBuf dirname n) with ⟨_ | r, w₁⟩
    · simp [hentry] at h
    · refine ⟨r, w₁, rfl, ?_⟩
      rw [hentry] at h
      dsimp only at h
      by_cases hr : r = 0
      · rw [if_neg (not_not.2 hr)] at h
        exact .inl ⟨hr, h⟩
      · rw [if_pos hr] at h
        obtain ⟨hret, hw⟩ := Prod.ext_iff.1 h
        exact .inr ⟨hr, (Option.some_inj.1 hret).symm, hw.symm⟩

/-- The loop does not come past an entry that fails. -/
theorem deleteEntries_of_leftAt (h : LeftAt env recur dirname names w) :
    ∃ w', deleteEntries env recur dirname names w = (some Status.unknownError.code, w') := by
  induction h with
  | @here n names w hdot hdotDot hfails =>
      obtain ⟨r, hr, hne⟩ := hfails
      refine ⟨(deleteEntry env recur w (chBuf dirname n)).2, ?_⟩
      have hentry : deleteEntry env recur w (chBuf dirname n) =
          (some r, (deleteEntry env recur w (chBuf dirname n)).2) := Prod.ext hr rfl
      rw [deleteEntries_cons hdot hdotDot, hentry]
      exact if_pos hne
  | skip hn _ ih => rwa [deleteEntries_cons_dot hn]
  | next hdot hdotDot hentry _ ih =>
      rw [deleteEntries_cons hdot hdotDot, hentry]
      exact ih

/-- The loop is left at the first entry that fails, and nowhere else. -/
theorem deleteEntries_ne_zero_iff
    (h : deleteEntries env recur dirname names w = (some ret, w')) :
    ret ≠ 0 ↔ LeftAt env recur dirname names w := by
  constructor
  · intro hret
    induction names generalizing w with
    | nil => exact absurd (Option.some_inj.1 (Prod.ext_iff.1 h).1).symm hret
    | cons n names ih =>
        rcases deleteEntries_cases h with ⟨hn, hrest⟩ | ⟨hdot, hdotDot, r, w₁, hentry, hcase⟩
        · exact .skip hn (ih hrest)
        · rcases hcase with ⟨rfl, hrest⟩ | ⟨hr, -, -⟩
          · exact .next hdot hdotDot hentry (ih hrest)
          · exact .here hdot hdotDot ⟨r, congrArg Prod.fst hentry, hr⟩
  · intro hleft
    obtain ⟨w'', hcode⟩ := deleteEntries_of_leftAt hleft
    obtain rfl := Option.some_inj.1 (Prod.ext_iff.1 (h.symm.trans hcode)).1
    decide

theorem LeftAt.exists_mem (h : LeftAt env recur dirname names w) :
    ∃ n ∈ names, n ≠ dot ∧ n ≠ dotDot := by
  induction h with
  | here hdot hdotDot _ => exact ⟨_, List.mem_cons_self, hdot, hdotDot⟩
  | skip _ _ ih =>
      obtain ⟨n, hn, hne⟩ := ih
      exact ⟨n, List.mem_cons_of_mem _ hn, hne⟩
  | next hdot hdotDot _ _ _ => exact ⟨_, List.mem_cons_self, hdot, hdotDot⟩

end Entry

/-! ### The streams of a run -/

/-- A call of `DeleteDir` that returns has not closed more than it opened, and as much if it
returned 0. -/
def Balanced (recur : FsState → PathName → Option ℤ × FsState) : Prop :=
  ∀ w p ret w', recur w p = (some ret, w') →
    w.streams ≤ w'.streams ∧ (ret = 0 → w'.streams = w.streams)

section Streams

variable {env : Answers} {recur : FsState → PathName → Option ℤ × FsState} {w w' : FsState}
  {p : PathName} {names : List FileName} {ret : ℤ}

@[simp] theorem isDir_streams (w : FsState) (p : PathName) :
    (isDir env w p).2.streams = w.streams := by
  unfold isDir
  split <;> rfl

@[simp] theorem remove_streams (w : FsState) (p : PathName) :
    (remove env w p).2.streams = w.streams := by
  unfold remove
  split <;> rfl

theorem opendir_streams (w : FsState) (p : PathName) :
    (opendir env w p).2.streams =
      w.streams + if (opendir env w p).1.isSome then 1 else 0 := by
  unfold opendir
  split <;> rfl

theorem Balanced.deleteEntry (hrec : Balanced recur) : Balanced (deleteEntry env recur) := by
  intro w p ret w' h
  have hdir := @isDir_streams env w p
  rw [CFileUtils.deleteEntry] at h
  rcases his : isDir env w p with ⟨_ | _, w₁⟩
  · rw [his] at h hdir
    have hrm := @remove_streams env w₁ p
    dsimp only at h
    rw [← hdir]
    rcases hret : remove env w₁ p with ⟨_ | _, w₂⟩ <;> rw [hret] at h hrm <;>
      obtain rfl : w₂ = w' := (Prod.ext_iff.1 h).2
    · exact ⟨hrm.ge, fun _ => hrm⟩
    · exact ⟨hrm.ge, fun _ => hrm⟩
  · rw [his] at h hdir
    rw [← hdir]
    exact hrec w₁ p ret w' h

theorem Balanced.deleteEntries (hrec : Balanced recur)
    (h : deleteEntries env recur p names w = (some ret, w')) :
    w.streams ≤ w'.streams ∧ (ret = 0 → w'.streams = w.streams) := by
  induction names generalizing w with
  | nil =>
      obtain rfl : w = w' := (Prod.ext_iff.1 h).2
      exact ⟨Nat.le_refl _, fun _ => rfl⟩
  | cons n names ih =>
      rcases deleteEntries_cases h with ⟨-, hrest⟩ | ⟨-, -, r, w₁, hentry, hcase⟩
      · exact ih hrest
      · obtain ⟨hle, hzero⟩ := hrec.deleteEntry _ _ _ _ hentry
        rcases hcase with ⟨rfl, hrest⟩ | ⟨-, rfl, rfl⟩
        · obtain ⟨hle', hzero'⟩ := ih hrest
          have heq := hzero rfl
          exact ⟨by omega, fun hret => by rw [hzero' hret, heq]⟩
        · exact ⟨hle, fun hret => absurd hret (by decide)⟩

/-- The run has opened `d` and comes to an entry whose deletion fails. -/
def LeavesOpen (env : Answers) (fuel : ℕ) (w : FsState) (d : PathName) : Prop :=
  ∃ names, (opendir env w d).1 = some names ∧
    LeftAt env (deleteDir env (fuel - 1)) d names (opendir env w d).2

/-- The ways to return: the directory is not opened, the loop comes to its end and `remove` is next,
or the loop is left. -/
theorem deleteDir_cases {fuel : ℕ} (h : deleteDir env (fuel + 1) w p = (some ret, w')) :
    opendir env w p = (none, w') ∨
      ∃ names w₁ r w₂, opendir env w p = (some names, w₁) ∧
        deleteEntries env (deleteDir env fuel) p names w₁ = (some r, w₂) ∧
          (r = 0 ∧ (remove env (closedir w₂) p).2 = w' ∨ r ≠ 0 ∧ r = ret ∧ w₂ = w') := by
  rw [deleteDir] at h
  rcases hopen : opendir env w p with ⟨_ | names, w₁⟩ <;> rw [hopen] at h
  · obtain rfl : w₁ = w' := (Prod.ext_iff.1 h).2
    exact .inl rfl
  · refine .inr ⟨names, w₁, ?_⟩
    dsimp only at h
    rcases hloop : deleteEntries env (deleteDir env fuel) p names w₁ with ⟨_ | r, w₂⟩ <;>
      rw [hloop] at h
    · cases (Prod.ext_iff.1 h).1
    · refine ⟨r, w₂, rfl, rfl, ?_⟩
      by_cases hr : r = 0
      · subst hr
        rcases hret : remove env (closedir w₂) p with ⟨_ | _, w₃⟩ <;> simp only [hret] at h
        · exact .inl ⟨rfl, (Prod.ext_iff.1 h).2⟩
        · exact .inl ⟨rfl, (Prod.ext_iff.1 h).2⟩
      · have hsame : (some r, w₂) = (some ret, w') := by
          rw [← h]
          split
          case h_1 heq => exact absurd (Option.some_inj.1 (Prod.ext_iff.1 heq).1) hr
          case h_2 heq => exact heq
        obtain ⟨hret, hw⟩ := Prod.ext_iff.1 hsame
        exact .inr ⟨hr, Option.some_inj.1 hret, hw⟩

/-- What the ways to return have to do with the streams. -/
theorem deleteDir_streams_succ {fuel : ℕ} (hrec : Balanced (deleteDir env fuel))
    (h : deleteDir env (fuel + 1) w p = (some ret, w')) :
    LeavesOpen env (fuel + 1) w p ∧ w.streams < w'.streams ∧ ret ≠ 0 ∨
      ¬ LeavesOpen env (fuel + 1) w p ∧ w'.streams = w.streams := by
  have hstreams := @opendir_streams env w p
  rcases deleteDir_cases h with hopen | ⟨names, w₁, r, w₂, hopen, hloop, hcase⟩
  · -- there is no stream to close
    rw [hopen] at hstreams
    refine .inr ⟨?_, hstreams⟩
    rintro ⟨names, hnames, -⟩
    rw [hopen] at hnames
    cases hnames
  · rw [hopen] at hstreams
    have hopens : LeavesOpen env (fuel + 1) w p ↔ r ≠ 0 := by
      rw [deleteEntries_ne_zero_iff hloop]
      simp [LeavesOpen, hopen]
    have hopened : w₁.streams = w.streams + 1 := hstreams
    obtain ⟨hle, hzero⟩ := hrec.deleteEntries hloop
    rcases hcase with ⟨hr, rfl⟩ | ⟨hr, rfl, rfl⟩
    · -- the loop comes to its end, and the stream is closed
      refine .inr ⟨fun hleft => hopens.1 hleft hr, ?_⟩
      rw [remove_streams, closedir, hzero hr, hopened, Nat.add_sub_cancel]
    · -- the loop is left, and the stream stays open
      exact .inl ⟨hopens.2 hr, by omega, hr⟩

/-- A call does not close more than it opens, and as much when it returns 0. -/
theorem deleteDir_streams (env : Answers) (fuel : ℕ) : Balanced (deleteDir env fuel) := by
  induction fuel with
  | zero => exact fun w p ret w' h => by cases (Prod.ext_iff.1 h).1
  | succ fuel ih =>
      intro w p ret w' h
      rcases deleteDir_streams_succ ih h with ⟨-, hlt, hne⟩ | ⟨-, heq⟩
      · exact ⟨hlt.le, fun hret => absurd hret hne⟩
      · exact ⟨heq.ge, fun _ => heq⟩

theorem deleteDir_streams_eq_iff {fuel : ℕ} (h : deleteDir env fuel w p = (some ret, w')) :
    w'.streams = w.streams ↔ ¬ LeavesOpen env fuel w p := by
  cases fuel with
  | zero => cases (Prod.ext_iff.1 h).1
  | succ fuel =>
      have hrec := deleteDir_streams env fuel
      rcases deleteDir_streams_succ hrec h with ⟨hopen, hlt, -⟩ | ⟨hnot, heq⟩
      · exact iff_of_false hlt.ne' (not_not.2 hopen)
      · exact iff_of_true heq hnot

/-- A run that comes to such an entry returns. -/
theorem deleteDir_of_leavesOpen {fuel : ℕ} (h : LeavesOpen env (fuel + 1) w p) :
    ∃ w', deleteDir env (fuel + 1) w p = (some Status.unknownError.code, w') := by
  obtain ⟨names, hnames, hleft⟩ := h
  obtain ⟨w', hloop⟩ := deleteEntries_of_leftAt hleft
  have hopen : opendir env w p = (some names, (opendir env w p).2) := Prod.ext hnames rfl
  refine ⟨w', ?_⟩
  rw [deleteDir, hopen]
  dsimp only
  rw [Nat.add_sub_cancel] at hloop
  rw [hloop]
  rfl

/-! ### The directories for which every run closes its streams -/

/-- When all is refused the loop is left at the first name that is not passed over. -/
theorem leftAt_of_refused {n : FileName} (hrefuse : ∀ c, 0 < c → env.refuse c = true)
    (hcalls : 0 < w.calls) (hn : n ∈ names) (hdot : n ≠ dot) (hdotDot : n ≠ dotDot) :
    LeftAt env recur p names w := by
  induction names with
  | nil => cases hn
  | cons m names ih =>
      by_cases hm : m = dot ∨ m = dotDot
      · rcases List.mem_cons.1 hn with rfl | hn
        · exact absurd hm (not_or.2 ⟨hdot, hdotDot⟩)
        · exact .skip hm (ih hn)
      · obtain ⟨hm₁, hm₂⟩ := not_or.1 hm
        refine .here hm₁ hm₂ ⟨Status.unknownError.code, ?_, by decide⟩
        rw [deleteEntry, isDir_of_refused (hrefuse _ hcalls)]
        have hnext : env.refuse (call w).calls = true := hrefuse _ (Nat.succ_pos _)
        simp only [remove, hnext, if_true]

end Streams

end CFileUtils

open CFileUtils

/-- Every run on `d` leaves as many directory streams as there were. -/
def KeepsStreams (fs : FileSystem) (d : PathName) : Prop :=
  ∀ env fuel w ret w', w.fs = fs → deleteDir env fuel w d = (some ret, w') →
    w'.streams = w.streams

/-- `d` leads to a directory with an entry. -/
def HoldsEntry (fs : FileSystem) (d : PathName) : Prop :=
  ∃ i n j, fs.stat d = some i ∧ HasEntry fs.node i n j

/-- Every call but the first is refused, as in a directory that can only be read. -/
def Answers.refuseRest : Answers := { Answers.plain with refuse := fun c => c != 0 }

theorem not_keepsStreams {fs : FileSystem} {d : PathName} (h : HoldsEntry fs d) :
    ¬ KeepsStreams fs d := by
  intro hkeeps
  obtain ⟨i, n, j, hi, hentry⟩ := h
  obtain ⟨D, hD, hmem⟩ := id hentry
  have hopen := @opendir_eq .refuseRest ⟨fs, 0, 0⟩ d i D rfl hi hD
  have hn : n ∈ dot :: dotDot :: D.entries.map Prod.fst :=
    List.mem_cons_of_mem _ (List.mem_cons_of_mem _ (List.mem_map_of_mem (f := Prod.fst) hmem))
  have hvalid := fs.names_valid hentry
  have hleft : LeavesOpen .refuseRest 1 ⟨fs, 0, 0⟩ d := by
    refine ⟨_, congrArg Prod.fst hopen, ?_⟩
    rw [hopen]
    exact leftAt_of_refused (fun c hc => bne_iff_ne.2 hc.ne') (Nat.succ_pos 0) hn hvalid.2.1
      hvalid.2.2.1
  obtain ⟨w', hrun⟩ := deleteDir_of_leavesOpen hleft
  exact (deleteDir_streams_eq_iff hrun).1 (hkeeps _ _ _ _ _ rfl hrun) hleft

/-- In a directory without entries there is nothing to fail. -/
theorem keepsStreams {fs : FileSystem} {d : PathName} (h : ¬ HoldsEntry fs d) :
    KeepsStreams fs d := by
  rintro env fuel w ret w' rfl hrun
  refine (deleteDir_streams_eq_iff hrun).2 ?_
  rintro ⟨names, hnames, hleft⟩
  obtain ⟨listed, hlist, hperm⟩ := list_of_opendir hnames
  obtain ⟨i, D, hi, hD, rfl⟩ := FileSystem.list_eq_some_iff.1 hlist
  obtain ⟨n, hn, hdot, hdotDot⟩ := hleft.exists_mem
  have hmem := hperm.subset hn
  simp only [List.mem_cons, hdot, hdotDot, false_or, List.mem_map] at hmem
  obtain ⟨⟨_, j⟩, hj, rfl⟩ := hmem
  exact h ⟨i, _, j, hi, D, hD, hj⟩

/-- **A run of `DeleteDir` leaves a stream open exactly when it meets an entry whose deletion fails
while it has the directory open**, and some run on `d` does exactly when `d` has an entry. -/
theorem deleteDir_streams_iff (fs : FileSystem) (d : PathName) :
    (∀ env fuel w ret w', w.fs = fs → deleteDir env fuel w d = (some ret, w') →
      (w'.streams = w.streams ↔ ¬ LeavesOpen env fuel w d)) ∧
    (KeepsStreams fs d ↔ ¬ HoldsEntry fs d) :=
  ⟨fun _ _ _ _ _ _ h => deleteDir_streams_eq_iff h,
    fun hkeeps h => not_keepsStreams h hkeeps, keepsStreams⟩

/-- A directory with one file, which cannot be removed. -/
theorem deleteDir_leaves_stream : ¬ KeepsStreams (oneFileFs [98] (by decide)) [97] :=
  not_keepsStreams ⟨1, [98], 2, by decide, _, oneFileFs_node, List.mem_cons_self⟩

end VModule

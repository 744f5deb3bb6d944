/-
**When `CFileUtils::DeleteDir` deletes a directory.**

A directory without symbolic links is deleted by a run that is refused nothing, in whatever order
its names are read, exactly when three things hold: the path of everything below it fits the buffer
of the function, nothing below it passes for a directory without being one, and the path of the
directory itself does not lead through the tree that is going away.

Main definitions:

* `VModule.NamesDirectory` — the path names an entry for a directory;
* `VModule.DeletesTree` — a run comes to its end, returns `OK` and leaves everything but the tree;
* `VModule.Deletable`, `VModule.Fits` — what that takes;
* `VModule.Stands` — what a path still leads to while a run is under way.

Main results:

* `VModule.deleteDir_deletes` — a run on a directory below, by induction on its height;
* `VModule.named_short` — what a cut path names has a path that fits;
* `VModule.deleteDir_finishes_iff` — the equivalence.
-/

import Mathlib.Data.Finset.Lattice.Fold
import VModule.DeleteDir

set_option relaxedAutoImplicit false
set_option autoImplicit false

namespace VModule

open PathName CFileUtils

/-! ### What is owed, and what it takes -/

/-- `d` names the entry `e`, which is one for the directory `i`. -/
structure NamesDirectory (fs : FileSystem) (d : PathName) (e : Inode × FileName) (i : Inode) :
    Prop where
  place : fs.place d = some e
  entry : HasEntry fs.node e.1 e.2 i
  dir : ∃ D, fs.node i = .dir D

/-- No entry of the tree of `i` is a symbolic link. -/
def NoLinks (fs : FileSystem) (i : Inode) : Prop :=
  ∀ ns j, fs.Chain i ns j → ∀ t, fs.node j ≠ .link t

/-- A run that is refused nothing comes to its end and returns `OK`, and then `e` and the tree of
`i` are gone and everything else is as it was. -/
def DeletesTree (fs : FileSystem) (d : PathName) (e : Inode × FileName) (i : Inode) : Prop :=
  ∀ env : Answers, env.Willing → ∀ w, w.fs = fs → ∃ fuel w',
    deleteDir env fuel w d = (some Status.noError.code, w') ∧
      w'.fs = fs.without (insert e (fs.tree i))

/-- The path `p` of directory `i` is good for deleting what the directory holds. -/
structure Deletable (fs : FileSystem) (p : PathName) (i : Inode) : Prop where
  /-- the path of everything below fits the buffer -/
  short : ∀ ns j, ns ≠ [] → fs.Chain i ns j → (join p ns).length ≤ 255
  /-- nothing passes for a directory -/
  plain : ∀ ns j, fs.Chain i ns j → ¬ PassesForDir (fs.node j)

/-- The directory can be deleted by that path, which does not lead through its tree. -/
structure Fits (fs : FileSystem) (d : PathName) (i : Inode) : Prop extends Deletable fs d i where
  apart : ∀ ns n used j, pieces d = ns ++ [n] →
    fs.Walk FileSystem.linkMax (fs.start fs.cwd d) ns used j → ∀ x ∈ used, x ∉ fs.tree i

variable {fs : FileSystem} {p d : PathName} {e : Inode × FileName} {i j : Inode} {m : FileName}
  {R : Set (Inode × FileName)}

theorem Deletable.child (h : Deletable fs p i) (hentry : HasEntry fs.node i m j) :
    Deletable fs (p ++ slash :: m) j where
  short ns k _ hc := by
    rw [← join_cons]
    exact h.short _ k (List.cons_ne_nil m ns) (hc.cons hentry)
  plain ns k hc := h.plain _ k (hc.cons hentry)

theorem NoLinks.child (h : NoLinks fs i) (hentry : HasEntry fs.node i m j) : NoLinks fs j :=
  fun _ k hc => h _ k (hc.cons hentry)

/-- A path that fits is not cut. -/
theorem Deletable.chBuf_eq (h : Deletable fs p i) (hentry : HasEntry fs.node i m j) :
    chBuf p m = p ++ slash :: m := by
  exact chBuf_of_le (h.short [m] j (List.cons_ne_nil _ _) (FileSystem.Chain.nil.concat hentry))

/-! ### A path while a run is under way -/

/-- `p` names the entry `e`, which is one for `i`, and leads to it through nothing that is gone or
that is in the tree of `i`. -/
structure Stands (fs : FileSystem) (R : Set (Inode × FileName)) (p : PathName)
    (e : Inode × FileName) (i : Inode) : Prop where
  walk : ∃ ns used, pieces p = ns ++ [e.2] ∧
    fs.Walk FileSystem.linkMax (fs.start fs.cwd p) ns used e.1 ∧
    ∀ x ∈ used, x ∉ R ∧ x ∉ fs.tree i
  entry : HasEntry fs.node e.1 e.2 i
  kept : e ∉ R

theorem Stands.place (h : Stands fs R p e i) : (fs.without R).place p = some e := by
  obtain ⟨ns, used, hp, hw, hused⟩ := h.walk
  refine FileSystem.place_eq_some_iff.2 ⟨ns, used, hp, fs.names_valid h.entry, ?_⟩
  exact hw.without fun x hx => (hused x hx).1

theorem Stands.hasEntry (h : Stands fs R p e i) : HasEntry (fs.without R).node e.1 e.2 i :=
  FileSystem.hasEntry_without.2 ⟨h.entry, h.kept⟩

/-- More may go as long as it is in the tree. -/
theorem Stands.more {S : Set (Inode × FileName)} (h : Stands fs R p e i) (hS : S ⊆ fs.tree i) :
    Stands fs (R ∪ S) p e i where
  walk := by
    obtain ⟨ns, used, hp, hw, hused⟩ := h.walk
    refine ⟨ns, used, hp, hw, fun x hx => ⟨?_, (hused x hx).2⟩⟩
    rintro (hR | hx')
    · exact (hused x hx).1 hR
    · exact (hused x hx).2 (hS hx')
  entry := h.entry
  kept := by
    rintro (hR | he)
    · exact h.kept hR
    · exact FileSystem.notMem_tree_of_hasEntry h.entry (hS he)

/-- The path of an entry of the directory. -/
theorem Stands.child {D : Directory} (h : Stands fs R p e i) (hD : fs.node i = .dir D)
    (hentry : HasEntry fs.node i m j) (hm : (i, m) ∉ R) :
    Stands fs R (p ++ slash :: m) (i, m) j where
  walk := by
    obtain ⟨ns, used, hp, hw, hused⟩ := h.walk
    have hne : p ≠ [] := by
      rintro rfl
      exact absurd hp (by simp)
    refine ⟨ns ++ [e.2], used ++ [e], ?_, ?_, ?_⟩
    · rw [pieces_concat p (fs.names_valid hentry), hp]
    · rw [FileSystem.start_append _ _ _ hne]
      exact hw.concat (FileSystem.step_eq_some_iff.2 (.inl h.entry)) (by simp [hD])
    · intro x hx
      have hsub : ∀ x ∈ fs.tree j, x ∈ fs.tree i := fun x hx =>
        FileSystem.mem_tree_iff.2 ⟨m, ⟨j, hentry⟩, .inr ⟨j, hentry, hx⟩⟩
      rcases List.mem_append.1 hx with hx | hx
      · exact ⟨(hused x hx).1, fun hj => (hused x hx).2 (hsub x hj)⟩
      · rw [List.mem_singleton.1 hx]
        exact ⟨h.kept, fun hj => FileSystem.notMem_tree_of_hasEntry h.entry (hsub e hj)⟩
  entry := hentry
  kept := hm

/-! ### A run deletes what is below -/

/-- A run on any path of directory `i` deletes it. -/
def DeletesBelow (env : Answers) (fs : FileSystem) (fuel : ℕ) (i : Inode) : Prop :=
  ∀ p e R w, Stands fs R p e i → (∀ x ∈ R, x ∉ fs.tree i) → Deletable fs p i →
    NoLinks fs i → w.fs = fs.without R → ∃ w',
      deleteDir env fuel w p = (some Status.noError.code, w') ∧
        w'.fs = fs.without (R ∪ insert e (fs.tree i))

section Willing

variable {env : Answers}

theorem branch_eq (hentry : HasEntry fs.node i m j) :
    fs.branch i m = insert (i, m) (fs.tree j) := by
  refine congrArg (insert (i, m)) (Set.ext fun x => ⟨?_, fun hx => ⟨j, hentry, hx⟩⟩)
  rintro ⟨j', hj', hx⟩
  rwa [FileSystem.entry_inode_unique hentry hj']

/-- The loop deletes one entry of the directory and what it holds. -/
theorem deleteEntries_entry (hwilling : env.Willing) {fuel : ℕ} {D : Directory} {w : FsState}
    (hD : fs.node i = .dir D)
    (hrec : ∀ D', fs.node j = .dir D' → DeletesBelow env fs fuel j) (hdel : Deletable fs p i)
    (hlinks : NoLinks fs i) (hs : Stands fs R p e i) (hentry : HasEntry fs.node i m j)
    (hR : ∀ x ∈ R, x ∉ fs.branch i m) (hw : w.fs = fs.without R) :
    ∃ w₂ : FsState, w₂.fs = fs.without (R ∪ fs.branch i m) ∧
      ∀ names, deleteEntries env (deleteDir env fuel) p (m :: names) w =
        deleteEntries env (deleteDir env fuel) p names w₂ := by
  have hm : Valid m := fs.names_valid hentry
  have hlink : ∀ t, fs.node j ≠ .link t := hlinks [m] j (FileSystem.Chain.nil.concat hentry)
  have hplain := hdel.plain [m] j (FileSystem.Chain.nil.concat hentry)
  have hmem : (i, m) ∉ R := fun h => hR _ h (.inl rfl)
  have htrees : ∀ x ∈ R, x ∉ fs.tree j := fun x hx hj => hR x hx (.inr ⟨j, hentry, hj⟩)
  have hpath := hdel.chBuf_eq hentry
  have hchild : Stands fs R (chBuf p m) (i, m) j := hpath ▸ hs.child hD hentry hmem
  have hdelete : Deletable fs (chBuf p m) j := hpath ▸ hdel.child hentry
  have hlast : (chBuf p m).getLast? ≠ some slash := hpath ▸ getLast?_concat_ne p hm
  have hstat : w.fs.stat (chBuf p m) = some j := by
    rw [hw]
    exact FileSystem.stat_of_place hchild.place hchild.hasEntry
      (fun t ht => hlink t (FileSystem.node_prune_eq_link.1 ht)) fun h => absurd h hlast
  have hcall : (isDir env w (chBuf p m)).2.fs = fs.without R := by
    rw [isDir_fs, hw]
  rw [branch_eq hentry]
  cases hj : fs.node j with
  | link t => exact absurd hj (hlink t)
  | dir D' =>
      have hdir : (isDir env w (chBuf p m)).1 = true := by
        refine (isDir_eq_true_iff (hwilling _)).2 ⟨j, hstat, .inl ?_⟩
        rw [hw]
        exact FileSystem.exists_dir_prune.2 ⟨D', hj⟩
      obtain ⟨w₂, hrun, hw₂⟩ := hrec D' hj (chBuf p m) (i, m) R _ hchild htrees hdelete
        (hlinks.child hentry) hcall
      refine ⟨w₂, hw₂, fun names => ?_⟩
      rw [deleteEntries_cons_dir hm hdir, hrun]
      exact if_neg (not_not.2 rfl)
  | file k =>
      have hfile : (fs.without R).node j = .file k := FileSystem.node_prune_eq_file.2 hj
      have hdir : (isDir env w (chBuf p m)).1 = false := by
        rw [Bool.eq_false_iff, ne_eq, isDir_eq_true_iff (hwilling _)]
        rintro ⟨j', hj', hpass⟩
        obtain rfl : j = j' := Option.some_inj.1 (hstat.symm.trans hj')
        rw [hw, hfile] at hpass
        rcases hpass with ⟨D', hD'⟩ | hpass
        · cases hD'
        · exact hplain (hj ▸ hpass)
      have htree : fs.tree j = ∅ := by
        refine Set.eq_empty_iff_forall_notMem.2 fun x hx => ?_
        obtain ⟨D', hD'⟩ := FileSystem.exists_dir_of_mem_tree hx
        rw [hj] at hD'
        cases hD'
      have hrm : (isDir env w (chBuf p m)).2.fs.remove (chBuf p m) =
          some (fs.without (R ∪ {(i, m)})) := by
        rw [hcall]
        refine FileSystem.remove_eq_some_iff.2 ⟨i, m, j, hchild.place, hchild.hasEntry,
          (FileSystem.without_without _ _ _).symm, ?_, fun _ => hlast⟩
        intro D' hD'
        rw [hfile] at hD'
        cases hD'
      refine ⟨_, ?_, fun names => deleteEntries_cons_file hm hdir (remove_eq (hwilling _) hrm)⟩
      rw [htree, insert_empty_eq]

/-- The loop deletes the entries that it is given, in any order and with the two dots anywhere. -/
theorem deleteEntries_deletes (hwilling : env.Willing) {fuel : ℕ} {D : Directory}
    (hD : fs.node i = .dir D)
    (hrec : ∀ m j D', HasEntry fs.node i m j → fs.node j = .dir D' → DeletesBelow env fs fuel j)
    (hdel : Deletable fs p i) (hlinks : NoLinks fs i) (names : List FileName) :
    ∀ R w, (∀ n ∈ names, n = dot ∨ n = dotDot ∨ (i, n) ∈ fs.entries) → names.Nodup →
      Stands fs R p e i → (∀ x ∈ R, x ∉ fs.branches i names) → w.fs = fs.without R →
      ∃ w', deleteEntries env (deleteDir env fuel) p names w = (some Status.noError.code, w') ∧
        w'.fs = fs.without (R ∪ fs.branches i names) := by
  induction names with
  | nil =>
      intro R w _ _ _ _ hw
      exact ⟨w, rfl, by rw [hw, FileSystem.branches_nil, Set.union_empty]⟩
  | cons m names ih =>
      intro R w hnames hnodup hs hR hw
      obtain ⟨hm, hnodup⟩ := List.nodup_cons.1 hnodup
      have hrest : ∀ n ∈ names, n = dot ∨ n = dotDot ∨ (i, n) ∈ fs.entries :=
        fun n hn => hnames n (List.mem_cons_of_mem _ hn)
      by_cases hdots : m = dot ∨ m = dotDot
      · have hnot : (i, m) ∉ fs.entries := by
          rintro ⟨j, hj⟩
          obtain ⟨-, hdot, hdotDot, -⟩ := fs.names_valid hj
          exact hdots.elim hdot hdotDot
        rw [FileSystem.branches_cons_of_notMem hnot] at hR ⊢
        rw [deleteEntries_cons_dot hdots]
        exact ih R w hrest hnodup hs hR hw
      · have hmem : (i, m) ∈ fs.entries := by
          rcases hnames m List.mem_cons_self with hdot | hdotDot | hmem
          · exact absurd (.inl hdot) hdots
          · exact absurd (.inr hdotDot) hdots
          · exact hmem
        obtain ⟨j, hentry⟩ := id hmem
        rw [FileSystem.branches_cons_of_mem hmem] at hR ⊢
        have hsub : fs.branch i m ⊆ fs.tree i := fun x hx =>
          FileSystem.mem_tree_iff.2 ⟨m, ⟨j, hentry⟩, hx⟩
        obtain ⟨w₂, hw₂, hfirst⟩ := deleteEntries_entry hwilling hD (hrec m j · hentry) hdel hlinks
          hs hentry (fun x hx hin => hR x hx (.inl hin)) hw
        have hapart : ∀ x ∈ R ∪ fs.branch i m, x ∉ fs.branches i names := by
          rintro x (hx | hx) hin
          · exact hR x hx (.inr hin)
          · obtain ⟨n, hn, -, hin⟩ := hin
            refine FileSystem.branch_disjoint ?_ x hx hin
            rintro rfl
            exact hm hn
        obtain ⟨w', hrun, hw'⟩ := ih (R ∪ fs.branch i m) w₂ hrest hnodup (hs.more hsub) hapart hw₂
        exact ⟨w', by rw [hfirst, hrun], by rw [hw', Set.union_assoc]⟩

/-- **A run deletes a directory whose paths are good**, by induction on the height of the tree:
the calls that the loop makes are on directories that are deeper. -/
theorem deleteDir_deletes (hwilling : env.Willing) {depth : Inode → ℕ} {M : ℕ}
    (hdepth : ∀ {i n j d}, HasEntry fs.node i n j → fs.node j = .dir d → depth i < depth j)
    (hM : ∀ i d, fs.node i = .dir d → depth i ≤ M) (fuel : ℕ) :
    ∀ i D, fs.node i = .dir D → M < depth i + fuel → DeletesBelow env fs fuel i := by
  induction fuel with
  | zero =>
      intro i D hD hlt
      exact absurd (hM i D hD) (by omega)
  | succ fuel ih =>
      intro i D hD hlt p e R w hs hR hdel hlinks hw
      have hrec : ∀ m j D', HasEntry fs.node i m j → fs.node j = .dir D' →
          DeletesBelow env fs fuel j := by
        intro m j D' hentry hD'
        have := hdepth hentry hD'
        exact ih j D' hD' (by omega)
      have hcurrent : (fs.without R).node i = .dir D := by
        refine FileSystem.node_without_of_kept hD fun n j hmem hgone => ?_
        exact hR _ hgone ⟨⟨j, D, hD, hmem⟩, .self⟩
      have hstat : w.fs.stat p = some i := by
        rw [hw]
        exact FileSystem.stat_of_place hs.place hs.hasEntry (by simp [hcurrent])
          fun _ => ⟨D, hcurrent⟩
      have hopen := opendir_eq (hwilling w.calls) hstat (hw ▸ hcurrent)
      have hperm := env.order_perm w.calls (dot :: dotDot :: D.entries.map Prod.fst)
      generalize env.order w.calls _ = names at hopen hperm
      have hmem : ∀ n, n ∈ names ↔ n = dot ∨ n = dotDot ∨ (i, n) ∈ fs.entries := by
        intro n
        rw [hperm.mem_iff, List.mem_cons, List.mem_cons, FileSystem.mem_entries_iff hD]
      have hgone : fs.branches i names = fs.tree i :=
        FileSystem.branches_eq_tree fun n hn => (hmem n).2 (.inr (.inr hn))
      obtain ⟨w₂, hloop, hw₂⟩ := deleteEntries_deletes hwilling hD hrec hdel hlinks names R
        (opened w) (fun n hn => (hmem n).1 hn) (hperm.nodup_iff.2 (fs.listed_nodup hD)) hs
        (hgone ▸ hR) hw
      rw [hgone] at hw₂
      have hlast := hs.more subset_rfl
      have hrm : (closedir w₂).fs.remove p = some (fs.without (R ∪ insert e (fs.tree i))) := by
        rw [closedir_fs, hw₂]
        refine FileSystem.remove_eq_some_iff.2
          ⟨e.1, e.2, i, hlast.place, hlast.hasEntry, ?_, ?_, ?_⟩
        · rw [FileSystem.without_without, Set.union_assoc, Set.union_singleton]
        · intro D' hD'
          refine List.eq_nil_iff_forall_not_mem.2 fun a ha => ?_
          have hentry : HasEntry (fs.without (R ∪ fs.tree i)).node i a.1 a.2 := ⟨D', hD', ha⟩
          obtain ⟨hentry, hkept⟩ := FileSystem.hasEntry_without.1 hentry
          exact hkept (.inr ⟨⟨a.2, hentry⟩, .self⟩)
        · intro hno
          obtain ⟨D', hD'⟩ := FileSystem.exists_dir_prune.2 ⟨D, hD⟩
          exact absurd hD' (hno D')
      exact ⟨_, deleteDir_eq_ok hopen hloop (remove_eq (hwilling _) hrm), rfl⟩

end Willing

theorem NamesDirectory.stands (h : NamesDirectory fs d e i)
    (hapart : ∀ ns n used j, pieces d = ns ++ [n] →
      fs.Walk FileSystem.linkMax (fs.start fs.cwd d) ns used j → ∀ x ∈ used, x ∉ fs.tree i) :
    Stands fs ∅ d e i where
  walk := by
    obtain ⟨ns, used, hp, -, hw⟩ := FileSystem.place_eq_some_iff.1 h.place
    exact ⟨ns, used, hp, hw, fun x hx => ⟨Set.notMem_empty x, hapart ns _ used _ hp hw x hx⟩⟩
  entry := h.entry
  kept := Set.notMem_empty e

/-- Directories are allocated, so there are no more than so many, and their depths are bounded. -/
theorem deletesTree_of_fits (h : NamesDirectory fs d e i) (hlinks : NoLinks fs i)
    (hfits : Fits fs d i) : DeletesTree fs d e i := by
  rintro env hwilling w rfl
  obtain ⟨depth, hdepth⟩ := w.fs.acyclic
  obtain ⟨D, hD⟩ := h.dir
  have hM : ∀ j D', w.fs.node j = .dir D' → depth j ≤ (Finset.range w.fs.next).sup depth := by
    intro j D' hj
    refine Finset.le_sup (Finset.mem_range.2 (Nat.lt_of_not_le fun hle => ?_))
    rw [w.fs.allocated j hle] at hj
    cases hj
  obtain ⟨w', hrun, hw'⟩ := deleteDir_deletes hwilling hdepth hM
    ((Finset.range w.fs.next).sup depth + 1) i D hD (by omega) d e ∅ w (h.stands hfits.apart)
    (fun x hx => absurd hx (Set.notMem_empty x)) hfits.toDeletable hlinks
    (FileSystem.without_empty w.fs).symm
  exact ⟨_, w', hrun, by rw [hw', Set.empty_union]⟩

/-! ### What a cut path names -/

/-- The paths of what is below. -/
theorem NamesDirectory.walk_join (h : NamesDirectory fs d e i) (hlinks : NoLinks fs i)
    {ns : List FileName} (hc : fs.Chain i ns j) :
    ∃ used, fs.Walk FileSystem.linkMax (fs.start fs.cwd d) (pieces d ++ ns) used j := by
  induction hc with
  | nil =>
      obtain ⟨ms, used, hp, -, hw⟩ := FileSystem.place_eq_some_iff.1 h.place
      obtain ⟨D, hD⟩ := h.dir
      rw [hp, List.append_nil]
      exact ⟨_, hw.concat (FileSystem.step_eq_some_iff.2 (.inl h.entry)) (by simp [hD])⟩
  | @concat ns k n j hc hentry ih =>
      obtain ⟨used, hw⟩ := ih
      rw [← List.append_assoc]
      exact ⟨_, hw.concat (FileSystem.step_eq_some_iff.2 (.inl hentry))
        (hlinks _ _ (hc.concat hentry))⟩

theorem NamesDirectory.ne_nil (h : NamesDirectory fs d e i) : d ≠ [] := by
  obtain ⟨ns, used, hp, -⟩ := FileSystem.place_eq_some_iff.1 h.place
  rintro rfl
  rw [pieces_nil] at hp
  exact absurd hp.symm (List.append_ne_nil_of_right_ne_nil _ (List.cons_ne_nil _ _))

theorem NamesDirectory.start_join (h : NamesDirectory fs d e i) (ns : List FileName) :
    fs.start fs.cwd (join d ns) = fs.start fs.cwd d := by
  obtain ⟨r, hr⟩ := exists_join_eq d ns
  rw [hr, FileSystem.start_append _ _ _ h.ne_nil]

theorem NamesDirectory.join_ne_nil (h : NamesDirectory fs d e i) (ns : List FileName) :
    join d ns ≠ [] := by
  obtain ⟨r, hr⟩ := exists_join_eq d ns
  rw [hr]
  exact List.append_ne_nil_of_left_ne_nil h.ne_nil r

/-- The path of a row of names leads where the row does. -/
theorem NamesDirectory.stat_join (h : NamesDirectory fs d e i) (hlinks : NoLinks fs i)
    {ns : List FileName} (hc : fs.Chain i ns j) : fs.stat (join d ns) = some j := by
  obtain ⟨used, hw⟩ := h.walk_join hlinks hc
  cases hc with
  | nil =>
      obtain ⟨D, hD⟩ := h.dir
      exact FileSystem.stat_of_place h.place h.entry (by simp [hD]) fun _ => ⟨D, hD⟩
  | @concat ns k n j hc hentry =>
      have hchain := hc.concat hentry
      refine FileSystem.stat_eq_some_iff.2 ⟨h.join_ne_nil _, used, ?_⟩
      rw [comps, if_neg, List.append_nil, hchain.pieces_join, h.start_join]
      · exact hw
      · rw [join_concat]
        exact getLast?_concat_ne _ (fs.names_valid hentry)

/-- The entry that such a path names is the last of the row. -/
theorem NamesDirectory.place_join (h : NamesDirectory fs d e i) (hlinks : NoLinks fs i)
    {ns : List FileName} (hc : fs.Chain i ns j) {n : FileName} {x : Inode × FileName}
    {q : PathName} (hq : pieces q = pieces d ++ ns ++ [n])
    (hstart : fs.start fs.cwd q = fs.start fs.cwd d) (hx : fs.place q = some x) :
    x = (j, n) := by
  obtain ⟨y, m⟩ := x
  obtain ⟨ms, used, hp, -, hw⟩ := FileSystem.place_eq_some_iff.1 hx
  obtain ⟨rfl, hn⟩ := List.append_inj' (hq.symm.trans hp) rfl
  obtain ⟨used', hw'⟩ := h.walk_join hlinks hc
  rw [hstart] at hw
  rw [(hw.unique hw').2, List.singleton_inj.1 hn]

/-- The path of a row of names, or the front of one that does not fit. -/
def CutRow (fs : FileSystem) (d : PathName) (i : Inode) (q : PathName) : Prop :=
  ∃ ns j, fs.Chain i ns j ∧ (join d ns).length ≤ 255 ∧
    (q = join d ns ∨ ∃ n k, HasEntry fs.node j n k ∧ q = chBuf (join d ns) n ∧ q.length = 255)

/-- A path that is shorter than the buffer by one byte at least is not cut by the next name, and one
that fills it is not made longer. -/
theorem cutRow_of_visited (h : NamesDirectory fs d e i) (hlinks : NoLinks fs i)
    (hd : d.length ≤ 255) {q : PathName} (hq : Visited fs d q) : CutRow fs d i q := by
  induction hq with
  | self => exact ⟨[], i, .nil, hd, .inl rfl⟩
  | @entry p i' n j' _ hstat hentry ih =>
      obtain ⟨ns, j, hc, hlen, rfl | ⟨m, k, hm, rfl, hfull⟩⟩ := ih
      · obtain rfl : j = i' := Option.some_inj.1 ((h.stat_join hlinks hc).symm.trans hstat)
        have hcut : (chBuf (join d ns) n).length = min 255 (join d (ns ++ [n])).length := by
          rw [chBuf, List.length_take, join_concat]
        rcases Nat.lt_or_ge 255 (join d (ns ++ [n])).length with hlt | hle
        · exact ⟨ns, j, hc, hlen, .inr ⟨n, j', hentry, rfl, by omega⟩⟩
        · refine ⟨ns ++ [n], j', hc.concat hentry, hle, .inl ?_⟩
          rw [join_concat] at hle ⊢
          exact List.take_of_length_le hle
      · rw [chBuf_eq_self hfull]
        exact ⟨ns, j, hc, hlen, .inr ⟨m, k, hm, rfl, hfull⟩⟩

/-- An entry of the tree with a path that fits, or the entry of the directory itself. -/
def HasShortPath (fs : FileSystem) (d : PathName) (e : Inode × FileName) (i : Inode)
    (x : Inode × FileName) : Prop :=
  x = e ∨ ∃ ns, fs.Chain i ns x.1 ∧ (join d (ns ++ [x.2])).length ≤ 255

theorem hasShortPath_of_pieces_eq (h : NamesDirectory fs d e i) (hlinks : NoLinks fs i)
    {ns : List FileName} (hc : fs.Chain i ns j) (hlen : (join d ns).length ≤ 255) {q : PathName}
    {x : Inode × FileName} (hq : pieces q = pieces (join d ns))
    (hstart : fs.start fs.cwd q = fs.start fs.cwd d) (hx : fs.place q = some x) :
    HasShortPath fs d e i x := by
  cases hc with
  | nil =>
      have hplace : fs.place q = fs.place d := by
        rw [FileSystem.place, FileSystem.place, hq, hstart, join_nil]
      exact .inl (Option.some_inj.1 (hx.symm.trans (hplace.trans h.place)))
  | @concat ns k n j hc hentry =>
      rw [(hc.concat hentry).pieces_join, ← List.append_assoc] at hq
      rw [h.place_join hlinks hc hq hstart hx]
      exact .inr ⟨ns, hc, hlen⟩

/-- **What a path names that a run builds has a path that fits**, where the path of the directory
fits: what is cut from a path is the end of its last name. -/
theorem named_short (h : NamesDirectory fs d e i) (hlinks : NoLinks fs i) (hd : d.length ≤ 255)
    {q : PathName} {x : Inode × FileName} (hq : Visited fs d q) (hx : fs.place q = some x) :
    HasShortPath fs d e i x := by
  obtain ⟨ns, j, hc, hlen, rfl | ⟨n, k, hentry, rfl, hfull⟩⟩ := cutRow_of_visited h hlinks hd hq
  · exact hasShortPath_of_pieces_eq h hlinks hc hlen rfl (h.start_join ns) hx
  · have hn : Valid n := fs.names_valid hentry
    rcases hlen.eq_or_lt with heq | hlt
    · rw [chBuf_eq_self heq] at hx
      exact hasShortPath_of_pieces_eq h hlinks hc hlen rfl (h.start_join ns) hx
    · obtain ⟨r, hr⟩ : ∃ r, 255 - (join d ns).length = r + 1 := ⟨254 - (join d ns).length, by omega⟩
      have hcut : chBuf (join d ns) n = join d ns ++ slash :: n.take r := by
        rw [chBuf, List.take_append, List.take_of_length_le hlen, hr, List.take_succ_cons]
      have hstart : fs.start fs.cwd (chBuf (join d ns) n) = fs.start fs.cwd d := by
        rw [hcut, FileSystem.start_append _ _ _ (h.join_ne_nil ns), h.start_join]
      have hnot : slash ∉ n.take r := fun hmem => hn.2.2.2 (List.mem_of_mem_take hmem)
      rcases eq_or_ne (n.take r) [] with hnil | hne
      · refine hasShortPath_of_pieces_eq h hlinks hc hlen ?_ hstart hx
        rw [hcut, hnil, pieces_append, pieces_nil, List.append_nil]
      · have hpieces : pieces (chBuf (join d ns) n) = pieces d ++ ns ++ [n.take r] := by
          rw [hcut, pieces_append, pieces_of_notMem hnot hne, hc.pieces_join]
        rw [h.place_join hlinks hc hpieces hstart hx]
        refine .inr ⟨ns, hc, ?_⟩
        rw [join_concat, ← hcut, hfull]

/-! ### A path that does not fit by itself -/

theorem visited_long (hd : 255 ≤ d.length) {q : PathName} (hq : Visited fs d q) :
    q = d ∨ q = d.take 255 := by
  have hfull : (d.take 255).length = 255 := List.length_take_of_le hd
  induction hq with
  | self => exact .inl rfl
  | entry _ _ _ ih =>
      rcases ih with rfl | rfl
      · exact .inr (chBuf_long hd)
      · exact .inr (chBuf_eq_self hfull)

/-- A name is longer than what a directory calls itself and its parent. -/
theorem not_prefix_dots (hm : Valid m) : ¬ m <+: dot ∧ ¬ m <+: dotDot := by
  have hone : ∀ t : FileName, t <+: [46] → t = [] ∨ t = [46] := by
    intro t ht
    rcases List.prefix_cons_iff.1 ht with hnil | ⟨u, rfl, hu⟩
    · exact .inl hnil
    · rw [List.prefix_nil.1 hu]
      exact .inr rfl
  refine ⟨fun h => ?_, fun h => ?_⟩
  · rcases hone m h with hnil | hdot
    · exact hm.1 hnil
    · exact hm.2.1 hdot
  · rcases List.prefix_cons_iff.1 h with hnil | ⟨u, rfl, hu⟩
    · exact hm.1 hnil
    · rcases hone u hu with rfl | rfl
      · exact hm.2.1 rfl
      · exact hm.2.2.1 rfl

/-- Where the front of a path names an entry of the directory, the path leads through the tree. -/
theorem not_place_front (h : NamesDirectory fs d e i)
    (hapart : ∀ ns n used j, pieces d = ns ++ [n] →
      fs.Walk FileSystem.linkMax (fs.start fs.cwd d) ns used j → ∀ x ∈ used, x ∉ fs.tree i)
    {s t : PathName} (hd : d = s ++ t) (hs : fs.place s = some (i, m)) : False := by
  obtain ⟨ns, used, hp, hm, hw⟩ := FileSystem.place_eq_some_iff.1 hs
  obtain ⟨ms, used', hp', -, hw'⟩ := FileSystem.place_eq_some_iff.1 h.place
  obtain ⟨x, rest, hx, hpre⟩ := exists_pieces_append t hp
  have hne : s ≠ [] := by
    rintro rfl
    rw [pieces_nil] at hp
    exact absurd hp.symm (List.append_ne_nil_of_right_ne_nil _ (List.cons_ne_nil _ _))
  have hstart : fs.start fs.cwd d = fs.start fs.cwd s := by
    rw [hd, FileSystem.start_append _ _ _ hne]
  rw [← hd, hp'] at hx
  rcases List.eq_nil_or_concat rest with rfl | ⟨rest, n, rfl⟩
  · -- the directory would be one of its own entries
    obtain ⟨rfl, -⟩ := List.append_inj' hx rfl
    rw [hstart] at hw'
    have hentry := h.entry
    rw [(hw'.unique hw).2] at hentry
    obtain ⟨D, hD⟩ := h.dir
    exact FileSystem.not_below_of_hasEntry hentry hD .self
  · rw [List.concat_eq_append, ← List.cons_append, ← List.append_assoc] at hx
    obtain ⟨rfl, -⟩ := List.append_inj' hx rfl
    have hfront := hw'
    rw [hstart] at hfront
    obtain ⟨b, i', u₁, u₂, -, rfl, h₁, h₂⟩ := hfront.of_append
    obtain rfl := (h₁.unique hw).2
    obtain ⟨⟨k, hk⟩, hmem⟩ := h₂.head
    rcases FileSystem.step_eq_some_iff.1 hk with hentry | ⟨D, -, ⟨rfl, -⟩ | ⟨rfl, -⟩⟩
    · exact hapart _ _ _ _ hp' hw' (i', x) (List.mem_append_right _ hmem) ⟨⟨k, hentry⟩, .self⟩
    · exact (not_prefix_dots hm).1 hpre
    · exact (not_prefix_dots hm).2 hpre

/-! ### The equivalence -/

/-- The entries that a run takes which is refused nothing: what passes for a directory stays. -/
def NamedBelow (fs : FileSystem) (d : PathName) : Set (Inode × FileName) :=
  {e | ∃ q j, Visited fs d q ∧ fs.place q = some e ∧ HasEntry fs.node e.1 e.2 j ∧
    ¬ PassesForDir (fs.node j)}

/-- When a run that deletes the tree comes to the directory itself, all that is below has gone. -/
theorem exists_last_removal (h : NamesDirectory fs d e i) (hdel : DeletesTree fs d e i) :
    ∃ T ⊆ NamedBelow fs d, (∃ fs', (fs.without T).remove d = some fs') ∧
      ∀ x ∈ fs.tree i, x ∈ T := by
  obtain ⟨fuel, w', hrun, hw'⟩ := hdel .plain Answers.plain_willing ⟨fs, 0, 0⟩ rfl
  have htakes : ∀ q, Visited fs d q → Takes .plain fs (NamedBelow fs d) q :=
    fun q hq _ _ _ _ _ j hplace hentry hplain =>
      ⟨q, j, hq, hplace, hentry, hplain Answers.plain_willing⟩
  have hlast := @deleteDir_last .plain fs (Visited fs d) (NamedBelow fs d) htakes
    (fun q i n j hq => hq.entry) fuel ⟨fs, 0, 0⟩ d (fun i n j => Visited.self.entry)
    (Shrunk.refl fs _)
  rw [hrun] at hlast
  obtain ⟨hno, -⟩ | ⟨cur, -, -, ⟨T, hT, rfl⟩, -, -, hrm⟩ := hlast
  · exact absurd rfl hno
  refine ⟨T, hT, ⟨_, hrm⟩, fun x hx => ?_⟩
  -- the last call takes `e`, which is not in the tree
  obtain ⟨e', -, hplace, -, hfs, -⟩ := FileSystem.remove_without hrm
  obtain rfl : e = e' := Option.some_inj.1 (h.place.symm.trans hplace)
  obtain ⟨j, hj⟩ := hx.1
  by_contra hT
  have hne : x ≠ e := fun he => FileSystem.notMem_tree_of_hasEntry h.entry (he ▸ hx)
  have hkept : HasEntry w'.fs.node x.1 x.2 j := by
    rw [hfs]
    exact FileSystem.hasEntry_without.2 ⟨hj, not_or.2 ⟨hT, hne⟩⟩
  rw [hw'] at hkept
  exact (FileSystem.hasEntry_without.1 hkept).2 (.inr hx)

/-- A path that still names an entry when the tree has gone does not lead through the tree. -/
theorem apart_of_remove {fs' : FileSystem} {T : Set (Inode × FileName)}
    (hrm : (fs.without T).remove d = some fs') (hall : ∀ x ∈ fs.tree i, x ∈ T) :
    ∀ ns n used j, pieces d = ns ++ [n] →
      fs.Walk FileSystem.linkMax (fs.start fs.cwd d) ns used j → ∀ x ∈ used, x ∉ fs.tree i := by
  intro ns n used j hp hw x hx htree
  obtain ⟨i', n', -, hplace, -⟩ := FileSystem.remove_eq_some_iff.1 hrm
  obtain ⟨ns', used', hp', -, hw'⟩ := FileSystem.place_eq_some_iff.1 hplace
  obtain ⟨rfl, -⟩ := List.append_inj' (hp.symm.trans hp') rfl
  obtain ⟨hwalk, hkept⟩ := hw'.of_without
  obtain ⟨rfl, -⟩ := hw.unique hwalk
  exact hkept x hx htree.1 (hall x htree)

/-- What a run must have named to delete the tree. -/
theorem fits_of_deletesTree (h : NamesDirectory fs d e i) (hlinks : NoLinks fs i)
    (hdel : DeletesTree fs d e i) : Fits fs d i := by
  obtain ⟨T, hT, ⟨fs', hrm⟩, hall⟩ := exists_last_removal h hdel
  have hapart := apart_of_remove hrm hall
  have hnamed : ∀ ns k n j, fs.Chain i ns k → HasEntry fs.node k n j →
      (k, n) ∈ fs.tree i ∧ ∃ q, Visited fs d q ∧ fs.place q = some (k, n) ∧
        ¬ PassesForDir (fs.node j) := by
    intro ns k n j hc hentry
    obtain ⟨D, hD, -⟩ := id hentry
    have htree : (k, n) ∈ fs.tree i := ⟨⟨j, hentry⟩, hc.toBelow hD⟩
    obtain ⟨q, j', hq, hplace, hentry', hplain⟩ := hT (hall _ htree)
    rw [FileSystem.entry_inode_unique hentry' hentry] at hplain
    exact ⟨htree, q, hq, hplace, hplain⟩
  have hne : ∀ x ∈ fs.tree i, x ≠ e := by
    rintro x hx rfl
    exact FileSystem.notMem_tree_of_hasEntry h.entry hx
  refine ⟨⟨?_, ?_⟩, hapart⟩
  · intro ns j hns hc
    cases hc with
    | nil => exact absurd rfl hns
    | @concat ns k n j hc hentry =>
        obtain ⟨htree, q, hq, hplace, -⟩ := hnamed ns k n j hc hentry
        rcases Nat.le_total d.length 255 with hle | hge
        · rcases named_short h hlinks hle hq hplace with heq | ⟨ns', hc', hlen⟩
          · exact absurd heq (hne _ htree)
          · obtain ⟨D, hD, -⟩ := id hentry
            rwa [hc.unique hc' hD]
        · -- every path below is cut to one path, which then names an entry of the directory
          obtain ⟨m, ⟨j', hj'⟩, -⟩ := FileSystem.mem_tree_iff.1 htree
          obtain ⟨hmem, s, hs, hplace', -⟩ := hnamed [] i m j' .nil hj'
          rcases visited_long hge hs with rfl | rfl
          · exact absurd (Option.some_inj.1 (hplace'.symm.trans h.place)) (hne _ hmem)
          · exact (not_place_front h hapart (List.take_append_drop 255 d).symm hplace').elim
  · intro ns j hc
    cases hc with
    | nil =>
        obtain ⟨D, hD⟩ := h.dir
        simp [PassesForDir, hD]
    | @concat ns k n j hc hentry =>
        obtain ⟨-, -, -, -, hplain⟩ := hnamed ns k n j hc hentry
        exact hplain

/-- A directory `a` with one file. -/
def oneFileFs (n : FileName) (hn : Valid n) : FileSystem :=
  ((FileSystem.bare 0o755).add 0 ⟨0o755, 0, []⟩ [97] (.dir ⟨0o755, 0, []⟩) rfl (by decide)
    (by rintro _ ⟨⟩; exact ⟨rfl, rfl⟩)).add 1 ⟨0o755, 0, []⟩ n (.file .regular) rfl
    ⟨hn, List.not_mem_nil⟩ (by rintro _ ⟨⟩)

section OneFile

variable {n : FileName} {hn : Valid n}

theorem oneFileFs_node : (oneFileFs n hn).node 1 = .dir ⟨0o755, 0, [(n, 2)]⟩ := rfl

theorem oneFileFs_names : NamesDirectory (oneFileFs n hn) [97] (0, [97]) 1 where
  place := FileSystem.place_eq_some_iff.2 ⟨[], [], rfl, by decide, .nil _ _⟩
  entry := ⟨⟨0o755, 0, [([97], 1)]⟩, rfl, List.mem_cons_self⟩
  dir := ⟨_, oneFileFs_node⟩

theorem oneFileFs_chain {ns : List FileName} {j : Inode} (h : (oneFileFs n hn).Chain 1 ns j) :
    ns = [] ∧ j = 1 ∨ ns = [n] ∧ j = 2 := by
  induction h with
  | nil => exact .inl ⟨rfl, rfl⟩
  | concat _ hentry ih =>
      obtain ⟨d, hd, hmem⟩ := hentry
      rcases ih with ⟨rfl, rfl⟩ | ⟨rfl, rfl⟩
      · rw [oneFileFs_node] at hd
        cases hd
        cases List.mem_singleton.1 hmem
        exact .inr ⟨rfl, rfl⟩
      · cases hd

theorem oneFileFs_noLinks : NoLinks (oneFileFs n hn) 1 := by
  intro ns j hc t
  rcases oneFileFs_chain hc with ⟨-, rfl⟩ | ⟨-, rfl⟩
  · rintro ⟨⟩
  · rintro ⟨⟩

theorem oneFileFs_fits (hlen : n.length ≤ 253) : Fits (oneFileFs n hn) [97] 1 where
  short ns j hns hc := by
    rcases oneFileFs_chain hc with ⟨rfl, -⟩ | ⟨rfl, -⟩
    · exact absurd rfl hns
    · rw [join_cons, join_nil]
      simp only [List.length_append, List.length_cons, List.length_nil]
      omega
  plain ns j hc := by
    rcases oneFileFs_chain hc with ⟨-, rfl⟩ | ⟨-, rfl⟩
    · rintro (⟨⟨⟩⟩ | ⟨⟨⟩⟩)
    · rintro (⟨⟨⟩⟩ | ⟨⟨⟩⟩)
  apart ns m used j hp hw x hx := by
    obtain ⟨rfl, -⟩ := List.append_inj' ((rfl : [] ++ [[97]] = pieces [97]).trans hp) rfl
    cases hw
    exact absurd hx List.not_mem_nil

end OneFile

/-- **`DeleteDir` deletes a directory exactly when the tree fits its buffer**: the path of
everything below fits in 255 bytes, nothing below is a socket or a block device, and the path of the
directory does not lead through what it is to delete. -/
theorem deleteDir_finishes_iff (fs : FileSystem) (d : PathName) (e : Inode × FileName) (i : Inode)
    (h : NamesDirectory fs d e i) (hlinks : NoLinks fs i) :
    DeletesTree fs d e i ↔ Fits fs d i :=
  ⟨fits_of_deletesTree h hlinks, deletesTree_of_fits h hlinks⟩

/-- A file with a short name goes with its directory. -/
theorem deleteDir_finishes_short : DeletesTree (oneFileFs [98] (by decide)) [97] (0, [97]) 1 :=
  (deleteDir_finishes_iff _ _ _ _ oneFileFs_names oneFileFs_noLinks).2
    (oneFileFs_fits (by decide))

/-- A file whose name has 254 bytes is legal, and with `a/` before it the path has 256. -/
theorem deleteDir_cuts_path :
    NamesDirectory (oneFileFs (List.replicate 254 98) (by decide)) [97] (0, [97]) 1 ∧
      NoLinks (oneFileFs (List.replicate 254 98) (by decide)) 1 ∧
      ¬ DeletesTree (oneFileFs (List.replicate 254 98) (by decide)) [97] (0, [97]) 1 := by
  refine ⟨oneFileFs_names, oneFileFs_noLinks, fun h => ?_⟩
  have hfits := fits_of_deletesTree oneFileFs_names oneFileFs_noLinks h
  have hentry : HasEntry (oneFileFs (List.replicate 254 98) (by decide)).node 1
      (List.replicate 254 98) 2 := ⟨_, oneFileFs_node, List.mem_cons_self⟩
  have hlen := hfits.short [List.replicate 254 98] 2 (List.cons_ne_nil _ _)
    (FileSystem.Chain.nil.concat hentry)
  simp only [join_cons, join_nil, List.length_append, List.length_cons, List.length_nil,
    List.length_replicate] at hlen
  omega

end VModule

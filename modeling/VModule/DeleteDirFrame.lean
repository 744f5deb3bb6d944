/-
**What `CFileUtils::DeleteDir` leaves alone.**

A run on `d` is to take nothing but the entry that `d` names and the tree of the directory that `d`
leads to.  The paths that it builds can lead elsewhere, through a symbolic link or because they were
cut, and exactly when one of them could be removed at once some run takes what is not in the tree.

Main definitions:

* `VModule.OwnTree`, `VModule.RemovesOnlyTree` — the tree, and what is owed;
* `VModule.CFileUtils.Reached` — the paths that a run builds for what is below;
* `VModule.StaysInTree` — what can be removed by such a path is in the tree.

Main results:

* `VModule.CFileUtils.reached_long`, `VModule.CFileUtils.reached_short` — what such a path looks
  like;
* `VModule.CFileUtils.takes_of_staysInTree` — the first removal outside of the tree would have been
  possible from the start;
* `VModule.CFileUtils.Reached.steers` — the order of `readdir` and one refused `stat` lead a run to
  any such path;
* `VModule.deleteDir_frame_iff` — the equivalence.
-/

import VModule.DeleteDir

set_option relaxedAutoImplicit false
set_option autoImplicit false

namespace VModule

open PathName

/-! ### The tree and nothing else -/

/-- The entry that `d` names, and those of the directory that it leads to, at any depth. -/
def OwnTree (fs : FileSystem) (d : PathName) : Set (Inode × FileName) :=
  {e | fs.place d = some e ∨ ∃ i, fs.stat d = some i ∧ e ∈ fs.tree i}

/-- No run on `d` takes away an entry that is not in its tree. -/
def RemovesOnlyTree (fs : FileSystem) (d : PathName) : Prop :=
  ∀ env fuel w, w.fs = fs → ∀ i n j, HasEntry fs.node i n j → (i, n) ∉ OwnTree fs d →
    HasEntry (CFileUtils.deleteDir env fuel w d).2.fs.node i n j

namespace CFileUtils

/-- The paths that a run on a directory builds for what is below. -/
inductive Reached (fs : FileSystem) : PathName → PathName → Prop
  | last {q i n j} : fs.stat q = some i → HasEntry fs.node i n j → Reached fs q (chBuf q n)
  | step {q i n j p} : fs.stat q = some i → HasEntry fs.node i n j → Reached fs (chBuf q n) p →
      Reached fs q p

end CFileUtils

open CFileUtils

/-- Where a path that a run builds can be removed at once, it names an entry of the tree. -/
def StaysInTree (fs : FileSystem) (d : PathName) : Prop :=
  ∀ p e fs', Reached fs d p → fs.remove p = some fs' → fs.place p = some e → e ∈ OwnTree fs d

namespace CFileUtils

variable {fs : FileSystem} {d p q : PathName}

/-! ### The paths -/

theorem Reached.builds {i j : Inode} {n : FileName} (h : Reached fs d q) (hi : fs.stat q = some i)
    (hentry : HasEntry fs.node i n j) : Reached fs d (chBuf q n) := by
  induction h with
  | last hi₀ hentry₀ => exact .step hi₀ hentry₀ (.last hi hentry)
  | step hi₀ hentry₀ _ ih => exact .step hi₀ hentry₀ (ih hi)

theorem Reached.exists_dir (h : Reached fs d q) :
    ∃ i D, fs.stat d = some i ∧ fs.node i = .dir D := by
  cases h with
  | last hi hentry =>
      obtain ⟨D, hD, -⟩ := hentry
      exact ⟨_, D, hi, hD⟩
  | step hi hentry _ =>
      obtain ⟨D, hD, -⟩ := hentry
      exact ⟨_, D, hi, hD⟩

/-- A path that does not fit by itself is cut to one path. -/
theorem reached_long (hd : 255 ≤ d.length) (h : Reached fs d p) : p = d.take 255 := by
  induction h with
  | last _ _ => exact chBuf_long hd
  | @step q i n j p _ _ _ ih =>
      have hfull : (q.take 255).length = 255 := List.length_take_of_le hd
      rw [chBuf_long hd, List.take_take] at ih
      exact ih hfull.ge

/-- A path that is built starts with the path of the directory, and what comes next is a name when
more comes after it: a name that was cut is the last. -/
theorem reached_short (hd : d.length < 255) (h : Reached fs d p) :
    ∃ r, p = d ++ slash :: r ∧ ∀ x y rest, pieces r = x :: y :: rest → Valid x := by
  have hcut : ∀ {q : PathName} {i j : Inode} {n : FileName}, q.length < 255 →
      HasEntry fs.node i n j → ∃ r, chBuf q n = q ++ slash :: r ∧
        ∀ x y rest, pieces r = x :: y :: rest → Valid x := by
    intro q i j n hq hentry
    obtain ⟨k, hk⟩ : ∃ k, 255 - q.length = k + 1 := ⟨254 - q.length, by omega⟩
    refine ⟨n.take k, ?_, ?_⟩
    · rw [chBuf, List.take_append, List.take_of_length_le hq.le, hk, List.take_succ_cons]
    · have hnot : slash ∉ n.take k := fun hmem =>
        (fs.names_valid hentry).2.2.2 (List.mem_of_mem_take hmem)
      intro x y rest hp
      rcases eq_or_ne (n.take k) [] with hnil | hne
      · rw [hnil] at hp
        cases hp
      · rw [pieces_of_notMem hnot hne] at hp
        cases hp
  induction h with
  | last _ hentry => exact hcut hd hentry
  | @step q i n j p _ hentry hp ih =>
      rcases (chBuf_length_le q n).eq_or_lt with hfull | hlt
      · rw [reached_long hfull.ge hp, ← hfull, List.take_length]
        exact hcut hd hentry
      · obtain ⟨r, rfl, -⟩ := ih hlt
        have hwhole : chBuf q n = q ++ slash :: n := by
          rw [chBuf, List.length_take] at hlt
          exact List.take_of_length_le (by omega)
        refine ⟨n ++ slash :: r, by rw [hwhole, List.append_assoc, List.cons_append], ?_⟩
        intro x y rest hpieces
        have hn := fs.names_valid hentry
        rw [pieces_append, pieces_of_notMem hn.2.2.2 hn.1, List.singleton_append] at hpieces
        rwa [← (List.cons_eq_cons.1 hpieces).1]

/-! ### The first removal outside of the tree -/

/-- The entries of the tree that such a path names. -/
def OwnReached (fs : FileSystem) (d : PathName) : Set (Inode × FileName) :=
  {e ∈ OwnTree fs d | ∃ q, Reached fs d q ∧ fs.place q = some e}

/-- What a path goes through on its way below `d`: the entry of `d` is there, and where it goes two
steps below the directory it goes through one of its entries. -/
theorem exists_of_place_below {T : Set (Inode × FileName)} {D i : Inode} {n : FileName}
    {r : PathName} (hD : fs.stat d = some D) (hd : d ≠ []) (hr : pieces r ≠ [])
    (hplace : (fs.without T).place (d ++ slash :: r) = some (i, n))
    (hvalid : ∀ x y rest, pieces r = x :: y :: rest → Valid x) :
    (∀ x, fs.place d = some x → x ∈ fs.entries → x ∉ T) ∧
      (i = D ∨ ∃ m j, HasEntry (fs.without T).node D m j) := by
  obtain ⟨ns, used, hp, -, hw⟩ := FileSystem.place_eq_some_iff.1 hplace
  rcases List.eq_nil_or_concat (pieces r) with hnil | ⟨ms, y, hms⟩
  · exact absurd hnil hr
  rw [List.concat_eq_append] at hms
  rw [pieces_append, hms, ← List.append_assoc] at hp
  obtain ⟨rfl, -⟩ := List.append_inj' hp rfl
  rw [FileSystem.start_append _ _ _ hd] at hw
  obtain ⟨b, D', u₁, u₂, -, -, h₁, h₂⟩ := hw.of_append
  obtain ⟨hfront, hkept⟩ := h₁.of_without
  obtain ⟨u, hstat⟩ := FileSystem.walk_pieces_of_stat hD
  obtain rfl : D' = D := (hfront.unique hstat).2
  refine ⟨?_, ?_⟩
  · rintro ⟨k, m⟩ hx hentry
    obtain ⟨ls, u', hls, -, hw'⟩ := FileSystem.place_eq_some_iff.1 hx
    rw [hls] at hfront
    obtain ⟨b', k', v₁, v₂, -, rfl, hv₁, hv₂⟩ := hfront.of_append
    obtain rfl : k' = k := (hv₁.unique hw').2
    exact hkept _ (List.mem_append_right _ hv₂.head.2) hentry
  · cases ms with
    | nil =>
        cases h₂
        exact .inl rfl
    | cons x ms =>
        obtain ⟨z, zs, hz⟩ := List.exists_cons_of_ne_nil
          (List.append_ne_nil_of_right_ne_nil ms (List.cons_ne_nil y []))
        have hx : Valid x := hvalid x z zs (by rw [hms, List.cons_append, hz])
        obtain ⟨j, hj⟩ := h₂.head.1
        exact .inr ⟨x, j, (FileSystem.step_eq_some_iff_of_valid hx).1 hj⟩

/-- **The first removal outside of the tree would have been possible from the start**: a directory
that has become empty held only entries of the tree, and so is in the tree itself. -/
theorem takes_of_staysInTree {env : Answers} (h : StaysInTree fs d) (hq : Reached fs d q) :
    Takes env fs (OwnReached fs d) q := by
  intro T hT fs' hrm e j hplace hentry _
  refine ⟨?_, q, hq, hplace⟩
  obtain ⟨i, n, j', hplaceT, hentryT, -, hempty, hslash⟩ := FileSystem.remove_eq_some_iff.1 hrm
  obtain rfl : e = (i, n) := Option.some_inj.1
    (hplace.symm.trans (FileSystem.place_of_prune hplaceT))
  obtain ⟨hentry', hkept⟩ := FileSystem.hasEntry_without.1 hentryT
  obtain rfl : j = j' := FileSystem.entry_inode_unique hentry hentry'
  by_cases hnow : ∃ fs'', fs.remove q = some fs''
  · obtain ⟨fs'', hnow⟩ := hnow
    exact h q (i, n) fs'' hq hnow hplace
  · -- then it is a directory, and one of its entries has gone
    obtain ⟨n', j', hin⟩ : ∃ n' j', HasEntry fs.node j n' j' := by
      by_contra hno
      refine hnow ⟨_, FileSystem.remove_eq_some_iff.2 ⟨i, n, j, hplace, hentry, rfl, ?_, ?_⟩⟩
      · intro D hD
        exact List.eq_nil_iff_forall_not_mem.2 fun a ha => hno ⟨a.1, a.2, D, hD, ha⟩
      · intro hfile
        refine hslash fun D hD => ?_
        obtain ⟨D₀, hD₀, -⟩ := FileSystem.node_prune_eq_dir hD
        exact hfile D₀ hD₀
    have hgone : (j, n') ∈ T := by
      by_contra hkept'
      obtain ⟨D', hD', hmem⟩ := FileSystem.hasEntry_without.2 ⟨hin, hkept'⟩
      rw [hempty D' hD'] at hmem
      exact absurd hmem List.not_mem_nil
    obtain ⟨hown, q', hq', hplace'⟩ := hT hgone
    rcases Nat.lt_or_ge d.length 255 with hlt | hge
    · obtain ⟨r, rfl, hvalid⟩ := reached_short hlt hq
      obtain ⟨D, -, hD, -⟩ := hq.exists_dir
      have hd : d ≠ [] := (FileSystem.stat_eq_some_iff.1 hD).1
      by_cases hr : pieces r = []
      · -- only slashes come after the path of the directory
        refine .inl (hplace ▸ ?_)
        rw [FileSystem.place, FileSystem.place, pieces_append, hr, List.append_nil,
          FileSystem.start_append _ _ _ hd]
      · obtain ⟨hself, hbelow⟩ := exists_of_place_below hD hd hr hplaceT hvalid
        rcases hown with hplaced | ⟨D', hD', -, htree⟩
        · exact absurd hgone (hself _ hplaced ⟨j', hin⟩)
        obtain rfl : D' = D := Option.some_inj.1 (hD'.symm.trans hD)
        refine .inr ⟨D', hD', ⟨j, hentry⟩, ?_⟩
        cases htree with
        | self =>
            rcases hbelow with rfl | ⟨m, k, C, hC, hmem⟩
            · exact .self
            · rw [hempty C hC] at hmem
              exact absurd hmem List.not_mem_nil
        | entry hk hentry₂ hdir =>
            obtain ⟨rfl, -⟩ := FileSystem.dir_entry_unique hentry hentry₂ hdir
            exact hk
    · -- there is one path, so what has gone is what is going
      rw [reached_long hge hq', ← reached_long hge hq, hplace] at hplace'
      exact absurd hgone (Option.some_inj.1 hplace' ▸ hkept)

/-- A run only takes what its paths name in the tree, and at last the entry of the directory. -/
theorem removesOnlyTree_of_staysInTree (h : StaysInTree fs d) : RemovesOnlyTree fs d := by
  rintro env fuel w rfl i n j hentry hout
  have hrun := @deleteDir_last env w.fs (Reached w.fs d) (OwnReached w.fs d)
    (fun q hq => takes_of_staysInTree h hq) (fun q i n j hq => hq.builds) fuel w d
    (fun i n j hi hentry => .last hi hentry) (Shrunk.refl w.fs _)
  rcases hrun with ⟨-, T, hT, hfs⟩ | ⟨cur, -, -, ⟨T, hT, rfl⟩, -, -, hrm⟩
  · rw [hfs]
    exact FileSystem.hasEntry_without.2 ⟨hentry, fun hmem => hout (hT hmem).1⟩
  · obtain ⟨e, -, hplace, -, hfs, -⟩ := FileSystem.remove_without hrm
    rw [hfs]
    refine FileSystem.hasEntry_without.2 ⟨hentry, ?_⟩
    rintro (hmem | rfl)
    · exact hout (hT hmem).1
    · exact hout (.inl hplace)

/-! ### Leading a run to a path -/

section Steers

variable {env : Answers} {w w₁ : FsState} {n : FileName} {names : List FileName} {fuel : ℕ}

/-- The name `n` first. -/
def toFront (n : FileName) (names : List FileName) : List FileName :=
  names.filter (fun m => m = n) ++ names.filter fun m => !decide (m = n)

theorem toFront_perm (n : FileName) (names : List FileName) : (toFront n names).Perm names :=
  List.filter_append_perm _ names

theorem exists_toFront_eq (h : n ∈ names) : ∃ rest, toFront n names = n :: rest := by
  have hmem : n ∈ names.filter fun m => m = n := List.mem_filter.2 ⟨h, decide_eq_true rfl⟩
  obtain ⟨m, rest, hrest⟩ := List.exists_cons_of_ne_nil (List.ne_nil_of_mem hmem)
  have hm : m ∈ names.filter fun m => m = n := hrest ▸ List.mem_cons_self
  obtain rfl : m = n := of_decide_eq_true (List.mem_filter.1 hm).2
  exact ⟨_, by rw [toFront, hrest, List.cons_append]⟩

/-- Every stream before the call `c` gives `n` first and no call before it is refused; from there on
the answers are those of `env`. -/
def front (c : ℕ) (n : FileName) (env : Answers) : Answers where
  refuse k := if c ≤ k then env.refuse k else false
  order k names := if c ≤ k then env.order k names else toFront n names
  order_perm k names := by
    split
    · exact env.order_perm k names
    · exact toFront_perm n names

/-- Only the call `c` is refused. -/
def refusing (c : ℕ) : Answers := { Answers.plain with refuse := fun k => k == c }

/-- The answers are the same from the call `c` on. -/
def AgreeFrom (c : ℕ) (env env' : Answers) : Prop :=
  ∀ k, c ≤ k → env'.refuse k = env.refuse k ∧ ∀ names, env'.order k names = env.order k names

theorem front_of_lt {c k : ℕ} (hk : k < c) :
    (front c n env).refuse k = false ∧ ∀ names, (front c n env).order k names = toFront n names :=
  ⟨if_neg hk.not_ge, fun _ => if_neg hk.not_ge⟩

theorem front_of_le {c k : ℕ} (hk : c ≤ k) :
    (front c n env).refuse k = env.refuse k ∧
      ∀ names, (front c n env).order k names = env.order k names :=
  ⟨if_pos hk, fun _ => if_pos hk⟩

/-- Whatever it is called on, a run only takes entries away. -/
theorem deleteDir_without (env : Answers) (fuel : ℕ) (w : FsState) (p : PathName) :
    ∃ T, (deleteDir env fuel w p).2.fs = w.fs.without T := by
  obtain ⟨T, -, hT⟩ := @deleteDir_shrinks env w.fs (fun _ => True) Set.univ
    (fun _ _ _ _ _ _ e _ _ _ _ => Set.mem_univ e) (fun _ _ _ _ _ _ _ => trivial) fuel w p trivial
    (Shrunk.refl w.fs _)
  exact ⟨T, hT⟩

theorem remove_takes (env : Answers) (w : FsState) (p : PathName) :
    ∃ T, (remove env w p).2.fs = w.fs.without T := by
  rcases @remove_cases env w p with ⟨-, hfs⟩ | ⟨-, hrm⟩
  · exact ⟨∅, by rw [hfs, FileSystem.without_empty]⟩
  · obtain ⟨i, m, j, -, -, hfs, -⟩ := FileSystem.remove_eq_some_iff.1 hrm
    exact ⟨_, hfs⟩

theorem deleteEntries_without (hw : ∃ T, w.fs = fs.without T) :
    ∃ T, (deleteEntries env (deleteDir env fuel) p names w).2.fs = fs.without T := by
  refine deleteEntries_keeps (fun w => ∃ T, w.fs = fs.without T) ?_ ?_ w hw
  · rintro n - - - w ⟨T, hT⟩ -
    obtain ⟨T', hT'⟩ := deleteDir_without env fuel (isDir env w (chBuf p n)).2 (chBuf p n)
    rw [hT', isDir_fs, hT, FileSystem.without_without]
    exact ⟨_, rfl⟩
  · rintro n - - - w ⟨T, hT⟩ -
    obtain ⟨T', hT'⟩ := remove_takes env (isDir env w (chBuf p n)).2 (chBuf p n)
    rw [hT', isDir_fs, hT, FileSystem.without_without]
    exact ⟨_, rfl⟩

/-- After its loop a run only takes entries away. -/
theorem deleteDir_without_loop (h : opendir env w p = (some names, w₁))
    (hloop : ∃ T, (deleteEntries env (deleteDir env fuel) p names w₁).2.fs = fs.without T) :
    ∃ T, (deleteDir env (fuel + 1) w p).2.fs = fs.without T := by
  obtain ⟨T, hT⟩ := hloop
  rw [deleteDir, h]
  dsimp only
  split
  case h_1 w₂ hdone =>
    rw [hdone] at hT
    obtain ⟨T', hT'⟩ := remove_takes env (closedir w₂) p
    rw [closedir_fs, hT, FileSystem.without_without] at hT'
    refine ⟨T ∪ T', ?_⟩
    split
    case h_1 w₃ hrm => rwa [hrm] at hT'
    case h_2 w₃ hrm => rwa [hrm] at hT'
  case h_2 ret w₂ _ hdone =>
    rw [hdone] at hT
    exact ⟨T, hT⟩

/-- The loop begins with an entry that the stream gives first. -/
theorem deleteDir_of_first {i j : Inode} (hi : w.fs.stat q = some i)
    (hentry : HasEntry w.fs.node i n j) (hcall : env.refuse w.calls = false)
    (horder : ∀ names, env.order w.calls names = toFront n names)
    (hloop : ∀ rest, ∃ T,
      (deleteEntries env (deleteDir env fuel) q (n :: rest) (opened w)).2.fs = fs.without T) :
    ∃ T, (deleteDir env (fuel + 1) w q).2.fs = fs.without T := by
  obtain ⟨D, hD, hmem⟩ := hentry
  have hopen := opendir_eq hcall hi hD
  have hlisted : n ∈ dot :: dotDot :: D.entries.map Prod.fst :=
    List.mem_cons_of_mem _ (List.mem_cons_of_mem _ (List.mem_map_of_mem (f := Prod.fst) hmem))
  obtain ⟨rest, hrest⟩ := exists_toFront_eq hlisted
  rw [horder, hrest] at hopen
  exact deleteDir_without_loop hopen (hloop rest)

/-- **The order of `readdir` and one refused `stat` lead a run to any path that it can build**, and
what is removed there never comes back. -/
theorem Reached.steers {fs' : FileSystem} (h : Reached fs q p) (hrm : fs.remove p = some fs') :
    ∀ c, ∃ env fuel, ∀ env', AgreeFrom c env env' → ∀ w, w.fs = fs → w.calls = c →
      ∃ T, (deleteDir env' fuel w q).2.fs = fs'.without T := by
  induction h with
  | @last q i n j hi hentry =>
      -- the directory is opened, `stat` is refused, and `remove` is the next call
      intro c
      refine ⟨front (c + 1) n (refusing (c + 1)), 1, ?_⟩
      rintro env' hagree w rfl rfl
      obtain ⟨hcall, horder⟩ := hagree w.calls le_rfl
      rw [(front_of_lt (Nat.lt_succ_self _)).1] at hcall
      simp only [(front_of_lt (Nat.lt_succ_self _)).2] at horder
      have hrefused : env'.refuse (opened w).calls = true := by
        rw [opened_calls, (hagree _ (Nat.le_succ _)).1, (front_of_le le_rfl).1]
        exact beq_self_eq_true _
      have hwilling : env'.refuse (call (opened w)).calls = false := by
        rw [call_calls, opened_calls, (hagree _ (by omega)).1, (front_of_le (by omega)).1]
        exact beq_false_of_ne (by omega)
      refine deleteDir_of_first hi hentry hcall horder fun rest => ?_
      have hdir := isDir_of_refused (p := chBuf q n) hrefused
      have hremove : remove env' (isDir env' (opened w) (chBuf q n)).2 (chBuf q n) =
          (true, { call (call (opened w)) with fs := fs' }) := by
        rw [hdir]
        exact remove_eq hwilling hrm
      rw [deleteEntries_cons_file (w.fs.names_valid hentry) (congrArg Prod.fst hdir) hremove]
      exact deleteEntries_without ⟨∅, (FileSystem.without_empty fs').symm⟩
  | @step q i n j p hi hentry hp ih =>
      intro c
      obtain ⟨env, fuel, hrun⟩ := ih hrm (c + 2)
      refine ⟨front (c + 2) n env, fuel + 1, ?_⟩
      rintro env' hagree w rfl rfl
      obtain ⟨hcall, horder⟩ := hagree w.calls le_rfl
      rw [(front_of_lt (by omega)).1] at hcall
      simp only [(front_of_lt (Nat.lt_add_of_pos_right (Nat.succ_pos 1))).2] at horder
      have hwilling : env'.refuse (opened w).calls = false := by
        rw [opened_calls, (hagree _ (Nat.le_succ _)).1, (front_of_lt (by omega)).1]
      refine deleteDir_of_first hi hentry hcall horder fun rest => ?_
      obtain ⟨k, D, hk, hD⟩ := hp.exists_dir
      have hdir := (isDir_eq_true_iff hwilling).2 ⟨k, hk, .inl ⟨D, hD⟩⟩
      rw [deleteEntries_cons_dir (w.fs.names_valid hentry) hdir]
      have hcall := hrun env' (fun k hk => ?_) (isDir env' (opened w) (chBuf q n)).2 (isDir_fs _ _)
        (isDir_calls _ _)
      · split
        case h_1 w₂ hret => rwa [hret] at hcall
        case h_2 ret w₂ hret =>
          rw [hret] at hcall
          split
          · exact hcall
          · exact deleteEntries_without hcall
      · obtain ⟨hrefuse, horder⟩ := hagree k (by omega)
        rw [hrefuse, (front_of_le hk).1]
        exact ⟨rfl, fun names => (horder names).trans ((front_of_le hk).2 names)⟩

end Steers

/-- The run that is led to a path takes what the path names. -/
theorem staysInTree_of_removesOnlyTree (h : RemovesOnlyTree fs d) : StaysInTree fs d := by
  intro p e fs' hp hrm hplace
  by_contra hout
  obtain ⟨i, n, j, hplace', hentry, rfl, -⟩ := FileSystem.remove_eq_some_iff.1 hrm
  obtain rfl : e = (i, n) := Option.some_inj.1 (hplace.symm.trans hplace')
  obtain ⟨env, fuel, hrun⟩ := hp.steers hrm 0
  obtain ⟨T, hT⟩ := hrun env (fun k _ => ⟨rfl, fun _ => rfl⟩) ⟨fs, 0, 0⟩ rfl rfl
  have hkept := h env fuel ⟨fs, 0, 0⟩ rfl i n j hentry hout
  rw [hT, FileSystem.hasEntry_without, FileSystem.hasEntry_without] at hkept
  exact hkept.1.2 rfl

end CFileUtils

/-- **`DeleteDir` takes nothing but the tree exactly when its paths stay in the tree**: no path that
it builds, through a symbolic link or cut to 255 bytes, could remove something else at once. -/
theorem deleteDir_frame_iff (fs : FileSystem) (d : PathName) :
    RemovesOnlyTree fs d ↔ StaysInTree fs d :=
  ⟨staysInTree_of_removesOnlyTree, removesOnlyTree_of_staysInTree⟩

/-- A directory `d` with a symbolic link `l` to `/o`, and the directory `/o` with a file `f`. -/
def linkedFs : FileSystem :=
  ((((FileSystem.bare 0o700).add 0 ⟨0o700, 0, []⟩ [100] (.dir ⟨0o700, 0, []⟩) rfl (by decide)
    (by rintro _ ⟨⟩; exact ⟨rfl, rfl⟩)).add 1 ⟨0o700, 0, []⟩ [108] (.link [slash, 111]) rfl
    (by decide) (by rintro _ ⟨⟩)).add 0 ⟨0o700, 0, [([100], 1)]⟩ [111] (.dir ⟨0o700, 0, []⟩) rfl
    (by decide) (by rintro _ ⟨⟩; exact ⟨rfl, rfl⟩)).add 3 ⟨0o700, 0, []⟩ [102] (.file .regular) rfl
    (by decide) (by rintro _ ⟨⟩)

/-- `DeleteDir("d")` follows the link and removes `f`. -/
theorem deleteDir_follows_link : ¬ RemovesOnlyTree linkedFs [100] := by
  intro h
  have hnode : linkedFs.node 1 = .dir ⟨0o700, 0, [([108], 2)]⟩ := by decide
  have hlink : linkedFs.node 2 = .link [slash, 111] := by decide
  have hbelow : ∀ x, linkedFs.Below 1 x → x = 1 := by
    intro x hx
    induction hx with
    | self => rfl
    | entry _ hentry hd ih =>
        obtain ⟨d', hd', hmem⟩ := hentry
        rw [ih, hnode] at hd'
        cases hd'
        obtain ⟨-, rfl⟩ := Prod.ext_iff.1 (List.mem_singleton.1 hmem)
        rw [hlink] at hd
        cases hd
  have hout : (3, [102]) ∉ OwnTree linkedFs [100] := by
    rintro (hplace | ⟨i, hi, hmem⟩)
    · exact absurd hplace (by decide)
    · rw [show linkedFs.stat [100] = some 1 by decide] at hi
      obtain rfl : 1 = i := Option.some_inj.1 hi
      exact absurd (hbelow 3 hmem.2) (by decide)
  have hgone : (deleteDir Answers.plain 3 ⟨linkedFs, 0, 0⟩ [100]).2.fs.step 3 [102] = none := by
    decide
  have hstep : linkedFs.step 3 [102] = some 4 := by decide
  have hentry := (FileSystem.step_eq_some_iff_of_valid (by decide : Valid [102])).1 hstep
  have hkept := h Answers.plain 3 ⟨linkedFs, 0, 0⟩ rfl 3 [102] 4 hentry hout
  rw [FileSystem.step_eq_some_iff.2 (.inl hkept)] at hgone
  cases hgone

end VModule

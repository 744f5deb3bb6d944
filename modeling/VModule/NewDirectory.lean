/-
**A directory that is made.**

`mkdir` gives a directory a new entry, for a new directory without entries.  What a path leads to
then can be told beforehand: the walk is done over the missing entry as if there were an empty
directory, for which the next free inode stands.

Main definitions:

* `FileSystem.HasParent` — there is a directory in which a path can be made;
* `FileSystem.withDir` — the file system with a new directory;
* `FileSystem.WalkOver`, `FileSystem.LeadsOver` — a walk over an entry that is missing.

Main results:

* `FileSystem.Walk.simulate` — a walk goes the same way in a file system whose steps agree;
* `FileSystem.mkdir_eq_ok`, `FileSystem.mkdir_of_place`, `FileSystem.mkdir_eq_other_iff` — what
  `mkdir` does, and when it does nothing;
* `FileSystem.stat_withDir`, `FileSystem.stat_of_new` — what the path of a new directory leads to;
* `FileSystem.isDirectory_withDir_iff` — **where a path leads once the directory is there**;
* `FileSystem.leadsOver_append_iff` — and what that means for a path without `..`.
-/

import VModule.FileSystem

set_option relaxedAutoImplicit false
set_option autoImplicit false

open PathName

namespace FileSystem

variable {fs gs : FileSystem} {i j k : Inode} {n : FileName} {p : PathName}

/-! ### Two file systems -/

/-- A walk goes the same way where the steps from a set of inodes agree and stay in the set, and
the symbolic links in the set are the same. -/
theorem Walk.simulate {R : Set Inode} (hroot : gs.root = fs.root) (hin : fs.root ∈ R)
    (hstep : ∀ i ∈ R, ∀ n j, fs.step i n = some j → gs.step i n = some j ∧ j ∈ R)
    (hlink : ∀ i ∈ R, ∀ t, gs.node i = .link t ↔ fs.node i = .link t) {b : ℕ}
    {ns : List FileName} {used : List (Inode × FileName)} (h : fs.Walk b i ns used k)
    (hi : i ∈ R) : gs.Walk b i ns used k := by
  induction h with
  | nil b i => exact .nil b i
  | @name b i n j ns used k hj hno _ ih =>
      obtain ⟨hj', hjR⟩ := hstep i hi n j hj
      exact .name hj' (fun t ht => hno t ((hlink j hjR t).1 ht)) (ih hjR)
  | @link b i n j t ns used k hj ht _ ih =>
      obtain ⟨hj', hjR⟩ := hstep i hi n j hj
      have hstart : gs.start i t = fs.start i t := by rw [start, start, hroot]
      have hstartR : fs.start i t ∈ R := by
        unfold start
        split
        · exact hin
        · exact hi
      refine .link hj' ((hlink j hjR t).2 ht) ?_
      rw [hstart]
      exact ih hstartR

theorem step_congr (h : gs.node i = fs.node i) (n : FileName) : gs.step i n = fs.step i n := by
  rw [step, step, h]

/-! ### A new directory -/

/-- The node of a directory without entries. -/
def emptyDir (mode : ℕ) (i : Inode) : FsNode := .dir ⟨mode, i, []⟩

theorem emptyDir_new (mode : ℕ) (i : Inode) :
    ∀ d', emptyDir mode i = .dir d' → d'.parent = i ∧ d'.entries = [] := by
  rintro _ ⟨⟩
  exact ⟨rfl, rfl⟩

/-- The file system with a new directory, which the directory `d` at `i` calls `n`. -/
def withDir (fs : FileSystem) (i : Inode) (d : Directory) (n : FileName) (mode : ℕ)
    (hd : fs.node i = .dir d) (hn : Valid n ∧ n ∉ d.entries.map Prod.fst) : FileSystem :=
  fs.add i d n (emptyDir mode i) hd hn (emptyDir_new mode i)

/-- **What `mkdir` does**: the place of the path is a name that a directory does not have yet. -/
theorem mkdir_eq_ok {mode : ℕ} (h : fs.mkdir p mode = .ok gs) :
    ∃ i n d, ∃ hd : fs.node i = .dir d, ∃ hn : Valid n ∧ n ∉ d.entries.map Prod.fst,
      fs.place p = some (i, n) ∧ gs = fs.withDir i d n mode hd hn := by
  unfold mkdir at h
  split at h
  case h_1 =>
    split at h
    · cases h
    · cases h
  case h_2 n hlast =>
    split at h
    case h_1 => cases h
    case h_2 i hi =>
      split at h
      case h_1 d hd =>
        split at h
        case isTrue hn =>
          refine ⟨i, n, d, hd, hn, ?_, ?_⟩
          · simp only [place, hlast, if_pos hn.1, hi, Option.map_some]
          · cases h
            rfl
        case isFalse => cases h
      case h_2 => cases h

section WithDir

variable {d : Directory} {mode : ℕ} {hd : fs.node i = .dir d}
  {hn : Valid n ∧ n ∉ d.entries.map Prod.fst}

theorem ne_next_of_dir (hd : fs.node i = .dir d) : i ≠ fs.next := by
  rintro rfl
  rw [fs.allocated _ (Nat.le_refl _)] at hd
  cases hd

theorem node_withDir_self : (fs.withDir i d n mode hd hn).node i =
    .dir { d with entries := d.entries ++ [(n, fs.next)] } :=
  Function.update_self ..

theorem node_withDir_next : (fs.withDir i d n mode hd hn).node fs.next = emptyDir mode i := by
  have hi := ne_next_of_dir hd
  show addNode fs.node fs.next i d n (emptyDir mode i) fs.next = emptyDir mode i
  rw [addNode, Function.update_of_ne hi.symm, Function.update_self]

theorem node_withDir_of_ne (hi : j ≠ i) (hnext : j ≠ fs.next) :
    (fs.withDir i d n mode hd hn).node j = fs.node j := by
  show addNode fs.node fs.next i d n (emptyDir mode i) j = fs.node j
  rw [addNode, Function.update_of_ne hi, Function.update_of_ne hnext]

theorem hasEntry_withDir {i' : Inode} {n' : FileName} :
    HasEntry (fs.withDir i d n mode hd hn).node i' n' j ↔
      HasEntry fs.node i' n' j ∨ i' = i ∧ n' = n ∧ j = fs.next :=
  hasEntry_addNode hd (fs.allocated _ (Nat.le_refl _)) (emptyDir_new mode i)

theorem node_withDir_eq_link (t : PathName) :
    (fs.withDir i d n mode hd hn).node j = .link t ↔ fs.node j = .link t := by
  by_cases hi : j = i
  · subst hi
    rw [node_withDir_self, hd]
    simp
  · by_cases hnext : j = fs.next
    · subst hnext
      rw [node_withDir_next, fs.allocated _ (Nat.le_refl _)]
      simp [emptyDir]
    · rw [node_withDir_of_ne hi hnext]

/-- A step is still there beside a new directory. -/
theorem step_withDir {i' : Inode} {n' : FileName} (h : fs.step i' n' = some j) :
    (fs.withDir i d n mode hd hn).step i' n' = some j := by
  rw [step_eq_some_iff] at h ⊢
  rcases h with h | ⟨d', hd', hdots⟩
  · exact .inl (hasEntry_withDir.2 (.inl h))
  · right
    by_cases hi : i' = i
    · subst hi
      obtain rfl : d = d' := FsNode.dir.inj (hd.symm.trans hd')
      exact ⟨_, node_withDir_self, hdots⟩
    · exact ⟨d', (node_withDir_of_ne hi (ne_next_of_dir hd')).trans hd', hdots⟩

/-- A walk is still there beside a new directory. -/
theorem Walk.withDir {b : ℕ} {j : Inode} {ns : List FileName} {used : List (Inode × FileName)}
    (h : fs.Walk b j ns used k) : (fs.withDir i d n mode hd hn).Walk b j ns used k := by
  have hroot : (fs.withDir i d n mode hd hn).root = fs.root := rfl
  refine Walk.simulate (R := Set.univ) hroot trivial ?_ ?_ h trivial
  · intro _ _ _ _ hstep
    exact ⟨step_withDir hstep, trivial⟩
  · intro _ _ t
    exact node_withDir_eq_link t

theorem place_withDir (hplace : fs.place p = some (i, n)) :
    (fs.withDir i d n mode hd hn).place p = some (i, n) := by
  obtain ⟨ns, used, hp, hv, hw⟩ := place_eq_some_iff.1 hplace
  exact place_eq_some_iff.2 ⟨ns, used, hp, hv, hw.withDir⟩

/-- The path of a new directory leads to it. -/
theorem stat_withDir (hplace : fs.place p = some (i, n)) :
    (fs.withDir i d n mode hd hn).stat p = some fs.next := by
  refine stat_of_place (place_withDir hplace) (hasEntry_withDir.2 (.inr ⟨rfl, rfl, rfl⟩)) ?_ ?_
  · intro t
    rw [node_withDir_next]
    exact FsNode.noConfusion
  · intro _
    exact ⟨_, node_withDir_next⟩

/-- Before, the path of a new directory led nowhere. -/
theorem stat_of_new (hd : fs.node i = .dir d) (hn : n ∉ d.entries.map Prod.fst)
    (hplace : fs.place p = some (i, n)) : fs.stat p = none := by
  obtain ⟨ns, used, hp, hv, hw⟩ := place_eq_some_iff.1 hplace
  rw [Option.eq_none_iff_forall_ne_some]
  intro k hk
  obtain ⟨used', hall⟩ := walk_pieces_of_stat hk
  rw [hp] at hall
  obtain ⟨b', j, u₁, u₂, -, -, h₁, h₂⟩ := hall.of_append
  obtain rfl := (h₁.unique hw).2
  obtain ⟨⟨m, hm⟩, -⟩ := h₂.head
  have hentry := (step_eq_some_iff_of_valid hv).1 hm
  exact hn ((mem_entries_iff hd).1 ⟨m, hentry⟩)

/-- A new directory has no entries. -/
theorem list_withDir (hplace : fs.place p = some (i, n)) :
    (fs.withDir i d n mode hd hn).list p = some [dot, dotDot] :=
  list_eq_some_iff.2 ⟨_, _, stat_withDir hplace, node_withDir_next, rfl⟩

/-- A new directory can be removed. -/
theorem remove_withDir (hplace : fs.place p = some (i, n)) :
    (fs.withDir i d n mode hd hn).remove p =
      some ((fs.withDir i d n mode hd hn).without {(i, n)}) := by
  refine remove_eq_some_iff.2 ⟨i, n, fs.next, place_withDir hplace,
    hasEntry_withDir.2 (.inr ⟨rfl, rfl, rfl⟩), rfl, ?_, ?_⟩
  · intro d' hd'
    rw [node_withDir_next] at hd'
    rw [← FsNode.dir.inj hd']
  · intro hno
    exact absurd node_withDir_next (hno _)

/-- There is nothing below a new directory. -/
theorem stat_below_new {fs : FileSystem} {i : Inode} {n m : FileName} {p : PathName}
    {d : Directory} {mode : ℕ} {hd : fs.node i = .dir d}
    {hn : Valid n ∧ n ∉ d.entries.map Prod.fst} (hplace : fs.place p = some (i, n))
    (hm : Valid m) : (fs.withDir i d n mode hd hn).stat (p ++ slash :: m) = none := by
  have hp : p ≠ [] := by
    rintro rfl
    cases hplace
  rw [Option.eq_none_iff_forall_ne_some]
  intro k hk
  obtain ⟨used, hall⟩ := walk_pieces_of_stat hk
  rw [pieces_concat p hm, start_append _ _ _ hp] at hall
  obtain ⟨b', j, u₁, u₂, -, -, h₁, h₂⟩ := hall.of_append
  have hnew : (fs.withDir i d n mode hd hn).stat p = some fs.next := stat_withDir hplace
  obtain ⟨used', hw⟩ := walk_pieces_of_stat hnew
  obtain rfl := (h₁.unique hw).2
  obtain ⟨⟨l, hl⟩, -⟩ := h₂.head
  obtain ⟨d', hd', hmem⟩ := (step_eq_some_iff_of_valid hm).1 hl
  rw [node_withDir_next] at hd'
  rw [← FsNode.dir.inj hd'] at hmem
  exact List.not_mem_nil hmem

end WithDir

/-- Where there is something, `mkdir` makes a directory or says that there is. -/
theorem mkdir_ne_other {fs : FileSystem} {p : PathName} {i : Inode} (h : fs.stat p = some i)
    (mode : ℕ) : fs.mkdir p mode ≠ .error .other := by
  obtain ⟨used, hw⟩ := walk_pieces_of_stat h
  have hp : p ≠ [] := (stat_eq_some_iff.1 h).1
  unfold mkdir
  split
  case h_1 =>
    rw [if_neg hp]
    simp
  case h_2 n hlast =>
    rw [← List.dropLast_append_getLast? n hlast] at hw
    obtain ⟨b', j, u₁, u₂, -, -, h₁, h₂⟩ := hw.of_append
    obtain ⟨d, hd⟩ := h₂.exists_dir (List.cons_ne_nil _ _)
    split
    case h_1 hnone =>
      rw [h₁.walk] at hnone
      cases hnone
    case h_2 j' hj' =>
      obtain rfl : j = j' := Option.some_inj.1 (h₁.walk.symm.trans hj')
      split
      case h_1 =>
        split
        · simp
        · simp
      case h_2 hno => exact absurd hd (hno d)

/-- There is a directory in which `p` can be made, or `p` is the root. -/
def HasParent (fs : FileSystem) (p : PathName) : Prop :=
  p ≠ [] ∧ (pieces p = [] ∨ ∃ i d,
    fs.walk linkMax (fs.start fs.cwd p) (pieces p).dropLast = some i ∧ fs.node i = .dir d)

/-- **When `mkdir` fails for another reason than that there is something.** -/
theorem mkdir_eq_other_iff (mode : ℕ) : fs.mkdir p mode = .error .other ↔ ¬ fs.HasParent p := by
  unfold mkdir HasParent
  split
  case h_1 hlast =>
    have hnil : pieces p = [] := List.getLast?_eq_none_iff.1 hlast
    by_cases hp : p = []
    · simp [hp]
    · simp [hp, hnil]
  case h_2 n hlast =>
    have hne : pieces p ≠ [] := by
      intro hnil
      rw [hnil] at hlast
      cases hlast
    have hp : p ≠ [] := by
      intro hp
      rw [hp] at hne
      exact hne rfl
    rw [and_iff_right hp, or_iff_right hne]
    split
    case h_1 hnone => simp [hnone]
    case h_2 i hi =>
      split
      case h_1 d hd =>
        refine iff_of_false ?_ (not_not_intro ⟨i, d, hi, hd⟩)
        split <;> simp
      case h_2 hno =>
        refine iff_of_true rfl ?_
        intro h
        obtain ⟨j, d, hj, hd⟩ := h
        obtain rfl : i = j := Option.some_inj.1 (hi.symm.trans hj)
        exact hno d hd

/-- What is missing in a directory is made. -/
theorem mkdir_of_place {d : Directory} (hplace : fs.place p = some (i, n))
    (hd : fs.node i = .dir d) (hn : n ∉ d.entries.map Prod.fst) (mode : ℕ) :
    ∃ gs, fs.mkdir p mode = .ok gs := by
  obtain ⟨ns, used, hp, hv, hw⟩ := place_eq_some_iff.1 hplace
  have hlast : (pieces p).getLast? = some n := by rw [hp, List.getLast?_concat]
  have hwalk : fs.walk linkMax (fs.start fs.cwd p) (pieces p).dropLast = some i := by
    rw [hp, List.dropLast_concat]
    exact hw.walk
  have hnot : ∀ e, fs.mkdir p mode ≠ .error e := by
    intro e he
    unfold mkdir at he
    split at he
    case h_1 hnone =>
      rw [hlast] at hnone
      cases hnone
    case h_2 m hm =>
      obtain rfl : n = m := Option.some_inj.1 (hlast.symm.trans hm)
      split at he
      case h_1 hnone =>
        rw [hwalk] at hnone
        cases hnone
      case h_2 j hj =>
        obtain rfl : i = j := Option.some_inj.1 (hwalk.symm.trans hj)
        split at he
        case h_1 d' hd' =>
          obtain rfl : d = d' := FsNode.dir.inj (hd.symm.trans hd')
          rw [dif_pos ⟨hv, hn⟩] at he
          cases he
        case h_2 hno => exact hno d hd
  cases h : fs.mkdir p mode with
  | ok gs => exact ⟨gs, rfl⟩
  | error e => exact absurd h (hnot e)

/-! ### Where a path will lead -/

/-- The inode that a component leads to, with an empty directory for the missing entry `e`. -/
def stepOver (fs : FileSystem) (e : Inode × FileName) (i : Inode) (n : FileName) : Option Inode :=
  if i = fs.next then if n = dot then some i else if n = dotDot then some e.1 else none
  else if (i, n) = e then some fs.next
  else fs.step i n

/-- A walk with an empty directory for the missing entry `e`. -/
inductive WalkOver (fs : FileSystem) (e : Inode × FileName) :
    ℕ → Inode → List FileName → Inode → Prop
  | nil (b i) : WalkOver fs e b i [] i
  | name {b i n j ns k} : fs.stepOver e i n = some j → (∀ t, fs.node j ≠ .link t) →
      WalkOver fs e b j ns k → WalkOver fs e b i (n :: ns) k
  | link {b i n j t ns k} : fs.stepOver e i n = some j → fs.node j = .link t →
      WalkOver fs e b (fs.start i t) (comps t ++ ns) k → WalkOver fs e (b + 1) i (n :: ns) k

/-- `p` leads to a directory if there is an empty one for the missing entry `e`. -/
def LeadsOver (fs : FileSystem) (e : Inode × FileName) (p : PathName) : Prop :=
  p ≠ [] ∧ ∃ k, fs.WalkOver e linkMax (fs.start fs.cwd p) (comps p) k ∧
    (k = fs.next ∨ ∃ d, fs.node k = .dir d)

section WithDir

variable {d : Directory} {mode : ℕ} {hd : fs.node i = .dir d}
  {hn : Valid n ∧ n ∉ d.entries.map Prod.fst}

/-- The steps beside a new directory, and in it. -/
theorem stepOver_eq (j : Inode) (m : FileName) :
    fs.stepOver (i, n) j m = (fs.withDir i d n mode hd hn).step j m := by
  unfold stepOver
  by_cases hnext : j = fs.next
  · subst hnext
    rw [if_pos rfl, step, node_withDir_next]
    rfl
  · rw [if_neg hnext]
    by_cases hj : j = i
    · subst hj
      have hnode : (fs.withDir j d n mode hd hn).node j =
          .dir { d with entries := d.entries ++ [(n, fs.next)] } := node_withDir_self
      simp only [step, hnode, hd]
      by_cases hm : m = n
      · subst hm
        have hlookup : d.entries.lookup m = none := by
          refine List.lookup_eq_none_iff.2 fun e he => ?_
          have hne : m ≠ e.1 := by
            rintro rfl
            exact hn.2 (List.mem_map_of_mem he)
          simp [hne]
        simp [hn.1.2.1, hn.1.2.2.1, List.lookup_append, hlookup]
      · simp [List.lookup_append, List.lookup_cons, hm, beq_false_of_ne hm]
    · rw [if_neg fun h => hj (congrArg Prod.fst h)]
      exact (step_congr (node_withDir_of_ne hj hnext) m).symm

/-- **The walks beside a new directory, and through it.** -/
theorem walkOver_iff {b : ℕ} {j : Inode} {ns : List FileName} :
    fs.WalkOver (i, n) b j ns k ↔ ∃ used, (fs.withDir i d n mode hd hn).Walk b j ns used k := by
  constructor
  · intro h
    induction h with
    | nil b j => exact ⟨[], .nil b j⟩
    | name hstep hno _ ih =>
        obtain ⟨used, hw⟩ := ih
        exact ⟨_, .name ((stepOver_eq _ _).symm.trans hstep)
          (fun t ht => hno t ((node_withDir_eq_link t).1 ht)) hw⟩
    | link hstep ht _ ih =>
        obtain ⟨used, hw⟩ := ih
        exact ⟨_, .link ((stepOver_eq _ _).symm.trans hstep) ((node_withDir_eq_link _).2 ht) hw⟩
  · intro h
    obtain ⟨used, h⟩ := h
    induction h with
    | nil b j => exact .nil b j
    | name hstep hno _ ih =>
        exact .name ((stepOver_eq _ _).trans hstep)
          (fun t ht => hno t ((node_withDir_eq_link t).2 ht)) ih
    | link hstep ht _ ih =>
        exact .link ((stepOver_eq _ _).trans hstep) ((node_withDir_eq_link _).1 ht) ih

/-- What is a directory, once the new one is there. -/
theorem exists_dir_withDir : (∃ d', (fs.withDir i d n mode hd hn).node k = .dir d') ↔
    k = fs.next ∨ ∃ d', fs.node k = .dir d' := by
  by_cases hnext : k = fs.next
  · rw [hnext]
    exact iff_of_true ⟨_, node_withDir_next⟩ (.inl rfl)
  · rw [or_iff_right hnext]
    by_cases hk : k = i
    · rw [hk]
      exact iff_of_true ⟨_, node_withDir_self⟩ ⟨d, hd⟩
    · rw [node_withDir_of_ne hk hnext]

/-- **Where a path leads once the directory is there** can be told before. -/
theorem isDirectory_withDir_iff :
    (fs.withDir i d n mode hd hn).IsDirectory p ↔ fs.LeadsOver (i, n) p := by
  constructor
  · intro h
    obtain ⟨k, d', hstat, hd'⟩ := h
    obtain ⟨hp, used, hw⟩ := stat_eq_some_iff.1 hstat
    exact ⟨hp, k, walkOver_iff.2 ⟨used, hw⟩, exists_dir_withDir.1 ⟨d', hd'⟩⟩
  · intro h
    obtain ⟨hp, k, hw, hk⟩ := h
    obtain ⟨used, hw⟩ := walkOver_iff.1 hw
    obtain ⟨d', hd'⟩ := exists_dir_withDir.2 hk
    exact ⟨k, d', stat_eq_some_iff.2 ⟨hp, used, hw⟩, hd'⟩

/-- A directory is still there beside a new one. -/
theorem IsDirectory.withDir (h : fs.IsDirectory p) :
    (fs.withDir i d n mode hd hn).IsDirectory p := by
  obtain ⟨k, d', hstat, hd'⟩ := h
  obtain ⟨hp, used, hw⟩ := stat_eq_some_iff.1 hstat
  obtain ⟨d'', hd''⟩ := exists_dir_withDir.2 (.inr ⟨d', hd'⟩)
  exact ⟨k, d'', stat_eq_some_iff.2 ⟨hp, used, hw.withDir⟩, hd''⟩

/-- In a new directory there is no way but `.`, and back. -/
theorem Walk.eq_dot_of_new {b : ℕ} {ns : List FileName} {used : List (Inode × FileName)}
    (h : (fs.withDir i d n mode hd hn).Walk b fs.next ns used k) (hns : dotDot ∉ ns) :
    ∀ m ∈ ns, m = dot := by
  induction ns generalizing b used with
  | nil => exact fun m hm => absurd hm List.not_mem_nil
  | cons m ns ih =>
      rw [List.mem_cons, not_or] at hns
      obtain ⟨⟨j, hj⟩, -⟩ := h.head
      rw [← stepOver_eq, stepOver, if_pos rfl] at hj
      by_cases hm : m = dot
      · subst hm
        have hrest : (fs.withDir i d n mode hd hn).Walk 0 fs.next [dot] [(fs.next, dot)] fs.next :=
          .name (step_dot node_withDir_next) (by simp [node_withDir_next, emptyDir]) (.nil 0 _)
        rw [← List.singleton_append] at h
        obtain ⟨b', l, u₁, u₂, -, -, h₁, h₂⟩ := h.of_append
        obtain rfl := (h₁.unique hrest).2
        intro m' hm'
        rcases List.mem_cons.1 hm' with rfl | hm'
        · rfl
        · exact ih h₂ hns.2 m' hm'
      · rw [if_neg hm, if_neg (Ne.symm hns.1)] at hj
        cases hj

theorem Walk.dots_of_new {ns : List FileName} (h : ∀ m ∈ ns, m = dot) :
    ∃ used, (fs.withDir i d n mode hd hn).Walk 0 fs.next ns used fs.next := by
  induction ns with
  | nil => exact ⟨[], .nil 0 _⟩
  | cons m ns ih =>
      obtain ⟨used, hw⟩ := ih fun m' hm' => h m' (List.mem_cons_of_mem m hm')
      rw [h m List.mem_cons_self]
      exact ⟨_, .name (step_dot node_withDir_next) (by simp [node_withDir_next, emptyDir]) hw⟩

/-- Nothing follows the missing directory in a path but slashes and `.`, unless there is a `..`. -/
theorem leadsOver_append_iff {q r : PathName} (hplace : fs.place q = some (i, n))
    (hd : fs.node i = .dir d) (hn : n ∉ d.entries.map Prod.fst) (hr : dotDot ∉ pieces r) :
    fs.LeadsOver (i, n) (q ++ slash :: r) ↔ ∀ m ∈ pieces r, m = dot := by
  have hv : Valid n := by
    obtain ⟨-, -, -, hv, -⟩ := place_eq_some_iff.1 hplace
    exact hv
  have hq : q ≠ [] := by
    rintro rfl
    cases hplace
  have hnew : (fs.withDir i d n 0 hd ⟨hv, hn⟩).stat q = some fs.next := stat_withDir hplace
  obtain ⟨used, hw⟩ := walk_pieces_of_stat hnew
  have hiff : (fs.withDir i d n 0 hd ⟨hv, hn⟩).IsDirectory (q ++ slash :: r) ↔
      fs.LeadsOver (i, n) (q ++ slash :: r) := isDirectory_withDir_iff
  rw [← hiff]
  constructor
  · intro h
    obtain ⟨k, -, hk, -⟩ := h
    obtain ⟨used', hall⟩ := walk_pieces_of_stat hk
    rw [pieces_append, start_append _ _ _ hq] at hall
    obtain ⟨b', j, u₁, u₂, -, -, h₁, h₂⟩ := hall.of_append
    obtain rfl := (h₁.unique hw).2
    exact h₂.eq_dot_of_new hr
  · intro h
    have hdots : ∀ m ∈ pieces r ++ if (q ++ slash :: r).getLast? = some slash then [dot] else [],
        m = dot := by
      intro m hm
      rcases List.mem_append.1 hm with hm | hm
      · exact h m hm
      · split at hm
        · exact List.mem_singleton.1 hm
        · cases hm
    obtain ⟨used', hrest⟩ := Walk.dots_of_new hdots
    refine ⟨fs.next, _, stat_eq_some_iff.2 ⟨by simp, used ++ used', ?_⟩, node_withDir_next⟩
    rw [comps, pieces_append, List.append_assoc, start_append _ _ _ hq]
    exact hw.append hrest

end WithDir

end FileSystem

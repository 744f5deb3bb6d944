/-
**The tree of a directory.**

The directories that a directory holds at any depth, their entries, and the rows of names that lead
to them.  In a file system without cycles, in which a directory has one entry, the trees of two
entries of one directory have nothing in common, and one row of names leads to a directory.

Main definitions:

* `FileSystem.Below`, `FileSystem.tree` — the directories below a directory, and their entries;
* `FileSystem.branch`, `FileSystem.branches` — what goes when one entry of a directory goes, or
  several;
* `FileSystem.Chain`, `PathName.join` — a row of names through a tree, and its path.

Main results:

* `FileSystem.not_below_of_hasEntry` — a directory is not below one that it holds;
* `FileSystem.mem_tree_iff`, `FileSystem.branch_disjoint`, `FileSystem.branches_eq_tree` — a tree is
  made of its branches, and they are disjoint;
* `FileSystem.Chain.unique` — one row of names leads to a directory.
-/

import VModule.FileSystem

set_option relaxedAutoImplicit false
set_option autoImplicit false

open PathName

namespace FileSystem

/-! ### Below a directory -/

/-- The directories that a directory holds, at any depth. -/
inductive Below (fs : FileSystem) (i : Inode) : Inode → Prop
  | self : Below fs i i
  | entry {j n k d} : Below fs i j → HasEntry fs.node j n k → fs.node k = .dir d → Below fs i k

/-- The entries of a directory, at any depth. -/
def tree (fs : FileSystem) (i : Inode) : Set (Inode × FileName) :=
  {e ∈ fs.entries | fs.Below i e.1}

variable {fs : FileSystem} {i j k x : Inode} {n : FileName} {d : Directory}

theorem Below.trans (h : fs.Below i j) (h' : fs.Below j k) : fs.Below i k := by
  induction h' with
  | self => exact h
  | entry _ hentry hd ih => exact ih.entry hentry hd

/-- Where the tree of a directory begins. -/
theorem Below.cases_head (h : fs.Below i x) :
    x = i ∨ ∃ n j d, HasEntry fs.node i n j ∧ fs.node j = .dir d ∧ fs.Below j x := by
  induction h with
  | self => exact .inl rfl
  | @entry j n k d hj hentry hd ih =>
      right
      rcases ih with rfl | ⟨n', j', d', hentry', hd', hbelow⟩
      · exact ⟨n, k, d, hentry, hd, .self⟩
      · exact ⟨n', j', d', hentry', hd', hbelow.entry hentry hd⟩

/-- No directory is below one that it holds. -/
theorem not_below_of_hasEntry (h : HasEntry fs.node i n j) (hd : fs.node j = .dir d) :
    ¬ fs.Below j i := by
  obtain ⟨depth, hdepth⟩ := fs.acyclic
  have hle : ∀ {x}, fs.Below j x → depth j ≤ depth x := by
    intro x hx
    induction hx with
    | self => exact le_rfl
    | entry _ hentry hk ih => exact ih.trans (hdepth hentry hk).le
  exact fun hbelow => absurd (hdepth h hd) (hle hbelow).not_gt

/-- A directory is in one place. -/
theorem dir_entry_unique {i' : Inode} {n' : FileName} (h : HasEntry fs.node i n j)
    (h' : HasEntry fs.node i' n' j) (hd : fs.node j = .dir d) : i = i' ∧ n = n' := by
  obtain rfl : i = i' := (fs.parent_eq h hd).symm.trans (fs.parent_eq h' hd)
  exact ⟨rfl, fs.one_entry h h' hd⟩

/-- The directories above one directory are in a row. -/
theorem Below.linear (hj : fs.Below j x) (hk : fs.Below k x) : fs.Below j k ∨ fs.Below k j := by
  induction hj with
  | self => exact .inr hk
  | @entry y n z d hy hentry hd ih =>
      cases hk with
      | self => exact .inl (hy.entry hentry hd)
      | entry hk' hentry' hd' =>
          obtain ⟨rfl, -⟩ := dir_entry_unique hentry hentry' hd
          exact ih hk'

/-! ### Branches -/

/-- What goes when the entry `n` of directory `i` goes: that entry and its tree. -/
def branch (fs : FileSystem) (i : Inode) (n : FileName) : Set (Inode × FileName) :=
  insert (i, n) {e | ∃ j, HasEntry fs.node i n j ∧ e ∈ fs.tree j}

theorem exists_dir_of_mem_tree {e : Inode × FileName} (h : e ∈ fs.tree i) :
    ∃ d, fs.node i = .dir d := by
  obtain ⟨⟨j, d, hd, -⟩, hbelow⟩ := h
  rcases hbelow.cases_head with he | ⟨n, j', d', ⟨d'', hd'', -⟩, -⟩
  · exact ⟨d, he ▸ hd⟩
  · exact ⟨d'', hd''⟩

/-- A tree is made of its branches. -/
theorem mem_tree_iff {e : Inode × FileName} :
    e ∈ fs.tree i ↔ ∃ n, (i, n) ∈ fs.entries ∧ e ∈ fs.branch i n := by
  constructor
  · rintro ⟨he, hbelow⟩
    rcases hbelow.cases_head with hi | ⟨n, j, d, hentry, hd, hj⟩
    · obtain ⟨x, n⟩ := e
      obtain rfl : x = i := hi
      exact ⟨n, he, .inl rfl⟩
    · exact ⟨n, ⟨j, hentry⟩, .inr ⟨j, hentry, he, hj⟩⟩
  · rintro ⟨n, hn, rfl | ⟨j, hentry, he⟩⟩
    · exact ⟨hn, .self⟩
    · obtain ⟨d, hd⟩ := exists_dir_of_mem_tree he
      exact ⟨he.1, (Below.self.entry hentry hd).trans he.2⟩

/-- What goes when the entries of directory `i` with these names go. -/
def branches (fs : FileSystem) (i : Inode) (names : List FileName) : Set (Inode × FileName) :=
  {e | ∃ n ∈ names, (i, n) ∈ fs.entries ∧ e ∈ fs.branch i n}

@[simp] theorem branches_nil : fs.branches i [] = ∅ := by
  ext e
  simp [branches]

/-- A name that no entry has takes nothing. -/
theorem branches_cons_of_notMem {names : List FileName} (hn : (i, n) ∉ fs.entries) :
    fs.branches i (n :: names) = fs.branches i names := by
  ext e
  simp [branches, hn]

theorem branches_cons_of_mem {names : List FileName} (hn : (i, n) ∈ fs.entries) :
    fs.branches i (n :: names) = fs.branch i n ∪ fs.branches i names := by
  ext e
  simp [branches, hn]

/-- All entries together are the tree. -/
theorem branches_eq_tree {names : List FileName} (h : ∀ n, (i, n) ∈ fs.entries → n ∈ names) :
    fs.branches i names = fs.tree i := by
  ext e
  rw [mem_tree_iff]
  exact ⟨fun ⟨n, _, hn, he⟩ => ⟨n, hn, he⟩, fun ⟨n, hn, he⟩ => ⟨n, h n hn, hn, he⟩⟩

/-- The entry of a directory is not in the tree of the directory. -/
theorem notMem_tree_of_hasEntry (h : HasEntry fs.node i n j) : (i, n) ∉ fs.tree j := by
  intro hmem
  obtain ⟨d, hd⟩ := exists_dir_of_mem_tree hmem
  exact not_below_of_hasEntry h hd hmem.2

theorem branch_disjoint {n' : FileName} (hne : n ≠ n') :
    ∀ e ∈ fs.branch i n, e ∉ fs.branch i n' := by
  rintro e (rfl | ⟨j, hj, he⟩) (he' | ⟨j', hj', he'⟩)
  · exact hne (Prod.ext_iff.1 he').2
  · obtain ⟨d, hd⟩ := exists_dir_of_mem_tree he'
    exact not_below_of_hasEntry hj' hd he'.2
  · obtain ⟨d, hd⟩ := exists_dir_of_mem_tree he
    obtain rfl : e = (i, n') := he'
    exact not_below_of_hasEntry hj hd he.2
  · obtain ⟨d, hd⟩ := exists_dir_of_mem_tree he
    obtain ⟨d', hd'⟩ := exists_dir_of_mem_tree he'
    -- one of the two directories holds the other, and then it holds the directory of both
    have hapart : ∀ {a b : Inode} {l l' : FileName} {da db : Directory},
        HasEntry fs.node i l a → HasEntry fs.node i l' b → fs.node a = .dir da →
        fs.node b = .dir db → l ≠ l' → ¬ fs.Below a b := by
      intro a b l l' da db ha hb hda hdb hl hbelow
      cases hbelow with
      | self => exact hl (dir_entry_unique ha hb hda).2
      | entry hy hentry _ =>
          obtain ⟨rfl, -⟩ := dir_entry_unique hentry hb hdb
          exact not_below_of_hasEntry ha hda hy
    rcases he.2.linear he'.2 with h | h
    · exact hapart hj hj' hd hd' hne h
    · exact hapart hj' hj hd' hd hne.symm h

end FileSystem

/-! ### Rows of names -/

namespace PathName

/-- The path of a row of names below `p`. -/
def join (p : PathName) (ns : List FileName) : PathName :=
  ns.foldl (fun q n => q ++ slash :: n) p

@[simp] theorem join_nil (p : PathName) : join p [] = p := rfl

theorem join_concat (p : PathName) (ns : List FileName) (n : FileName) :
    join p (ns ++ [n]) = join p ns ++ slash :: n := by
  rw [join, join, List.foldl_append, List.foldl_cons, List.foldl_nil]

theorem join_cons (p : PathName) (n : FileName) (ns : List FileName) :
    join p (n :: ns) = join (p ++ slash :: n) ns := rfl

theorem exists_join_eq (p : PathName) (ns : List FileName) : ∃ r, join p ns = p ++ r := by
  induction ns generalizing p with
  | nil => exact ⟨[], (List.append_nil p).symm⟩
  | cons n ns ih =>
      obtain ⟨r, hr⟩ := ih (p ++ slash :: n)
      exact ⟨slash :: n ++ r, by rw [join_cons, hr, List.append_assoc]⟩

end PathName

namespace FileSystem

/-- A row of names that leads from `i` to `j`. -/
inductive Chain (fs : FileSystem) (i : Inode) : List FileName → Inode → Prop
  | nil : Chain fs i [] i
  | concat {ns j n k} : Chain fs i ns j → HasEntry fs.node j n k → Chain fs i (ns ++ [n]) k

variable {fs : FileSystem} {i j k : Inode} {n : FileName} {ns ns' : List FileName}

theorem Chain.toBelow {d : Directory} (h : fs.Chain i ns j) (hd : fs.node j = .dir d) :
    fs.Below i j := by
  induction h generalizing d with
  | nil => exact .self
  | concat _ hentry ih =>
      obtain ⟨d', hd', -⟩ := id hentry
      exact (ih hd').entry hentry hd

theorem Chain.cons (hentry : HasEntry fs.node i n j) (h : fs.Chain j ns k) :
    fs.Chain i (n :: ns) k := by
  induction h with
  | nil => exact Chain.nil.concat hentry
  | concat _ hk ih => exact ih.concat hk

/-- One row of names leads to a directory. -/
theorem Chain.unique {d : Directory} (h : fs.Chain i ns j) (h' : fs.Chain i ns' j)
    (hd : fs.node j = .dir d) : ns = ns' := by
  induction h generalizing ns' d with
  | nil =>
      cases h' with
      | nil => rfl
      | concat hx hentry =>
          obtain ⟨d', hd', -⟩ := id hentry
          exact absurd (hx.toBelow hd') (not_below_of_hasEntry hentry hd)
  | concat hx hentry ih =>
      obtain ⟨d', hd', -⟩ := id hentry
      cases h' with
      | nil => exact absurd (hx.toBelow hd') (not_below_of_hasEntry hentry hd)
      | concat hx' hentry' =>
          obtain ⟨rfl, rfl⟩ := dir_entry_unique hentry hentry' hd
          rw [ih hx' hd']

theorem Chain.pieces_join (h : fs.Chain i ns j) (p : PathName) :
    pieces (join p ns) = pieces p ++ ns := by
  induction h with
  | nil => exact (List.append_nil _).symm
  | concat _ hentry ih =>
      rw [join_concat, pieces_concat _ (fs.names_valid hentry), ih, List.append_assoc]

end FileSystem

/-
**A file system of inodes, entries and symbolic links.**

Directories are lists of entries, an entry is a name and the inode it stands for, and a path is a
text that is cut at its slashes and walked from the root or from the current directory.  A
symbolic link that is met on the way is replaced by its text; the last component is followed by
`stat` and not by the calls that make or remove an entry.

Every change that only takes entries away is a *pruning*, and the module is built around what a
pruning does to a walk: a walk that still succeeds is the walk it was, and it succeeds exactly
when none of the entries it goes through has gone.

Main definitions:

* `FileSystem` — inodes with the invariant of a tree: valid and distinct names, one entry for each
  directory, no cycle;
* `FileSystem.walk`, `FileSystem.stat`, `FileSystem.place` — what a path leads to, and the entry
  that it names;
* `FileSystem.Walk` — the walk with the entries that it goes through;
* `FileSystem.mkdir`, `FileSystem.remove` — the calls that make a directory and remove an entry;
* `FileSystem.without` — the file system after a set of entries is gone.

Main results:

* `FileSystem.Walk.of_append` — a walk goes through what the front part of its path leads to;
* `FileSystem.Walk.of_prune`, `FileSystem.Walk.prune` — a pruning keeps the walks that go through
  none of the entries it takes, and adds none;
* `FileSystem.remove_eq_some_iff` — a removal takes the one entry that its path names.
-/

import Mathlib.Data.Set.Insert
import Mathlib.Data.List.Nodup
import Mathlib.Logic.Function.Basic

set_option relaxedAutoImplicit false
set_option autoImplicit false

/-! ### Names and paths -/

theorem List.lookup_eq_some_iff_mem {α β : Type*} [BEq α] [LawfulBEq α] {l : List (α × β)}
    {a : α} {b : β} (h : (l.map Prod.fst).Nodup) : l.lookup a = some b ↔ (a, b) ∈ l := by
  induction l with
  | nil => simp
  | cons e l ih =>
      obtain ⟨hnot, hl⟩ := List.nodup_cons.1 h
      rw [List.mem_cons, List.lookup_cons]
      cases he : a == e.1 with
      | true =>
          obtain rfl : a = e.1 := beq_iff_eq.1 he
          have hmem : (e.1, b) ∉ l := fun hmem => hnot (List.mem_map.2 ⟨_, hmem, rfl⟩)
          simp only [Option.some_inj, or_iff_left hmem, Prod.ext_iff, true_and]
          exact eq_comm
      | false =>
          have hne : (a, b) ≠ e := by
            rintro rfl
            simp at he
          simp only [ih hl, or_iff_right hne]


abbrev Inode := ℕ

/-- The name of an entry. -/
abbrev FileName := List UInt8

/-- A path, without the zero that ends it in C. -/
abbrev PathName := List UInt8

namespace PathName

def slash : UInt8 := 47

def dot : FileName := [46]

def dotDot : FileName := [46, 46]

/-- The components of a path, between its slashes. -/
def pieces (p : PathName) : List FileName := (p.splitOn slash).filter (· ≠ [])

/-- The components that are walked: a path that ends with a slash asks for a directory. -/
def comps (p : PathName) : List FileName :=
  p.pieces ++ if p.getLast? = some slash then [dot] else []

/-- A name that a directory can hold. -/
def Valid (n : FileName) : Prop := n ≠ [] ∧ n ≠ dot ∧ n ≠ dotDot ∧ slash ∉ n

instance (n : FileName) : Decidable (Valid n) := by unfold Valid; infer_instance

@[simp] theorem pieces_nil : pieces [] = [] := rfl

theorem pieces_append (q r : PathName) : pieces (q ++ slash :: r) = pieces q ++ pieces r := by
  simp only [pieces, List.splitOn_append_cons_self, List.filter_append]

theorem pieces_of_notMem {p : PathName} (h : slash ∉ p) (hp : p ≠ []) : pieces p = [p] := by
  simp only [pieces, List.splitOn_eq_singleton h]
  simp [hp]

theorem pieces_concat {n : FileName} (q : PathName) (hn : Valid n) :
    pieces (q ++ slash :: n) = pieces q ++ [n] := by
  rw [pieces_append, pieces_of_notMem hn.2.2.2 hn.1]

/-- What is added to a path lengthens its last component or comes after it. -/
theorem exists_pieces_append {s : PathName} {ns : List FileName} {m : FileName} (t : PathName)
    (h : pieces s = ns ++ [m]) :
    ∃ x rest, pieces (s ++ t) = ns ++ x :: rest ∧ m <+: x := by
  have hplain : ∀ t : PathName, slash ∉ t →
      ∃ x rest, pieces (s ++ t) = ns ++ x :: rest ∧ m <+: x := by
    intro t ht
    by_cases hs : slash ∈ s.reverse
    · obtain ⟨v, u, hv, hnot⟩ := List.eq_append_cons_of_mem hs
      have hs' : s = u.reverse ++ slash :: v.reverse := by
        rw [← List.reverse_reverse s, hv, List.reverse_append, List.reverse_cons,
          List.append_assoc, List.singleton_append]
      rw [hs', pieces_append] at h
      rw [hs', List.append_assoc, List.cons_append, pieces_append]
      rw [← List.mem_reverse] at hnot
      rcases eq_or_ne v.reverse [] with hnil | hne
      · rw [hnil, pieces_nil, List.append_nil] at h
        refine ⟨m, pieces t, ?_, List.prefix_rfl⟩
        rw [hnil, List.nil_append, h, List.append_assoc, List.singleton_append]
      · rw [pieces_of_notMem hnot hne] at h
        obtain ⟨hns, hm⟩ := List.append_inj' h rfl
        have hnot' : slash ∉ v.reverse ++ t := by simp [List.mem_append, ht, hnot]
        refine ⟨v.reverse ++ t, [], ?_, ?_⟩
        · rw [pieces_of_notMem hnot' (by simp [hne]), hns]
        · rw [← List.singleton_inj.1 hm]
          exact List.prefix_append _ _
    · rw [List.mem_reverse] at hs
      have hne : s ≠ [] := by
        rintro rfl
        rw [pieces_nil] at h
        exact absurd h.symm (List.append_ne_nil_of_right_ne_nil _ (List.cons_ne_nil _ _))
      rw [pieces_of_notMem hs hne, ← List.nil_append [s]] at h
      obtain ⟨rfl, hm⟩ := List.append_inj' h rfl
      refine ⟨s ++ t, [], ?_, ?_⟩
      · rw [pieces_of_notMem (by simp [List.mem_append, ht, hs]) (by simp [hne]), List.nil_append]
      · rw [← List.singleton_inj.1 hm]
        exact List.prefix_append _ _
  by_cases ht : slash ∈ t
  · obtain ⟨t₀, t₁, rfl, ht₀⟩ := List.eq_append_cons_of_mem ht
    obtain ⟨x, rest, hx, hm⟩ := hplain t₀ ht₀
    refine ⟨x, rest ++ pieces t₁, ?_, hm⟩
    rw [← List.append_assoc, pieces_append, hx, List.append_assoc, List.cons_append]
  · exact hplain t ht

/-- A name does not end with a slash. -/
theorem getLast?_concat_ne {n : FileName} (q : PathName) (hn : Valid n) :
    (q ++ slash :: n).getLast? ≠ some slash := by
  intro h
  obtain ⟨c, hc⟩ := Option.ne_none_iff_exists'.1 (mt List.getLast?_eq_none_iff.1 hn.1)
  rw [← List.singleton_append, ← List.append_assoc, List.getLast?_append, hc, Option.some_or,
    Option.some_inj] at h
  exact hn.2.2.2 (h ▸ List.mem_of_getLast? hc)

/-- Only slashes leave no component. -/
theorem eq_slash_of_pieces_eq_nil {p : PathName} (h : pieces p = []) : ∀ c ∈ p, c = slash := by
  induction p with
  | nil => exact fun c hc => absurd hc List.not_mem_nil
  | cons x p ih =>
      rw [pieces, List.splitOn_cons_eq_if_modifyHead] at h
      obtain ⟨hd, tl, hl⟩ := List.exists_cons_of_ne_nil (List.splitOn_ne_nil slash p)
      split at h
      case isTrue hx =>
        intro c hc
        rcases List.mem_cons.1 hc with rfl | hc
        · exact beq_iff_eq.1 hx
        · refine ih ?_ c hc
          rwa [List.filter_cons_of_neg (by simp)] at h
      case isFalse hx =>
        rw [hl] at h
        exact absurd h (by simp [List.modifyHead])

/-- After a slash there is something to walk. -/
theorem exists_comps_append (q r : PathName) :
    ∃ cs, cs ≠ [] ∧ comps (q ++ slash :: r) = pieces q ++ cs := by
  refine ⟨_, ?_, by rw [comps, pieces_append, List.append_assoc]⟩
  intro hnil
  obtain ⟨hr, hlast⟩ := List.append_eq_nil_iff.1 hnil
  have hslash := eq_slash_of_pieces_eq_nil hr
  rw [if_pos] at hlast
  · exact absurd hlast (List.cons_ne_nil _ _)
  · rcases List.eq_nil_or_concat r with rfl | ⟨r, c, rfl⟩
    · simp
    · rw [hslash c (by simp), List.concat_eq_append, ← List.cons_append, ← List.append_assoc,
        List.getLast?_concat]

end PathName

open PathName

/-! ### Inodes -/

/-- What an inode can be besides a directory and a symbolic link. -/
inductive FileKind where
  | regular
  | charDevice
  | blockDevice
  | fifo
  | socket
  deriving DecidableEq

structure Directory where
  mode : ℕ
  parent : Inode
  /-- in the order in which they are read -/
  entries : List (FileName × Inode)
  deriving DecidableEq

inductive FsNode where
  | file (k : FileKind)
  | link (target : PathName)
  | dir (d : Directory)
  deriving DecidableEq

/-- `i` is a directory with an entry `n` for `j`. -/
def HasEntry (node : Inode → FsNode) (i : Inode) (n : FileName) (j : Inode) : Prop :=
  ∃ d, node i = .dir d ∧ (n, j) ∈ d.entries

/-- Inodes, and those from which a path starts. -/
@[ext] structure FileSystem where
  node : Inode → FsNode
  /-- all inodes from here on are free -/
  next : Inode
  root : Inode
  cwd : Inode
  allocated : ∀ i, next ≤ i → node i = .file .regular
  names_valid : ∀ {i n j}, HasEntry node i n j → Valid n
  names_nodup : ∀ {i d}, node i = .dir d → (d.entries.map Prod.fst).Nodup
  entry_lt : ∀ {i n j}, HasEntry node i n j → j < next
  parent_eq : ∀ {i n j d}, HasEntry node i n j → node j = .dir d → d.parent = i
  one_entry : ∀ {i n n' j d}, HasEntry node i n j → HasEntry node i n' j → node j = .dir d →
    n = n'
  acyclic : ∃ depth : Inode → ℕ, ∀ {i n j d}, HasEntry node i n j → node j = .dir d →
    depth i < depth j
  root_lt : root < next
  root_top : ∀ {d}, node root = .dir d → d.parent = root

namespace FileSystem

/-! ### Walking a path -/

/-- The inode that a component leads to. -/
def step (fs : FileSystem) (i : Inode) (n : FileName) : Option Inode :=
  match fs.node i with
  | .dir d => if n = dot then some i else if n = dotDot then some d.parent else d.entries.lookup n
  | _ => none

/-- Where a path starts that is read at `i`. -/
def start (fs : FileSystem) (i : Inode) (p : PathName) : Inode :=
  if p.head? = some slash then fs.root else i

/-- The walk up to the next symbolic link, whose text `next` walks with what is left. -/
def walkWith (fs : FileSystem) (next : Inode → List FileName → Option Inode) :
    Inode → List FileName → Option Inode
  | i, [] => some i
  | i, n :: ns =>
      match fs.step i n with
      | none => none
      | some j =>
          match fs.node j with
          | .link t => next (fs.start i t) (comps t ++ ns)
          | _ => walkWith fs next j ns

/-- The walk that follows at most so many symbolic links. -/
def walk (fs : FileSystem) : ℕ → Inode → List FileName → Option Inode
  | 0 => fs.walkWith fun _ _ => none
  | b + 1 => fs.walkWith (walk fs b)

/-- The number of symbolic links that a path may go through. -/
def linkMax : ℕ := 40

/-- The inode of a path, whose last component is followed. -/
def stat (fs : FileSystem) (p : PathName) : Option Inode :=
  if p = [] then none else fs.walk linkMax (fs.start fs.cwd p) (comps p)

/-- The directory and the name of the entry that a path stands for, which need not be there. -/
def place (fs : FileSystem) (p : PathName) : Option (Inode × FileName) :=
  match (pieces p).getLast? with
  | none => none
  | some n =>
      if Valid n then
        (fs.walk linkMax (fs.start fs.cwd p) (pieces p).dropLast).map fun i => (i, n)
      else none

/-- A walk with the entries that it goes through. -/
inductive Walk (fs : FileSystem) :
    ℕ → Inode → List FileName → List (Inode × FileName) → Inode → Prop
  | nil (b i) : Walk fs b i [] [] i
  | name {b i n j ns used k} : fs.step i n = some j → (∀ t, fs.node j ≠ .link t) →
      Walk fs b j ns used k → Walk fs b i (n :: ns) ((i, n) :: used) k
  | link {b i n j t ns used k} : fs.step i n = some j → fs.node j = .link t →
      Walk fs b (fs.start i t) (comps t ++ ns) used k →
      Walk fs (b + 1) i (n :: ns) ((i, n) :: used) k

theorem walkWith_cons (fs : FileSystem) (next : Inode → List FileName → Option Inode) (i : Inode)
    (n : FileName) (ns : List FileName) :
    fs.walkWith next i (n :: ns) = (fs.step i n).bind fun j =>
      match fs.node j with
      | .link t => next (fs.start i t) (comps t ++ ns)
      | _ => fs.walkWith next j ns := by
  rw [walkWith]
  cases fs.step i n <;> rfl

theorem Walk.of_walkWith {fs : FileSystem} {b : ℕ} {next : Inode → List FileName → Option Inode}
    (hnext : ∀ i ns k, next i ns = some k → ∃ b', b = b' + 1 ∧ ∃ used, fs.Walk b' i ns used k)
    {ns : List FileName} : ∀ {i k : Inode}, fs.walkWith next i ns = some k →
      ∃ used, fs.Walk b i ns used k := by
  induction ns with
  | nil =>
      intro i k h
      cases h
      exact ⟨[], .nil b i⟩
  | cons n ns ih =>
      intro i k h
      rw [walkWith_cons, Option.bind_eq_some_iff] at h
      obtain ⟨j, hj, hk⟩ := h
      cases hnode : fs.node j with
      | link t =>
          rw [hnode] at hk
          obtain ⟨b', rfl, used, hw⟩ := hnext _ _ _ hk
          exact ⟨_, .link hj hnode hw⟩
      | file kind =>
          rw [hnode] at hk
          obtain ⟨used, hw⟩ := ih hk
          exact ⟨_, .name hj (by simp [hnode]) hw⟩
      | dir d =>
          rw [hnode] at hk
          obtain ⟨used, hw⟩ := ih hk
          exact ⟨_, .name hj (by simp [hnode]) hw⟩

theorem Walk.of_walk {fs : FileSystem} {b : ℕ} : ∀ {i k : Inode} {ns : List FileName},
    fs.walk b i ns = some k → ∃ used, fs.Walk b i ns used k := by
  induction b with
  | zero =>
      intro i k ns h
      exact Walk.of_walkWith (fun _ _ _ h => by cases h) h
  | succ b ih =>
      intro i k ns h
      exact Walk.of_walkWith (fun _ _ _ h => ⟨b, rfl, ih h⟩) h

theorem Walk.walk {fs : FileSystem} {b : ℕ} {i k : Inode} {ns : List FileName}
    {used : List (Inode × FileName)} (h : fs.Walk b i ns used k) : fs.walk b i ns = some k := by
  induction h with
  | nil b i => cases b <;> rfl
  | @name b i n j ns used k hj hnode _ ih =>
      have hstep : ∀ next, fs.walkWith next i (n :: ns) = fs.walkWith next j ns := by
        intro next
        rw [walkWith_cons, hj, Option.bind_some]
        cases hn : fs.node j with
        | link t => exact absurd hn (hnode t)
        | file kind => rfl
        | dir d => rfl
      cases b with
      | zero => exact (hstep _).trans ih
      | succ b => exact (hstep _).trans ih
  | @link b i n j t ns used k hj hnode _ ih =>
      rw [FileSystem.walk, walkWith_cons, hj, Option.bind_some, hnode]
      exact ih

/-- The function and the relation agree. -/
theorem walk_eq_some_iff {fs : FileSystem} {b : ℕ} {i k : Inode} {ns : List FileName} :
    fs.walk b i ns = some k ↔ ∃ used, fs.Walk b i ns used k :=
  ⟨Walk.of_walk, fun ⟨_, h⟩ => h.walk⟩

theorem Walk.mono {fs : FileSystem} {b b' : ℕ} {i k : Inode} {ns : List FileName}
    {used : List (Inode × FileName)} (h : fs.Walk b i ns used k) (hb : b ≤ b') :
    fs.Walk b' i ns used k := by
  induction h generalizing b' with
  | nil b i => exact .nil b' i
  | name hj hnode _ ih => exact .name hj hnode (ih hb)
  | link hj hnode _ ih =>
      obtain ⟨b'', rfl⟩ : ∃ b'', b' = b'' + 1 := ⟨b' - 1, by omega⟩
      exact .link hj hnode (ih (by omega))

theorem Walk.append {fs : FileSystem} {b₁ b₂ : ℕ} {i j k : Inode} {ns ms : List FileName}
    {used₁ used₂ : List (Inode × FileName)} (h₁ : fs.Walk b₁ i ns used₁ j)
    (h₂ : fs.Walk b₂ j ms used₂ k) : fs.Walk (b₁ + b₂) i (ns ++ ms) (used₁ ++ used₂) k := by
  induction h₁ with
  | nil b i => exact h₂.mono (Nat.le_add_left _ _)
  | name hj hnode _ ih => exact .name hj hnode (ih h₂)
  | @link b i n j t ns used k hj hnode _ ih =>
      have happ := ih h₂
      rw [List.append_assoc] at happ
      rw [Nat.add_right_comm]
      exact .link hj hnode happ

/-- A walk goes one way only. -/
theorem Walk.unique {fs : FileSystem} {b b' : ℕ} {i j j' : Inode} {ns : List FileName}
    {used used' : List (Inode × FileName)} (h : fs.Walk b i ns used j)
    (h' : fs.Walk b' i ns used' j') : used = used' ∧ j = j' := by
  induction h generalizing b' used' with
  | nil b i =>
      cases h'
      exact ⟨rfl, rfl⟩
  | name hk hlink _ ih =>
      cases h' with
      | name hk' _ hw =>
          obtain rfl := Option.some_inj.1 (hk.symm.trans hk')
          obtain ⟨rfl, rfl⟩ := ih hw
          exact ⟨rfl, rfl⟩
      | link hk' hnode _ =>
          obtain rfl := Option.some_inj.1 (hk.symm.trans hk')
          exact absurd hnode (hlink _)
  | link hk hnode _ ih =>
      cases h' with
      | name hk' hlink _ =>
          obtain rfl := Option.some_inj.1 (hk.symm.trans hk')
          exact absurd hnode (hlink _)
      | link hk' hnode' hw =>
          obtain rfl := Option.some_inj.1 (hk.symm.trans hk')
          obtain rfl := FsNode.link.inj (hnode.symm.trans hnode')
          obtain ⟨rfl, rfl⟩ := ih hw
          exact ⟨rfl, rfl⟩

/-- A walk along two rows of components is a walk along the first and one along the second. -/
theorem Walk.of_append {fs : FileSystem} {b : ℕ} {i k : Inode} {ns ms : List FileName}
    {used : List (Inode × FileName)} (h : fs.Walk b i (ns ++ ms) used k) :
    ∃ b' j used₁ used₂, b' ≤ b ∧ used = used₁ ++ used₂ ∧ fs.Walk b i ns used₁ j ∧
      fs.Walk b' j ms used₂ k := by
  generalize hs : ns ++ ms = row at h
  induction h generalizing ns with
  | nil b i =>
      obtain ⟨rfl, rfl⟩ := List.append_eq_nil_iff.1 hs
      exact ⟨b, i, [], [], le_rfl, rfl, .nil b i, .nil b i⟩
  | @name b i n j row used k hj hnode hw ih =>
      cases ns with
      | nil =>
          obtain rfl : ms = n :: row := hs
          exact ⟨b, i, [], _, le_rfl, rfl, .nil b i, .name hj hnode hw⟩
      | cons m ns =>
          obtain ⟨rfl, hrow⟩ : m = n ∧ ns ++ ms = row := List.cons_eq_cons.1 hs
          obtain ⟨b', l, u₁, u₂, hb, rfl, h₁, h₂⟩ := ih hrow
          exact ⟨b', l, _, u₂, hb, rfl, .name hj hnode h₁, h₂⟩
  | @link b i n j t row used k hj hnode hw ih =>
      cases ns with
      | nil =>
          obtain rfl : ms = n :: row := hs
          exact ⟨b + 1, i, [], _, le_rfl, rfl, .nil _ i, .link hj hnode hw⟩
      | cons m ns =>
          obtain ⟨rfl, hrow⟩ : m = n ∧ ns ++ ms = row := List.cons_eq_cons.1 hs
          obtain ⟨b', l, u₁, u₂, hb, rfl, h₁, h₂⟩ :=
            @ih (comps t ++ ns) (by rw [List.append_assoc, hrow])
          exact ⟨b', l, _, u₂, Nat.le_succ_of_le hb, rfl, .link hj hnode h₁, h₂⟩

/-- A step starts in a directory. -/
theorem exists_dir_of_step {fs : FileSystem} {i j : Inode} {n : FileName}
    (h : fs.step i n = some j) : ∃ d, fs.node i = .dir d := by
  unfold step at h
  cases hn : fs.node i with
  | dir d => exact ⟨d, rfl⟩
  | file k => simp [hn] at h
  | link t => simp [hn] at h

theorem Walk.exists_dir {fs : FileSystem} {b : ℕ} {i k : Inode} {ns : List FileName}
    {used : List (Inode × FileName)} (h : fs.Walk b i ns used k) (hne : ns ≠ []) :
    ∃ d, fs.node i = .dir d := by
  cases h with
  | nil => exact absurd rfl hne
  | name hj _ _ => exact exists_dir_of_step hj
  | link hj _ _ => exact exists_dir_of_step hj

/-- The first step of a walk. -/
theorem Walk.head {fs : FileSystem} {b : ℕ} {i k : Inode} {n : FileName} {ns : List FileName}
    {used : List (Inode × FileName)} (h : fs.Walk b i (n :: ns) used k) :
    (∃ j, fs.step i n = some j) ∧ (i, n) ∈ used := by
  cases h with
  | name hj _ _ => exact ⟨⟨_, hj⟩, List.mem_cons_self⟩
  | link hj _ _ => exact ⟨⟨_, hj⟩, List.mem_cons_self⟩

theorem step_dot {fs : FileSystem} {i : Inode} {d : Directory} (h : fs.node i = .dir d) :
    fs.step i dot = some i := by
  simp [step, h]

/-- One more component, which is no symbolic link. -/
theorem Walk.concat {fs : FileSystem} {b : ℕ} {i j k : Inode} {ns : List FileName}
    {n : FileName} {used : List (Inode × FileName)} (h : fs.Walk b i ns used j)
    (hk : fs.step j n = some k) (hlink : ∀ t, fs.node k ≠ .link t) :
    fs.Walk b i (ns ++ [n]) (used ++ [(j, n)]) k :=
  h.append (.name hk hlink (.nil 0 k))

/-- A directory is also the directory in itself that is called `.`. -/
theorem Walk.append_dot {fs : FileSystem} {b : ℕ} {i j : Inode} {ns : List FileName}
    {used : List (Inode × FileName)} {d : Directory} (h : fs.Walk b i ns used j)
    (hd : fs.node j = .dir d) : fs.Walk b i (ns ++ [dot]) (used ++ [(j, dot)]) j :=
  h.concat (step_dot hd) (by simp [hd])

/-- `p` leads to a directory. -/
def IsDirectory (fs : FileSystem) (p : PathName) : Prop :=
  ∃ i d, fs.stat p = some i ∧ fs.node i = .dir d

theorem start_append (fs : FileSystem) (i : Inode) {q : PathName} (r : PathName) (hq : q ≠ []) :
    fs.start i (q ++ r) = fs.start i q := by
  unfold start
  rw [List.head?_append_of_ne_nil _ hq]

theorem Walk.stat {fs : FileSystem} {p : PathName} {i : Inode} {used : List (Inode × FileName)}
    (hp : p ≠ []) (h : fs.Walk linkMax (fs.start fs.cwd p) (comps p) used i) :
    fs.stat p = some i := by
  rw [FileSystem.stat, if_neg hp]
  exact h.walk

/-- What a path goes through is a directory. -/
theorem isDirectory_of_stat_append {fs : FileSystem} {q r : PathName} {k : Inode} (hq : q ≠ [])
    (h : fs.stat (q ++ slash :: r) = some k) : fs.IsDirectory q := by
  obtain ⟨cs, hcs, hcomps⟩ := exists_comps_append q r
  rw [stat, if_neg (by simp), start_append _ _ _ hq, hcomps] at h
  obtain ⟨used, hw⟩ := Walk.of_walk h
  obtain ⟨b', j, u₁, u₂, -, -, h₁, h₂⟩ := hw.of_append
  obtain ⟨d, hd⟩ := h₂.exists_dir hcs
  refine ⟨j, d, ?_, hd⟩
  by_cases hlast : q.getLast? = some slash
  · exact Walk.stat hq (by rw [comps, if_pos hlast]; exact h₁.append_dot hd)
  · exact Walk.stat hq (by rw [comps, if_neg hlast, List.append_nil]; exact h₁)

/-! ### Taking entries away -/

end FileSystem

/-- A directory keeps the entries whose names pass. -/
def FsNode.prune (keep : FileName → Bool) : FsNode → FsNode
  | .dir d => .dir { d with entries := d.entries.filter fun e => keep e.1 }
  | nd => nd

theorem FsNode.prune_eq_dir {keep : FileName → Bool} {nd : FsNode} {d : Directory}
    (h : nd.prune keep = .dir d) :
    ∃ d₀, nd = .dir d₀ ∧ d = { d₀ with entries := d₀.entries.filter fun e => keep e.1 } := by
  cases nd with
  | dir d₀ => exact ⟨d₀, rfl, (FsNode.dir.inj h).symm⟩
  | file k => cases h
  | link t => cases h

theorem hasEntry_prune {node : Inode → FsNode} {keep : Inode → FileName → Bool} {i j : Inode}
    {n : FileName} : HasEntry (fun i => (node i).prune (keep i)) i n j ↔
      HasEntry node i n j ∧ keep i n = true := by
  constructor
  · rintro ⟨d, hd, hmem⟩
    obtain ⟨d₀, hd₀, rfl⟩ := FsNode.prune_eq_dir hd
    obtain ⟨hmem, hkeep⟩ := List.mem_filter.1 hmem
    exact ⟨⟨d₀, hd₀, hmem⟩, hkeep⟩
  · rintro ⟨⟨d, hd, hmem⟩, hkeep⟩
    exact ⟨_, congrArg (FsNode.prune (keep i)) hd, List.mem_filter.2 ⟨hmem, hkeep⟩⟩

namespace FileSystem

/-- The file system with the entries that pass. -/
def prune (fs : FileSystem) (keep : Inode → FileName → Bool) : FileSystem where
  node i := (fs.node i).prune (keep i)
  next := fs.next
  root := fs.root
  cwd := fs.cwd
  allocated i hi := by rw [fs.allocated i hi]; rfl
  names_valid h := fs.names_valid (hasEntry_prune.1 h).1
  names_nodup h := by
    obtain ⟨d₀, hd₀, rfl⟩ := FsNode.prune_eq_dir h
    exact (fs.names_nodup hd₀).sublist (List.filter_sublist.map Prod.fst)
  entry_lt h := fs.entry_lt (hasEntry_prune.1 h).1
  parent_eq h hd := by
    obtain ⟨d₀, hd₀, rfl⟩ := FsNode.prune_eq_dir hd
    have hparent := fs.parent_eq (hasEntry_prune.1 h).1 hd₀
    exact hparent
  one_entry h h' hd := by
    obtain ⟨d₀, hd₀, -⟩ := FsNode.prune_eq_dir hd
    exact fs.one_entry (hasEntry_prune.1 h).1 (hasEntry_prune.1 h').1 hd₀
  acyclic := by
    obtain ⟨depth, hdepth⟩ := fs.acyclic
    refine ⟨depth, fun h hd => ?_⟩
    obtain ⟨d₀, hd₀, -⟩ := FsNode.prune_eq_dir hd
    exact hdepth (hasEntry_prune.1 h).1 hd₀
  root_lt := fs.root_lt
  root_top h := by
    obtain ⟨d₀, hd₀, rfl⟩ := FsNode.prune_eq_dir h
    have hroot := fs.root_top hd₀
    exact hroot

/-- The entry of directory `i` for `n` is gone. -/
def erase (fs : FileSystem) (i : Inode) (n : FileName) : FileSystem :=
  fs.prune fun i' n' => ! (i' == i && n' == n)

open Classical in
/-- The entries of a set are gone. -/
noncomputable def without (fs : FileSystem) (S : Set (Inode × FileName)) : FileSystem :=
  fs.prune fun i n => decide ((i, n) ∉ S)

theorem prune_congr {fs : FileSystem} {keep keep' : Inode → FileName → Bool}
    (h : ∀ i n, keep i n = keep' i n) : fs.prune keep = fs.prune keep' := by
  obtain rfl : keep = keep' := by
    funext i n
    exact h i n
  rfl

theorem prune_prune (fs : FileSystem) (keep keep' : Inode → FileName → Bool) :
    (fs.prune keep).prune keep' = fs.prune fun i n => keep' i n && keep i n := by
  ext1
  · funext i
    simp only [prune]
    cases fs.node i with
    | dir d => simp only [FsNode.prune, List.filter_filter]
    | file k => rfl
    | link t => rfl
  all_goals rfl

theorem without_without (fs : FileSystem) (S T : Set (Inode × FileName)) :
    (fs.without S).without T = fs.without (S ∪ T) := by
  rw [without, without, without, prune_prune]
  refine prune_congr fun i n => ?_
  rw [Bool.eq_iff_iff]
  simp [and_comm]

theorem erase_eq_without (fs : FileSystem) (i : Inode) (n : FileName) :
    fs.erase i n = fs.without {(i, n)} := by
  refine prune_congr fun i' n' => ?_
  rw [Bool.eq_iff_iff]
  simp [imp_iff_not_or]

theorem without_empty (fs : FileSystem) : fs.without ∅ = fs := by
  ext1
  · funext i
    simp only [without, prune]
    cases fs.node i with
    | dir d => simp [FsNode.prune]
    | file k => rfl
    | link t => rfl
  all_goals rfl

theorem hasEntry_without {fs : FileSystem} {T : Set (Inode × FileName)} {i j : Inode}
    {n : FileName} :
    HasEntry (fs.without T).node i n j ↔ HasEntry fs.node i n j ∧ (i, n) ∉ T := by
  classical
  rw [without, prune, hasEntry_prune, decide_eq_true_iff]

/-- A directory that loses none of its entries. -/
theorem node_without_of_kept {fs : FileSystem} {T : Set (Inode × FileName)} {i : Inode}
    {d : Directory} (hd : fs.node i = .dir d) (hT : ∀ n j, (n, j) ∈ d.entries → (i, n) ∉ T) :
    (fs.without T).node i = .dir d := by
  classical
  simp only [without, prune, hd, FsNode.prune]
  rw [List.filter_eq_self.2 fun e he => decide_eq_true (hT e.1 e.2 he)]

/-- The entries that are there. -/
def entries (fs : FileSystem) : Set (Inode × FileName) :=
  {e | ∃ j, HasEntry fs.node e.1 e.2 j}

theorem hasEntry_iff_lookup {fs : FileSystem} {i j : Inode} {d : Directory} {n : FileName}
    (hd : fs.node i = .dir d) : HasEntry fs.node i n j ↔ d.entries.lookup n = some j := by
  rw [List.lookup_eq_some_iff_mem (fs.names_nodup hd)]
  constructor
  · rintro ⟨d', hd', hmem⟩
    rw [hd] at hd'
    cases hd'
    exact hmem
  · exact fun hmem => ⟨d, hd, hmem⟩

theorem entry_inode_unique {fs : FileSystem} {i j j' : Inode} {n : FileName}
    (h : HasEntry fs.node i n j) (h' : HasEntry fs.node i n j') : j = j' := by
  obtain ⟨d, hd, -⟩ := id h
  rw [hasEntry_iff_lookup hd] at h h'
  exact Option.some_inj.1 (h.symm.trans h')

theorem mem_entries_iff {fs : FileSystem} {i : Inode} {d : Directory} {n : FileName}
    (hd : fs.node i = .dir d) : (i, n) ∈ fs.entries ↔ n ∈ d.entries.map Prod.fst := by
  constructor
  · rintro ⟨j, d', hd', hmem⟩
    rw [hd] at hd'
    cases hd'
    exact List.mem_map.2 ⟨(n, j), hmem, rfl⟩
  · intro h
    obtain ⟨⟨_, j⟩, hmem, rfl⟩ := List.mem_map.1 h
    exact ⟨j, d, hd, hmem⟩

/-- No name is listed twice. -/
theorem listed_nodup {fs : FileSystem} {i : Inode} {d : Directory} (hd : fs.node i = .dir d) :
    (dot :: dotDot :: d.entries.map Prod.fst).Nodup := by
  have hnot : ∀ n ∈ d.entries.map Prod.fst, n ≠ dot ∧ n ≠ dotDot := by
    intro n hn
    obtain ⟨j, hj⟩ := (mem_entries_iff hd).2 hn
    exact ⟨(fs.names_valid hj).2.1, (fs.names_valid hj).2.2.1⟩
  refine List.nodup_cons.2 ⟨?_, List.nodup_cons.2 ⟨?_, fs.names_nodup hd⟩⟩
  · intro h
    rcases List.mem_cons.1 h with heq | hmem
    · exact absurd heq (by decide)
    · exact (hnot _ hmem).1 rfl
  · exact fun hmem => (hnot _ hmem).2 rfl

/-- A component is one of the two that every directory has, or the name of an entry. -/
theorem step_eq_some_iff {fs : FileSystem} {i j : Inode} {n : FileName} :
    fs.step i n = some j ↔ HasEntry fs.node i n j ∨
      ∃ d, fs.node i = .dir d ∧ (n = dot ∧ j = i ∨ n = dotDot ∧ j = d.parent) := by
  constructor
  · intro h
    obtain ⟨d, hd⟩ := exists_dir_of_step h
    simp only [step, hd] at h
    split at h
    case isTrue hn => exact .inr ⟨d, hd, .inl ⟨hn, (Option.some_inj.1 h).symm⟩⟩
    case isFalse =>
      split at h
      case isTrue hn => exact .inr ⟨d, hd, .inr ⟨hn, (Option.some_inj.1 h).symm⟩⟩
      case isFalse => exact .inl ((hasEntry_iff_lookup hd).2 h)
  · rintro (h | ⟨d, hd, ⟨rfl, rfl⟩ | ⟨rfl, rfl⟩⟩)
    · obtain ⟨d, hd, -⟩ := id h
      have hv := fs.names_valid h
      simp only [step, hd, if_neg hv.2.1, if_neg hv.2.2.1]
      exact (hasEntry_iff_lookup hd).1 h
    · exact step_dot hd
    · simp [step, hd, dot, dotDot]

theorem step_eq_some_iff_of_valid {fs : FileSystem} {i j : Inode} {n : FileName} (hn : Valid n) :
    fs.step i n = some j ↔ HasEntry fs.node i n j := by
  rw [step_eq_some_iff, or_iff_left]
  rintro ⟨d, -, ⟨h, -⟩ | ⟨h, -⟩⟩
  · exact hn.2.1 h
  · exact hn.2.2.1 h

theorem node_prune_eq_link {fs : FileSystem} {keep : Inode → FileName → Bool} {i : Inode}
    {t : PathName} : (fs.prune keep).node i = .link t ↔ fs.node i = .link t := by
  simp only [prune]
  cases fs.node i <;> simp [FsNode.prune]

theorem node_prune_eq_file {fs : FileSystem} {keep : Inode → FileName → Bool} {i : Inode}
    {k : FileKind} : (fs.prune keep).node i = .file k ↔ fs.node i = .file k := by
  simp only [prune]
  cases fs.node i <;> simp [FsNode.prune]

theorem node_prune_eq_dir {fs : FileSystem} {keep : Inode → FileName → Bool} {i : Inode}
    {d : Directory} (h : (fs.prune keep).node i = .dir d) :
    ∃ d₀, fs.node i = .dir d₀ ∧
      d = { d₀ with entries := d₀.entries.filter fun e => keep i e.1 } :=
  FsNode.prune_eq_dir h

theorem exists_dir_prune {fs : FileSystem} {keep : Inode → FileName → Bool} {i : Inode} :
    (∃ d, (fs.prune keep).node i = .dir d) ↔ ∃ d, fs.node i = .dir d := by
  simp only [prune]
  cases fs.node i <;> simp [FsNode.prune]

theorem step_of_prune {fs : FileSystem} {keep : Inode → FileName → Bool} {i j : Inode}
    {n : FileName} (h : (fs.prune keep).step i n = some j) :
    fs.step i n = some j ∧ ((i, n) ∈ fs.entries → keep i n = true) := by
  rw [step_eq_some_iff] at h ⊢
  rcases h with h | ⟨d, hd, hn⟩
  · exact ⟨.inl (hasEntry_prune.1 h).1, fun _ => (hasEntry_prune.1 h).2⟩
  · obtain ⟨d₀, hd₀, rfl⟩ := FsNode.prune_eq_dir hd
    refine ⟨.inr ⟨d₀, hd₀, hn⟩, ?_⟩
    rintro ⟨j', hj'⟩
    have hv := fs.names_valid hj'
    rcases hn with ⟨rfl, -⟩ | ⟨rfl, -⟩
    · exact absurd rfl hv.2.1
    · exact absurd rfl hv.2.2.1

theorem step_prune {fs : FileSystem} {keep : Inode → FileName → Bool} {i j : Inode}
    {n : FileName} (h : fs.step i n = some j) (hkeep : (i, n) ∈ fs.entries → keep i n = true) :
    (fs.prune keep).step i n = some j := by
  rw [step_eq_some_iff] at h ⊢
  rcases h with h | ⟨d, hd, hn⟩
  · exact .inl (hasEntry_prune.2 ⟨h, hkeep ⟨j, h⟩⟩)
  · refine .inr ⟨_, congrArg (FsNode.prune (keep i)) hd, ?_⟩
    rcases hn with ⟨rfl, rfl⟩ | ⟨rfl, rfl⟩
    · exact .inl ⟨rfl, rfl⟩
    · exact .inr ⟨rfl, rfl⟩

/-- A pruning adds no walk, and what is left of a walk goes through nothing that has gone. -/
theorem Walk.of_prune {fs : FileSystem} {keep : Inode → FileName → Bool} {b : ℕ} {i k : Inode}
    {ns : List FileName} {used : List (Inode × FileName)}
    (h : (fs.prune keep).Walk b i ns used k) :
    fs.Walk b i ns used k ∧ ∀ e ∈ used, e ∈ fs.entries → keep e.1 e.2 = true := by
  induction h with
  | nil b i => exact ⟨.nil b i, fun e he => absurd he List.not_mem_nil⟩
  | name hj hnode _ ih =>
      refine ⟨.name (step_of_prune hj).1 (fun t ht => hnode t (node_prune_eq_link.2 ht)) ih.1, ?_⟩
      intro e he
      rcases List.mem_cons.1 he with rfl | he
      · exact (step_of_prune hj).2
      · exact ih.2 e he
  | link hj hnode _ ih =>
      refine ⟨.link (step_of_prune hj).1 (node_prune_eq_link.1 hnode) ih.1, ?_⟩
      intro e he
      rcases List.mem_cons.1 he with rfl | he
      · exact (step_of_prune hj).2
      · exact ih.2 e he

/-- A walk that goes through nothing that has gone is still there. -/
theorem Walk.prune {fs : FileSystem} {keep : Inode → FileName → Bool} {b : ℕ} {i k : Inode}
    {ns : List FileName} {used : List (Inode × FileName)} (h : fs.Walk b i ns used k)
    (hkeep : ∀ e ∈ used, e ∈ fs.entries → keep e.1 e.2 = true) :
    (fs.prune keep).Walk b i ns used k := by
  induction h with
  | nil b i => exact .nil b i
  | name hj hnode _ ih =>
      have hstep := step_prune hj (hkeep _ List.mem_cons_self)
      refine .name hstep (fun t ht => hnode t (node_prune_eq_link.1 ht)) (ih ?_)
      exact fun e he => hkeep e (List.mem_cons_of_mem _ he)
  | link hj hnode _ ih =>
      have hstep := step_prune hj (hkeep _ List.mem_cons_self)
      refine .link hstep (node_prune_eq_link.2 hnode) (ih ?_)
      exact fun e he => hkeep e (List.mem_cons_of_mem _ he)

theorem Walk.of_without {fs : FileSystem} {T : Set (Inode × FileName)} {b : ℕ} {i k : Inode}
    {ns : List FileName} {used : List (Inode × FileName)} (h : (fs.without T).Walk b i ns used k) :
    fs.Walk b i ns used k ∧ ∀ e ∈ used, e ∈ fs.entries → e ∉ T := by
  classical
  obtain ⟨hw, hkept⟩ := h.of_prune
  exact ⟨hw, fun e he hentry => of_decide_eq_true (hkept e he hentry)⟩

theorem Walk.without {fs : FileSystem} {T : Set (Inode × FileName)} {b : ℕ} {i k : Inode}
    {ns : List FileName} {used : List (Inode × FileName)} (h : fs.Walk b i ns used k)
    (hkept : ∀ e ∈ used, e ∉ T) : (fs.without T).Walk b i ns used k := by
  classical
  exact h.prune fun e he _ => decide_eq_true (hkept e he)

/-! ### Stat, list and place -/

/-- What `readdir` gives for a directory, one name after the other. -/
def list (fs : FileSystem) (p : PathName) : Option (List FileName) :=
  match fs.stat p with
  | none => none
  | some i =>
      match fs.node i with
      | .dir d => some (dot :: dotDot :: d.entries.map Prod.fst)
      | _ => none

theorem list_eq_some_iff {fs : FileSystem} {p : PathName} {names : List FileName} :
    fs.list p = some names ↔ ∃ i d, fs.stat p = some i ∧ fs.node i = .dir d ∧
      names = dot :: dotDot :: d.entries.map Prod.fst := by
  unfold list
  constructor
  · intro h
    split at h
    case h_1 => cases h
    case h_2 i hi =>
      split at h
      case h_1 d hd => exact ⟨i, d, hi, hd, (Option.some_inj.1 h).symm⟩
      case h_2 => cases h
  · rintro ⟨i, d, hi, hd, rfl⟩
    simp only [hi, hd]

theorem stat_eq_some_iff {fs : FileSystem} {p : PathName} {i : Inode} :
    fs.stat p = some i ↔ p ≠ [] ∧ ∃ used, fs.Walk linkMax (fs.start fs.cwd p) (comps p) used i := by
  unfold stat
  split
  case isTrue hp => simp [hp]
  case isFalse hp => rw [walk_eq_some_iff, and_iff_right hp]

/-- What a path leads to, its components lead to. -/
theorem walk_pieces_of_stat {fs : FileSystem} {p : PathName} {i : Inode}
    (h : fs.stat p = some i) :
    ∃ used, fs.Walk linkMax (fs.start fs.cwd p) (pieces p) used i := by
  obtain ⟨-, used, hw⟩ := stat_eq_some_iff.1 h
  rw [comps] at hw
  split at hw
  case isFalse => exact ⟨used, by rwa [List.append_nil] at hw⟩
  case isTrue =>
    obtain ⟨b, j, u₁, u₂, -, -, h₁, h₂⟩ := hw.of_append
    obtain ⟨d, hd⟩ := h₂.exists_dir (List.cons_ne_nil _ _)
    have hdot : fs.Walk 0 j [dot] [(j, dot)] j :=
      .name (step_dot hd) (by simp [hd]) (.nil 0 j)
    rw [(h₂.unique hdot).2]
    exact ⟨u₁, h₁⟩

theorem stat_of_prune {fs : FileSystem} {keep : Inode → FileName → Bool} {p : PathName}
    {i : Inode} (h : (fs.prune keep).stat p = some i) : fs.stat p = some i := by
  rw [stat_eq_some_iff] at h ⊢
  obtain ⟨hp, used, hw⟩ := h
  exact ⟨hp, used, hw.of_prune.1⟩

theorem place_eq_some_iff {fs : FileSystem} {p : PathName} {i : Inode} {n : FileName} :
    fs.place p = some (i, n) ↔ ∃ ns used, pieces p = ns ++ [n] ∧ Valid n ∧
      fs.Walk linkMax (fs.start fs.cwd p) ns used i := by
  constructor
  · intro h
    unfold place at h
    split at h
    case h_1 => cases h
    case h_2 m hm =>
      split at h
      case isFalse => cases h
      case isTrue hv =>
        obtain ⟨i', hi', he⟩ := Option.map_eq_some_iff.1 h
        cases he
        obtain ⟨used, hw⟩ := Walk.of_walk hi'
        exact ⟨_, used, (List.dropLast_append_getLast? _ hm).symm, hv, hw⟩
  · rintro ⟨ns, used, hp, hv, hw⟩
    simp only [place, hp, List.getLast?_concat, List.dropLast_concat, if_pos hv, hw.walk,
      Option.map_some]

theorem place_of_prune {fs : FileSystem} {keep : Inode → FileName → Bool} {p : PathName}
    {e : Inode × FileName} (h : (fs.prune keep).place p = some e) : fs.place p = some e := by
  obtain ⟨i, n⟩ := e
  rw [place_eq_some_iff] at h ⊢
  obtain ⟨ns, used, hp, hv, hw⟩ := h
  exact ⟨ns, used, hp, hv, hw.of_prune.1⟩

/-- Only a symbolic link makes a difference between the entry that a path names and what the path
leads to, and only a slash at the end asks for a directory. -/
theorem stat_of_place {fs : FileSystem} {p : PathName} {i j : Inode} {n : FileName}
    (hplace : fs.place p = some (i, n)) (hentry : HasEntry fs.node i n j)
    (hlink : ∀ t, fs.node j ≠ .link t)
    (hslash : p.getLast? = some slash → ∃ d, fs.node j = .dir d) : fs.stat p = some j := by
  obtain ⟨ns, used, hp, -, hw⟩ := place_eq_some_iff.1 hplace
  have hall : fs.Walk linkMax (fs.start fs.cwd p) (pieces p) (used ++ [(i, n)]) j := by
    rw [hp]
    exact hw.concat (step_eq_some_iff.2 (.inl hentry)) hlink
  have hne : p ≠ [] := by
    rintro rfl
    exact absurd hp (by simp)
  rw [stat_eq_some_iff, comps]
  refine ⟨hne, ?_⟩
  by_cases hlast : p.getLast? = some slash
  · obtain ⟨d, hd⟩ := hslash hlast
    rw [if_pos hlast]
    exact ⟨_, hall.append_dot hd⟩
  · rw [if_neg hlast, List.append_nil]
    exact ⟨_, hall⟩

/-! ### Making and removing -/

end FileSystem

/-- The inodes with a new one `next`, which the directory `d` at `i` calls `n`. -/
def addNode (node : Inode → FsNode) (next i : Inode) (d : Directory) (n : FileName)
    (nd : FsNode) : Inode → FsNode :=
  Function.update (Function.update node next nd) i
    (.dir { d with entries := d.entries ++ [(n, next)] })

theorem hasEntry_addNode {node : Inode → FsNode} {next i i' j : Inode} {d : Directory}
    {n n' : FileName} {nd : FsNode} (hd : node i = .dir d) (hnext : node next = .file .regular)
    (hnd : ∀ d', nd = .dir d' → d'.parent = i ∧ d'.entries = []) :
    HasEntry (addNode node next i d n nd) i' n' j ↔
      HasEntry node i' n' j ∨ i' = i ∧ n' = n ∧ j = next := by
  by_cases hi : i' = i
  · subst hi
    simp only [HasEntry, addNode, Function.update_self, FsNode.dir.injEq, hd, exists_eq_left',
      List.mem_append, List.mem_singleton, Prod.ext_iff, true_and]
  · rw [or_iff_left (fun h => hi h.1)]
    by_cases hn : i' = next
    · subst hn
      simp only [HasEntry, addNode, Function.update_of_ne hi, Function.update_self, hnext]
      constructor
      · rintro ⟨d', hd', hmem⟩
        rw [(hnd d' hd').2] at hmem
        exact absurd hmem List.not_mem_nil
      · rintro ⟨d', hd', -⟩
        cases hd'
    · simp only [HasEntry, addNode, Function.update_of_ne hi, Function.update_of_ne hn]

theorem addNode_eq_dir {node : Inode → FsNode} {next i j : Inode} {d d' : Directory}
    {n : FileName} {nd : FsNode} (hd : node i = .dir d)
    (h : addNode node next i d n nd j = .dir d') :
    j = next ∧ nd = .dir d' ∨ ∃ d₀, node j = .dir d₀ ∧ d'.parent = d₀.parent ∧
      (d'.entries = d₀.entries ∨ j = i ∧ d'.entries = d₀.entries ++ [(n, next)]) := by
  by_cases hi : j = i
  · subst hi
    rw [addNode, Function.update_self] at h
    exact .inr ⟨d, hd, by rw [← FsNode.dir.inj h], .inr ⟨rfl, by rw [← FsNode.dir.inj h]⟩⟩
  · rw [addNode, Function.update_of_ne hi] at h
    by_cases hn : j = next
    · subst hn
      rw [Function.update_self] at h
      exact .inl ⟨rfl, h⟩
    · rw [Function.update_of_ne hn] at h
      exact .inr ⟨d', h, rfl, .inl rfl⟩

/-- Why no directory was made, as far as a caller asks. -/
inductive MkdirError where
  | exist
  | other
  deriving DecidableEq

namespace FileSystem

/-- A new inode, which the directory `d` at `i` calls `n`. -/
def add (fs : FileSystem) (i : Inode) (d : Directory) (n : FileName) (nd : FsNode)
    (hd : fs.node i = .dir d) (hn : Valid n ∧ n ∉ d.entries.map Prod.fst)
    (hnd : ∀ d', nd = .dir d' → d'.parent = i ∧ d'.entries = []) : FileSystem :=
  have hi : i < fs.next := by
    refine Nat.lt_of_not_le fun hle => ?_
    rw [fs.allocated i hle] at hd
    cases hd
  have hfree : fs.node fs.next = .file .regular := fs.allocated _ le_rfl
  { node := addNode fs.node fs.next i d n nd
    next := fs.next + 1
    root := fs.root
    cwd := fs.cwd
    allocated := by
      intro j hj
      have hlt : fs.next < j := hj
      rw [addNode, Function.update_of_ne (hi.trans hlt).ne', Function.update_of_ne hlt.ne']
      exact fs.allocated j hlt.le
    names_valid := by
      intro i' n' j h
      rcases (hasEntry_addNode hd hfree hnd).1 h with h | ⟨-, rfl, -⟩
      · exact fs.names_valid h
      · exact hn.1
    names_nodup := by
      intro j d' h
      rcases addNode_eq_dir hd h with ⟨-, rfl⟩ | ⟨d₀, hd₀, -, he | ⟨rfl, he⟩⟩
      · rw [(hnd d' rfl).2]
        exact List.nodup_nil
      · rw [he]
        exact fs.names_nodup hd₀
      · rw [hd] at hd₀
        cases hd₀
        rw [he, List.map_append, List.nodup_append]
        refine ⟨fs.names_nodup hd, List.nodup_singleton _, ?_⟩
        rintro a ha b hb rfl
        rw [List.map_singleton, List.mem_singleton] at hb
        rw [hb] at ha
        exact hn.2 ha
    entry_lt := by
      intro i' n' j h
      rcases (hasEntry_addNode hd hfree hnd).1 h with h | ⟨-, -, rfl⟩
      · exact Nat.lt_succ_of_lt (fs.entry_lt h)
      · exact Nat.lt_succ_self _
    parent_eq := by
      intro i' n' j d' h hd'
      rcases (hasEntry_addNode hd hfree hnd).1 h with h | ⟨rfl, -, rfl⟩
      · rcases addNode_eq_dir hd hd' with ⟨rfl, -⟩ | ⟨d₀, hd₀, hp, -⟩
        · exact absurd (fs.entry_lt h) (lt_irrefl _)
        · rw [hp]
          exact fs.parent_eq h hd₀
      · rcases addNode_eq_dir hd hd' with ⟨-, rfl⟩ | ⟨d₀, hd₀, -⟩
        · exact (hnd d' rfl).1
        · rw [hfree] at hd₀
          cases hd₀
    one_entry := by
      intro i' n₁ n₂ j d' h₁ h₂ hd'
      rcases (hasEntry_addNode hd hfree hnd).1 h₁ with h₁ | ⟨-, rfl, hj₁⟩
      · rcases (hasEntry_addNode hd hfree hnd).1 h₂ with h₂ | ⟨-, -, rfl⟩
        · rcases addNode_eq_dir hd hd' with ⟨rfl, -⟩ | ⟨d₀, hd₀, -⟩
          · exact absurd (fs.entry_lt h₁) (lt_irrefl _)
          · exact fs.one_entry h₁ h₂ hd₀
        · exact absurd (fs.entry_lt h₁) (lt_irrefl _)
      · rcases (hasEntry_addNode hd hfree hnd).1 h₂ with h₂ | ⟨-, rfl, -⟩
        · exact absurd (fs.entry_lt h₂) (hj₁ ▸ lt_irrefl _)
        · rfl
    acyclic := by
      obtain ⟨depth, hdepth⟩ := fs.acyclic
      refine ⟨Function.update depth fs.next (depth i + 1), ?_⟩
      intro i' n' j d' h hd'
      rcases (hasEntry_addNode hd hfree hnd).1 h with h | ⟨rfl, -, rfl⟩
      · have hj := fs.entry_lt h
        have hi' : i' ≠ fs.next := by
          rintro rfl
          obtain ⟨d₁, hd₁, -⟩ := h
          rw [hfree] at hd₁
          cases hd₁
        rcases addNode_eq_dir hd hd' with ⟨rfl, -⟩ | ⟨d₀, hd₀, -⟩
        · exact absurd hj (lt_irrefl _)
        · rw [Function.update_of_ne hi', Function.update_of_ne hj.ne]
          exact hdepth h hd₀
      · rw [Function.update_self, Function.update_of_ne hi.ne]
        exact Nat.lt_succ_self _
    root_lt := Nat.lt_succ_of_lt fs.root_lt
    root_top := by
      intro d' h
      rcases addNode_eq_dir hd h with ⟨hr, -⟩ | ⟨d₀, hd₀, hp, -⟩
      · exact absurd fs.root_lt (hr ▸ lt_irrefl _)
      · rw [hp]
        exact fs.root_top hd₀ }

/-- Makes the directory of a path: an entry that is there is left as it is, whatever it is. -/
def mkdir (fs : FileSystem) (p : PathName) (mode : ℕ) : Except MkdirError FileSystem :=
  match (pieces p).getLast? with
  | none => if p = [] then .error .other else .error .exist
  | some n =>
      match fs.walk linkMax (fs.start fs.cwd p) (pieces p).dropLast with
      | none => .error .other
      | some i =>
          match hd : fs.node i with
          | .dir d =>
              if h : Valid n ∧ n ∉ d.entries.map Prod.fst then
                .ok (fs.add i d n (.dir ⟨mode, i, []⟩) hd h (by rintro _ ⟨⟩; exact ⟨rfl, rfl⟩))
              else .error .exist
          | _ => .error .other

/-- Removes the entry of a path: a directory has to be empty, and only a directory may be called
by a path that ends with a slash. -/
def remove (fs : FileSystem) (p : PathName) : Option FileSystem :=
  match fs.place p with
  | none => none
  | some (i, n) =>
      match fs.step i n with
      | none => none
      | some j =>
          match fs.node j with
          | .dir d => if d.entries = [] then some (fs.erase i n) else none
          | _ => if p.getLast? = some slash then none else some (fs.erase i n)

/-- A removal takes the one entry that its path names. -/
theorem remove_eq_some_iff {fs fs' : FileSystem} {p : PathName} :
    fs.remove p = some fs' ↔ ∃ i n j, fs.place p = some (i, n) ∧ HasEntry fs.node i n j ∧
      fs' = fs.without {(i, n)} ∧ (∀ d, fs.node j = .dir d → d.entries = []) ∧
      ((∀ d, fs.node j ≠ .dir d) → p.getLast? ≠ some slash) := by
  constructor
  · intro h
    unfold remove at h
    split at h
    case h_1 => cases h
    case h_2 i n hplace =>
      obtain ⟨-, -, -, hv, -⟩ := place_eq_some_iff.1 hplace
      split at h
      case h_1 => cases h
      case h_2 j hj =>
        refine ⟨i, n, j, hplace, (step_eq_some_iff_of_valid hv).1 hj, ?_⟩
        rw [← erase_eq_without]
        split at h
        case h_1 d hd =>
          split at h
          case isFalse => cases h
          case isTrue he =>
            refine ⟨(Option.some_inj.1 h).symm, ?_, fun hno => absurd hd (hno d)⟩
            intro d' hd'
            rwa [← FsNode.dir.inj (hd.symm.trans hd')]
        case h_2 hno =>
          split at h
          case isTrue => cases h
          case isFalse hlast =>
            exact ⟨(Option.some_inj.1 h).symm, fun d hd => absurd hd (hno d), fun _ => hlast⟩
  · rintro ⟨i, n, j, hplace, hentry, rfl, hempty, hslash⟩
    have hstep := step_eq_some_iff.2 (.inl hentry)
    rw [← erase_eq_without]
    simp only [remove, hplace, hstep]
    cases hj : fs.node j with
    | dir d => exact if_pos (hempty d hj)
    | file k => exact if_neg (hslash (by simp [hj]))
    | link t => exact if_neg (hslash (by simp [hj]))

/-- What a removal takes after others have taken `T`: an entry that was there from the start, and
where that is no symbolic link the path leads to it. -/
theorem remove_without {fs fs' : FileSystem} {T : Set (Inode × FileName)} {p : PathName}
    (h : (fs.without T).remove p = some fs') :
    ∃ e j, fs.place p = some e ∧ HasEntry fs.node e.1 e.2 j ∧ fs' = fs.without (T ∪ {e}) ∧
      ((∀ t, fs.node j ≠ .link t) → (fs.without T).stat p = some j) := by
  obtain ⟨i, n, j, hplace, hentry, rfl, -, hslash⟩ := remove_eq_some_iff.1 h
  refine ⟨(i, n), j, place_of_prune hplace, (hasEntry_without.1 hentry).1,
    without_without _ _ _, ?_⟩
  intro hlink
  refine stat_of_place hplace hentry (fun t ht => hlink t (node_prune_eq_link.1 ht)) fun hlast => ?_
  by_contra hno
  exact hslash (fun d hd => hno ⟨d, hd⟩) hlast

/-! ### Types in `st_mode` -/

end FileSystem

/-- The bits of `st_mode` that tell what an inode is. -/
def FsNode.format : FsNode → ℕ
  | .file .fifo => 0o010000
  | .file .charDevice => 0o020000
  | .dir _ => 0o040000
  | .file .blockDevice => 0o060000
  | .file .regular => 0o100000
  | .link _ => 0o120000
  | .file .socket => 0o140000

namespace FileSystem

/-- Nothing but a root. -/
def bare (mode : ℕ) : FileSystem :=
  let node : Inode → FsNode := fun i => if i = 0 then .dir ⟨mode, 0, []⟩ else .file .regular
  have hnone : ∀ {i n j}, ¬ HasEntry node i n j := by
    rintro i n j ⟨d, hd, hmem⟩
    by_cases hi : i = 0
    · rw [← FsNode.dir.inj ((if_pos hi).symm.trans hd)] at hmem
      exact absurd hmem List.not_mem_nil
    · cases (if_neg hi).symm.trans hd
  { node := node
    next := 1
    root := 0
    cwd := 0
    allocated := fun i hi => if_neg (Nat.pos_iff_ne_zero.1 hi)
    names_valid := fun h => absurd h hnone
    names_nodup := by
      intro i d hd
      have hnil : d.entries = [] :=
        List.eq_nil_iff_forall_not_mem.2 fun e he => hnone ⟨d, hd, he⟩
      rw [hnil]
      exact List.nodup_nil
    entry_lt := fun h => absurd h hnone
    parent_eq := fun h _ => absurd h hnone
    one_entry := fun h _ _ => absurd h hnone
    acyclic := ⟨fun _ => 0, fun h _ => absurd h hnone⟩
    root_lt := Nat.zero_lt_one
    root_top := fun hd => by rw [← FsNode.dir.inj hd] }

end FileSystem

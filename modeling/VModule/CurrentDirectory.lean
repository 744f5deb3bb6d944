/-
**`CFileUtils::GetCurrentDirectory` of `sutils/FileUtils.cpp`, on Linux.**

The function lets `readlink` write the path of the executable to the buffer of the caller, and cuts
it after its last slash.  `readlink` writes no zero, and the search for the slash starts at the byte
after the path, which still has what the caller had there.

An access outside of the buffer has no result.

Main definitions:

* `VModule.CFileUtils.peek`, `VModule.CFileUtils.poke` — an access to the buffer;
* `VModule.CFileUtils.scan`, `VModule.CFileUtils.getCurrentDirectory` — the function;
* `VModule.CFileUtils.GivesDirectory` — what is asked of it.

Main results:

* `VModule.CFileUtils.scan_eq_poke` — the search cuts after the last slash that it finds;
* `VModule.CFileUtils.strlen_eq_some_iff` — the length is the place of the first zero;
* `VModule.currentDirectory_iff` — **the directory is given exactly when the byte after the path is
  no slash**.
-/

import VModule.FileSystem
import VModule.Transfer

set_option relaxedAutoImplicit false
set_option autoImplicit false

namespace VModule

open Bytes PathName

namespace CFileUtils

/-! ### The function -/

/-- `name[i]` in a buffer of `size` bytes. -/
def peek (size : ℕ) (name : ℕ → UInt8) (i : ℕ) : Option UInt8 :=
  if i < size then some (name i) else none

/-- `name[i] = c` in a buffer of `size` bytes. -/
def poke (size : ℕ) (name : ℕ → UInt8) (i : ℕ) (c : UInt8) : Option (ℕ → UInt8) :=
  if i < size then some (store name i [c]) else none

/-- `readlink` of a link to `link`, or of none: what it returns and what is in the buffer. -/
def readlink (link : Option (List UInt8)) (name : ℕ → UInt8) (size : ℤ) : ℤ × (ℕ → UInt8) :=
  match link with
  | none => (-1, name)
  | some p =>
      if size ≤ 0 then (-1, name)
      else (min p.length size, store name 0 (p.take size.toNat))

/-- The rounds of the loop from `i` on. -/
def scan (size : ℕ) (name : ℕ → UInt8) : ℕ → Option (ℕ → UInt8)
  | 0 => do
      if (← peek size name 0) = slash then poke size name 1 0
      else some name
  | i + 1 => do
      if (← peek size name (i + 1)) = slash then poke size name (i + 2) 0
      else scan size name i

/-- `strlen`, if there is a zero in the buffer. -/
def strlen (size : ℕ) (name : ℕ → UInt8) : Option ℕ :=
  (List.range size).find? fun i => name i = 0

/-- `GetCurrentDirectory`, where `/proc/self/exe` leads to `link`. -/
def getCurrentDirectory (link : Option (List UInt8)) (size : ℤ) (name : ℕ → UInt8) :
    Option (ℤ × (ℕ → UInt8)) :=
  match readlink link name size with
  | (cnt, name) =>
      if cnt < 0 ∨ size ≤ cnt then some (-1, name)
      else
        (scan size.toNat name cnt.toNat).bind fun name =>
          (strlen size.toNat name).map fun len : ℕ => ((len : ℤ), name)

/-! ### What it does -/

variable {size k : ℕ} {name : ℕ → UInt8}

theorem peek_eq {i : ℕ} (h : i < size) : peek size name i = some (name i) := if_pos h

/-- The search goes down to the last slash. -/
theorem scan_eq_poke {i : ℕ} (hki : k ≤ i) (hi : i < size) (hk : name k = slash)
    (hafter : ∀ j, k < j → j ≤ i → name j ≠ slash) :
    scan size name i = poke size name (k + 1) 0 := by
  induction i with
  | zero =>
      obtain rfl : k = 0 := Nat.le_zero.1 hki
      simp [scan, peek_eq hi, hk]
  | succ i ih =>
      rcases Nat.lt_or_eq_of_le hki with hlt | rfl
      · have hne := hafter (i + 1) hlt (Nat.le_refl _)
        simp only [scan, peek_eq hi, Option.bind_eq_bind, Option.bind_some, if_neg hne]
        exact ih (Nat.le_of_lt_succ hlt) (Nat.lt_of_succ_lt hi) fun j hj hji =>
          hafter j hj (Nat.le_succ_of_le hji)
      · simp [scan, peek_eq hi, hk]

/-- The length is the place of the first zero. -/
theorem strlen_eq_some_iff :
    strlen size name = some k ↔ k < size ∧ name k = 0 ∧ ∀ j < k, name j ≠ 0 := by
  rw [strlen, List.find?_range_eq_some]
  simp only [decide_eq_true_eq, List.mem_range, Bool.not_eq_true', decide_eq_false_iff_not]
  exact ⟨fun ⟨hz, hlt, hbefore⟩ => ⟨hlt, hz, hbefore⟩, fun ⟨hlt, hz, hbefore⟩ => ⟨hz, hlt, hbefore⟩⟩

theorem poke_eq_some_iff {name' : ℕ → UInt8} {c : UInt8} :
    poke size name k c = some name' ↔ k < size ∧ store name k [c] = name' := by
  simp [poke]

/-- A string that is cut at `k`. -/
theorem strlen_poke {name' : ℕ → UInt8} (h : poke size name k 0 = some name')
    (hbefore : ∀ j < k, name j ≠ 0) : strlen size name' = some k := by
  obtain ⟨hk, rfl⟩ := poke_eq_some_iff.1 h
  refine strlen_eq_some_iff.2 ⟨hk, store_singleton name k 0, fun j hj => ?_⟩
  rw [store_of_gt name [0] hj]
  exact hbefore j hj

/-- A path that fits is searched from the byte after it. -/
theorem getCurrentDirectory_of_lt {p : List UInt8} (h : p.length < size) :
    getCurrentDirectory (some p) size name =
      (scan size (store name 0 p) p.length).bind fun name' =>
        (strlen size name').map fun len : ℕ => ((len : ℤ), name') := by
  have htake : p.take size = p := List.take_of_length_le h.le
  have hmin : min (p.length : ℤ) size = p.length := Int.min_eq_left (by omega)
  have hpos : ¬ (size : ℤ) ≤ 0 := by omega
  have hfits : ¬ ((p.length : ℤ) < 0 ∨ (size : ℤ) ≤ p.length) := by omega
  simp only [getCurrentDirectory, readlink, if_neg hpos, Int.toNat_natCast, htake, hmin,
    if_neg hfits]

/-- The path is cut after the byte at which the search ends. -/
theorem getCurrentDirectory_of_last {p : List UInt8} (h : p.length < size) (hzero : 0 ∉ p)
    (hk : k ≤ p.length) (hlast : store name 0 p k = slash)
    (hafter : ∀ j, k < j → j ≤ p.length → store name 0 p j ≠ slash) :
    getCurrentDirectory (some p) size name =
      (poke size (store name 0 p) (k + 1) 0).map fun name' => (↑(k + 1), name') := by
  rw [getCurrentDirectory_of_lt h, scan_eq_poke hk h hlast hafter]
  rcases hpoke : poke size (store name 0 p) (k + 1) 0 with _ | name'
  · rfl
  · have hbefore : ∀ j < k + 1, store name 0 p j ≠ 0 := by
      intro j hj
      rcases Nat.lt_or_eq_of_le (Nat.le_of_lt_succ hj) with hlt | rfl
      · rw [store_zero_of_lt name (Nat.lt_of_lt_of_le hlt hk)]
        exact fun heq => hzero (heq ▸ List.getElem_mem _)
      · rw [hlast]
        decide
    rw [Option.bind_some, strlen_poke hpoke hbefore]
    rfl

/-- The path up to its last slash. -/
theorem exists_last_slash {p : List UInt8} (h : slash ∈ p) :
    ∃ q r, p = q ++ slash :: r ∧ slash ∉ r := by
  obtain ⟨v, u, hv, hnot⟩ := List.eq_append_cons_of_mem (List.mem_reverse.2 h)
  refine ⟨u.reverse, v.reverse, ?_, fun hmem => hnot (List.mem_reverse.1 hmem)⟩
  rw [← List.reverse_reverse p, hv, List.reverse_append, List.reverse_cons, List.append_assoc,
    List.singleton_append]

/-- The buffer holds the directory of `p` when the function returns, all up to the last slash and a
zero after it, and the length is returned. -/
def GivesDirectory (p : List UInt8) (size : ℕ) (name : ℕ → UInt8) : Prop :=
  ∃ q r name', p = q ++ slash :: r ∧ slash ∉ r ∧
    getCurrentDirectory (some p) size name = some (↑(q.length + 1), name') ∧
      load name' 0 (q.length + 1) = q ++ [slash] ∧ name' (q.length + 1) = 0

/-- When the byte after the path is no slash the search ends at the last slash of the path. -/
theorem givesDirectory_of_ne {p : List UInt8} (hslash : slash ∈ p) (hzero : 0 ∉ p)
    (hsize : p.length < size) (hne : name p.length ≠ slash) : GivesDirectory p size name := by
  obtain ⟨q, r, rfl, hr⟩ := exists_last_slash hslash
  have hlength : (q ++ slash :: r).length = q.length + 1 + r.length := by
    simp only [List.length_append, List.length_cons]
    omega
  have hlast : store name 0 (q ++ slash :: r) q.length = slash := by
    rw [store_zero_of_lt name (by omega)]
    simp
  have hafter : ∀ j, q.length < j → j ≤ (q ++ slash :: r).length →
      store name 0 (q ++ slash :: r) j ≠ slash := by
    intro j hj hle
    rcases Nat.lt_or_eq_of_le hle with hlt | rfl
    · obtain ⟨i, rfl⟩ := Nat.exists_eq_add_of_le hj
      have hindex : q.length + 1 + i - q.length = i + 1 := by omega
      rw [store_zero_of_lt name hlt, List.getElem_append_right (by omega)]
      simp only [hindex, List.getElem_cons_succ]
      exact fun heq => hr (heq ▸ List.getElem_mem _)
    · rw [store_of_le name (by omega)]
      exact hne
  refine ⟨q, r, store (store name 0 (q ++ slash :: r)) (q.length + 1) [0], rfl, hr, ?_, ?_,
    store_singleton _ _ _⟩
  · rw [getCurrentDirectory_of_last hsize hzero (by omega) hlast hafter, poke, if_pos (by omega)]
    rfl
  · have htake := take_load (store name 0 (q ++ slash :: r)) 0 (k := q.length + 1)
      (n := (q ++ slash :: r).length) (by omega)
    rw [load_store_of_le _ _ (by omega), ← htake, load_store, List.take_length_add_append]
    rfl

/-- When it is a slash the search ends at once, and the path is cut after it, if there is room. -/
theorem not_givesDirectory {p : List UInt8} (hzero : 0 ∉ p) (hsize : p.length < size)
    (hlast : name p.length = slash) : ¬ GivesDirectory p size name := by
  rintro ⟨q, r, name', hp, -, hret, -⟩
  have hstop : store name 0 p p.length = slash := (store_of_le name (by omega)).trans hlast
  rw [getCurrentDirectory_of_last hsize hzero (Nat.le_refl _) hstop (by omega)] at hret
  rcases hpoke : poke size (store name 0 p) (p.length + 1) 0 with _ | name''
  · rw [hpoke] at hret
    cases hret
  · rw [hpoke] at hret
    have hlength : (↑(p.length + 1) : ℤ) = ↑(q.length + 1) :=
      (Prod.ext_iff.1 (Option.some_inj.1 hret)).1
    rw [hp, List.length_append, List.length_cons] at hlength
    omega

end CFileUtils

open CFileUtils

/-- **The directory is given exactly when the byte after the path is no slash.** -/
theorem currentDirectory_iff (p : List UInt8) (size : ℕ) (name : ℕ → UInt8) (hslash : slash ∈ p)
    (hzero : 0 ∉ p) (hsize : p.length < size) :
    GivesDirectory p size name ↔ name p.length ≠ slash :=
  ⟨fun h hlast => not_givesDirectory hzero hsize hlast h,
    givesDirectory_of_ne hslash hzero hsize⟩

/-- `/b/x` in a buffer of zeros. -/
theorem currentDirectory_clean : GivesDirectory [47, 98, 47, 120] 260 (fun _ => 0) :=
  (currentDirectory_iff [47, 98, 47, 120] 260 (fun _ => 0) (by decide) (by decide) (by decide)).2
    (by decide)

/-- `/b/x` in a buffer that is full of slashes. -/
theorem currentDirectory_leftover : ¬ GivesDirectory [47, 98, 47, 120] 260 (fun _ => slash) :=
  not_givesDirectory (by decide) (by decide) rfl

end VModule

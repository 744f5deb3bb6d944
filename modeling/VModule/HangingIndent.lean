/-
**Texts printed with a hanging indentation.**

A page holds texts of several lines.  The first line of a text is printed as it is, each further
line behind an indentation, and the last one is followed by a separator.  The texts can be read back
from the page if none of them begins with the indentation itself.

Main definitions:

* `HangingIndent.hang`, `HangingIndent.page` — a text and a page as they are printed;
* `HangingIndent.readPage` — the texts of a page.

Main results:

* `HangingIndent.hang_append` — what is put in front of a text goes into its first line;
* `HangingIndent.flatMap_eq_hang` — hanging a text is a substitution;
* `HangingIndent.readPage_page` — **what is read from a page** are the texts printed on it.
-/

import Mathlib.Data.List.SplitBy

set_option relaxedAutoImplicit false
set_option autoImplicit false

namespace HangingIndent

variable {α : Type} [DecidableEq α] {sep : α} {indent : List α}

/-! ### Printing -/

/-- The lines of a text, with the indentation in front of all but the first. -/
def hangLines (indent : List α) : List (List α) → List (List α)
  | [] => []
  | l :: ls => l :: ls.map (indent ++ ·)

def hang (sep : α) (indent text : List α) : List α :=
  [sep].intercalate (hangLines indent (text.splitOn sep))

def page (sep : α) (indent : List α) (texts : List (List α)) : List α :=
  texts.flatMap fun text => hang sep indent text ++ [sep]

omit [DecidableEq α] in
@[simp] theorem hangLines_eq_nil {ls : List (List α)} : hangLines indent ls = [] ↔ ls = [] := by
  cases ls <;> simp [hangLines]

theorem not_mem_of_mem_splitOn {text l : List α} (h : l ∈ text.splitOn sep) : sep ∉ l := by
  induction text generalizing l with
  | nil =>
      simp only [List.splitOn_nil, List.mem_singleton] at h
      simp [h]
  | cons c text ih =>
      rw [List.splitOn_cons_eq_if_modifyHead] at h
      by_cases hc : c = sep
      · rw [if_pos (beq_iff_eq.2 hc), List.mem_cons] at h
        rcases h with rfl | h
        · exact List.not_mem_nil
        · exact ih h
      · rw [if_neg (by simpa using hc)] at h
        obtain ⟨l₀, ls, hls⟩ := List.exists_cons_of_ne_nil (List.splitOn_ne_nil sep text)
        rw [hls] at h ih
        rw [List.modifyHead_cons, List.mem_cons] at h
        rcases h with rfl | h
        · have hl₀ := ih (List.mem_cons_self ..)
          simp [hl₀, Ne.symm hc]
        · exact ih (List.mem_cons_of_mem _ h)

/-- What stands in front of the first separator is the beginning of the first line. -/
theorem splitOn_append {p : List α} (hp : sep ∉ p) (text : List α) :
    (p ++ text).splitOn sep = (text.splitOn sep).modifyHead (p ++ ·) := by
  induction p with
  | nil =>
      obtain ⟨l, ls, hls⟩ := List.exists_cons_of_ne_nil (List.splitOn_ne_nil sep text)
      simp [hls]
  | cons c p ih =>
      obtain ⟨hc, hp⟩ := not_or.1 (mt List.mem_cons.2 hp)
      obtain ⟨l, ls, hls⟩ := List.exists_cons_of_ne_nil (List.splitOn_ne_nil sep text)
      rw [List.cons_append, List.splitOn_cons_eq_if_modifyHead, ih hp,
        if_neg (by simpa using Ne.symm hc), hls]
      rfl

theorem hang_append {p : List α} (hp : sep ∉ p) (text : List α) :
    hang sep indent (p ++ text) = p ++ hang sep indent text := by
  obtain ⟨l, ls, hls⟩ := List.exists_cons_of_ne_nil (List.splitOn_ne_nil sep text)
  rw [hang, hang, splitOn_append hp, hls, List.modifyHead_cons, hangLines, hangLines]
  cases ls with
  | nil => simp
  | cons l' ls => simp

/-- Hanging a text is to put the indentation behind each of its separators. -/
theorem flatMap_eq_hang (text : List α) :
    (text.flatMap fun c => if c = sep then sep :: indent else [c]) = hang sep indent text := by
  induction text with
  | nil => simp [hang, hangLines]
  | cons c text ih =>
      rw [List.flatMap_cons, ih]
      by_cases hc : c = sep
      · obtain ⟨l, ls, hls⟩ := List.exists_cons_of_ne_nil (List.splitOn_ne_nil sep text)
        rw [if_pos hc, hang, hang, List.splitOn_cons_eq_if_modifyHead, if_pos (beq_iff_eq.2 hc),
          hls, hangLines, hangLines]
        cases ls with
        | nil => simp
        | cons l' ls => simp
      · rw [if_neg hc]
        refine (hang_append ?_ text).symm
        simpa using Ne.symm hc

/-! ### Reading -/

/-- The lines of a page, each of which is ended by a separator. -/
def readLines (sep : α) (p : List α) : List (List α) := (p.splitOn sep).dropLast

/-- The text that is printed as some lines. -/
def unhang (sep : α) (indent : List α) : List (List α) → List α
  | [] => []
  | l :: ls => [sep].intercalate (l :: ls.map (List.drop indent.length))

/-- A line that begins with the indentation goes on with the text of the line above. -/
def readPage (sep : α) (indent p : List α) : List (List α) :=
  ((readLines sep p).splitBy fun _ l => indent.isPrefixOf l).map (unhang sep indent)

theorem unhang_hangLines (text : List α) :
    unhang sep indent (hangLines indent (text.splitOn sep)) = text := by
  obtain ⟨l, ls, hls⟩ := List.exists_cons_of_ne_nil (List.splitOn_ne_nil sep text)
  have hdrop : (ls.map (indent ++ ·)).map (List.drop indent.length) = ls := by
    rw [List.map_map]
    exact List.map_id'' (fun l => List.drop_left) ls
  rw [hls, hangLines, unhang, hdrop, ← hls, List.intercalate_splitOn]

omit [DecidableEq α] in
/-- Two rows of lines, one behind the other. -/
theorem intercalate_append {ls ls' : List (List α)} (h : ls ≠ []) (h' : ls' ≠ []) :
    [sep].intercalate (ls ++ ls') = [sep].intercalate ls ++ sep :: [sep].intercalate ls' := by
  induction ls with
  | nil => exact absurd rfl h
  | cons l ls ih =>
      rw [List.cons_append]
      by_cases hls : ls = []
      · rw [hls, List.nil_append, List.intercalate_cons_of_ne_nil h', List.intercalate_singleton,
          List.append_assoc, List.singleton_append]
      · rw [List.intercalate_cons_of_ne_nil (List.append_ne_nil_of_left_ne_nil hls ls'), ih hls,
          List.intercalate_cons_of_ne_nil hls]
        simp only [List.append_assoc]

/-- The lines of a page are the lines of its texts. -/
theorem page_eq (texts : List (List α)) :
    page sep indent texts =
      [sep].intercalate
        ((texts.flatMap fun text => hangLines indent (text.splitOn sep)) ++ [[]]) := by
  induction texts with
  | nil => simp [page]
  | cons text texts ih =>
      have hne : hangLines indent (text.splitOn sep) ≠ [] :=
        mt hangLines_eq_nil.1 (List.splitOn_ne_nil sep text)
      have hrest : (texts.flatMap fun text => hangLines indent (text.splitOn sep)) ++ [[]] ≠ [] :=
        List.append_ne_nil_of_right_ne_nil _ (List.cons_ne_nil _ _)
      rw [List.flatMap_cons, List.append_assoc, intercalate_append hne hrest, ← ih, ← hang, page,
        List.flatMap_cons, ← page, List.append_assoc, List.singleton_append]

theorem not_mem_hangLines (hsep : sep ∉ indent) {text l : List α}
    (h : l ∈ hangLines indent (text.splitOn sep)) : sep ∉ l := by
  obtain ⟨l₀, ls, hls⟩ := List.exists_cons_of_ne_nil (List.splitOn_ne_nil sep text)
  have hfree : ∀ l ∈ l₀ :: ls, sep ∉ l := fun l hl => not_mem_of_mem_splitOn (hls ▸ hl)
  rw [hls, hangLines, List.mem_cons, List.mem_map] at h
  rcases h with rfl | ⟨l', hl', rfl⟩
  · exact hfree _ (List.mem_cons_self ..)
  · rw [List.mem_append, not_or]
    exact ⟨hsep, hfree _ (List.mem_cons_of_mem _ hl')⟩

theorem readLines_page (hsep : sep ∉ indent) (texts : List (List α)) :
    readLines sep (page sep indent texts) =
      (texts.map fun text => hangLines indent (text.splitOn sep)).flatten := by
  rw [readLines, page_eq, List.splitOn_intercalate, List.dropLast_concat, List.flatMap_def]
  · intro l hl
    rw [List.mem_append, List.mem_flatMap, List.mem_singleton] at hl
    rcases hl with ⟨text, -, hl⟩ | rfl
    · exact not_mem_hangLines hsep hl
    · exact List.not_mem_nil
  · simp

/-- The lines of a text belong together. -/
theorem isChain_hangLines (ls : List (List α)) :
    (hangLines indent ls).IsChain fun _ l => indent.isPrefixOf l := by
  cases ls with
  | nil => exact List.isChain_nil
  | cons l ls =>
      rw [hangLines]
      induction ls generalizing l with
      | nil => exact List.isChain_singleton _
      | cons l' ls ih => exact List.isChain_cons_cons.2 ⟨by simp, ih _⟩

/-- The first line of a text that does not begin with the indentation does not do so either. -/
theorem head_hangLines {text : List α} (h : ¬ indent <+: text)
    (hne : hangLines indent (text.splitOn sep) ≠ []) :
    indent.isPrefixOf ((hangLines indent (text.splitOn sep)).head hne) = false := by
  obtain ⟨l, ls, hls⟩ := List.exists_cons_of_ne_nil (List.splitOn_ne_nil sep text)
  have hpre : l <+: text := by
    have htext : [sep].intercalate (text.splitOn sep) = text := List.intercalate_splitOn sep
    rw [← htext, hls]
    cases ls with
    | nil => simp
    | cons l' ls => simp
  rw [Bool.eq_false_iff]
  intro hl
  simp only [hls, hangLines, List.head_cons, List.isPrefixOf_iff_prefix] at hl
  exact h (hl.trans hpre)

/-- **What is read from a page** are the texts printed on it. -/
theorem readPage_page (hsep : sep ∉ indent) {texts : List (List α)}
    (h : ∀ text ∈ texts, ¬ indent <+: text) :
    readPage sep indent (page sep indent texts) = texts := by
  have hne : ∀ text : List α, hangLines indent (text.splitOn sep) ≠ [] := fun text =>
    mt hangLines_eq_nil.1 (List.splitOn_ne_nil sep text)
  rw [readPage, readLines_page hsep, List.splitBy_flatten, List.map_map]
  · exact List.map_id'' unhang_hangLines texts
  · intro hmem
    obtain ⟨text, -, htext⟩ := List.mem_map.1 hmem
    exact hne text htext
  · intro ls hls
    obtain ⟨text, -, rfl⟩ := List.mem_map.1 hls
    exact isChain_hangLines _
  · rw [List.isChain_map]
    refine (List.pairwise_of_forall_mem_list fun text _ text' htext' => ?_).isChain
    exact ⟨hne text, hne text', head_hangLines (h text' htext') (hne text')⟩

end HangingIndent

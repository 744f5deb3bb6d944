/-
**`IsNaturalNumber` and `IsInteger` of `sutils/StringUtils.cpp` against the languages that
`sutils/StringUtils.h` documents.**

The scans take any white space for a space, and at most one minus sign.  The documentation has
spaces and tabs only, and any number of minus signs.  A string is read in one way, as white space,
minus signs, digits and white space, since these parts have no character in common; so the two
answers are to be compared on that reading.

Main definitions:

* `VModule.StringUtils.naturalNumbers`, `VModule.StringUtils.integers` — the documented languages;
* `VModule.StringUtils.misjudged` — the strings on which a function and its documentation differ;
* `VModule.StringUtils.Reading` — the parts of a string.

Main results:

* `VModule.StringUtils.isNaturalNumber_iff`, `VModule.StringUtils.isInteger_iff` — what is accepted;
* `VModule.StringUtils.Reading.unique` — the parts are determined by the string;
* `VModule.documented_iff` — the functions follow their documentation exactly outside the misjudged
  strings.
-/

import VModule.CharClasses
import VModule.StringScans

set_option relaxedAutoImplicit false
set_option autoImplicit false

namespace VModule

open CharClasses

namespace StringUtils

/-! ### The languages -/

/-- `[ \t]`. -/
def blanks : List UInt8 := [32, 9]

/-- `[\-]`. -/
def minus : List UInt8 := [45]

/-- The white space that is no space or tab. -/
def lineBreaks : List UInt8 := [10, 11, 12, 13]

/-- `[ \t]*[0-9]+[ \t]*`. -/
def naturalNumbers : RegularExpression UInt8 := many blanks * (many1 digits * many blanks)

/-- `[ \t]*[\-]*[0-9]+[ \t]*`. -/
def integers : RegularExpression UInt8 :=
  many blanks * (many minus * (many1 digits * many blanks))

/-- White space with a line break in it. -/
def broken : RegularExpression UInt8 := many whiteSpace * (oneOf lineBreaks * many whiteSpace)

/-- At most one minus sign. -/
def sign : RegularExpression UInt8 := 1 + oneOf minus

/-- More than one minus sign. -/
def severalSigns : RegularExpression UInt8 := oneOf minus * many1 minus

/-- A number with a line break in the white space around it, or one with several minus signs between
spaces and tabs. -/
def misjudged : RegularExpression UInt8 :=
  broken * (sign * (many1 digits * many whiteSpace)) +
    many whiteSpace * (sign * (many1 digits * broken)) +
    many blanks * (severalSigns * (many1 digits * many blanks))

/-! ### The reading of a string -/

/-- The string is white space `a`, minus signs `m`, digits `d` and white space `b`. -/
structure Reading (str a m d b : List UInt8) : Prop where
  eq : str = a ++ (m ++ (d ++ b))
  before : ∀ c ∈ a, c ∈ whiteSpace
  signs : ∀ c ∈ m, c ∈ minus
  nonempty : d ≠ []
  figures : ∀ c ∈ d, c ∈ digits
  after : ∀ c ∈ b, c ∈ whiteSpace

theorem mem_whiteSpace_of_blanks {c : UInt8} (h : c ∈ blanks) : c ∈ whiteSpace :=
  forall_of_all (P := fun c => c ∈ whiteSpace) (by decide) h

theorem mem_whiteSpace_of_lineBreaks {c : UInt8} (h : c ∈ lineBreaks) : c ∈ whiteSpace :=
  forall_of_all (P := fun c => c ∈ whiteSpace) (by decide) h

theorem not_mem_digits {c : UInt8} (h : c ∈ whiteSpace) : c ∉ digits :=
  forall_of_all (P := fun c => c ∉ digits) (by decide) h

theorem not_mem_minus {c : UInt8} (h : c ∈ whiteSpace) : c ∉ minus :=
  forall_of_all (P := fun c => c ∉ minus) (by decide) h

theorem not_mem_minus_of_digits {c : UInt8} (h : c ∈ digits) : c ∉ minus :=
  forall_of_all (P := fun c => c ∉ minus) (by decide) h

theorem mem_lineBreaks_iff {c : UInt8} (h : c ∈ whiteSpace) : c ∈ lineBreaks ↔ c ∉ blanks :=
  forall_of_all (P := fun c => c ∈ lineBreaks ↔ c ∉ blanks) (by decide) h

namespace Reading

variable {str a m d b a' m' d' b' : List UInt8}

/-- A number between spaces and tabs. -/
theorem of_blanks (ha : ∀ c ∈ a, c ∈ blanks) (hm : ∀ c ∈ m, c ∈ minus) (hsome : d ≠ [])
    (hd : ∀ c ∈ d, c ∈ digits) (hb : ∀ c ∈ b, c ∈ blanks) :
    Reading (a ++ (m ++ (d ++ b))) a m d b where
  eq := rfl
  before c hc := mem_whiteSpace_of_blanks (ha c hc)
  signs := hm
  nonempty := hsome
  figures := hd
  after c hc := mem_whiteSpace_of_blanks (hb c hc)

/-- The first digit. -/
theorem head_digits (h : Reading str a m d b) {c : UInt8} (hc : (d ++ b).head? = some c) :
    c ∈ digits := by
  obtain ⟨c', d', rfl⟩ := List.exists_cons_of_ne_nil h.nonempty
  rw [← Option.some_inj.1 hc]
  exact h.figures c' List.mem_cons_self

/-- What comes after the white space. -/
theorem head_signs (h : Reading str a m d b) {c : UInt8} (hc : (m ++ (d ++ b)).head? = some c) :
    c ∉ whiteSpace := by
  intro hwhite
  cases m with
  | nil => exact not_mem_digits hwhite (h.head_digits hc)
  | cons e m =>
      rw [← Option.some_inj.1 hc] at hwhite
      exact not_mem_minus hwhite (h.signs e List.mem_cons_self)

theorem takeWhile_before (h : Reading str a m d b) :
    str.takeWhile (· ∈ whiteSpace) = a ∧ str.dropWhile (· ∈ whiteSpace) = m ++ (d ++ b) := by
  have ha : ∀ c ∈ a, decide (c ∈ whiteSpace) = true := fun c hc => decide_eq_true (h.before c hc)
  have hrest : ∀ c, (m ++ (d ++ b)).head? = some c → decide (c ∈ whiteSpace) = false :=
    fun c hc => decide_eq_false (h.head_signs hc)
  rw [h.eq]
  exact ⟨takeWhile_append ha hrest, dropWhile_append ha hrest⟩

theorem takeWhile_signs (h : Reading str a m d b) :
    (m ++ (d ++ b)).takeWhile (· ∈ minus) = m ∧ (m ++ (d ++ b)).dropWhile (· ∈ minus) = d ++ b := by
  have hm : ∀ c ∈ m, decide (c ∈ minus) = true := fun c hc => decide_eq_true (h.signs c hc)
  have hrest : ∀ c, (d ++ b).head? = some c → decide (c ∈ minus) = false :=
    fun c hc => decide_eq_false (not_mem_minus_of_digits (h.head_digits hc))
  exact ⟨takeWhile_append hm hrest, dropWhile_append hm hrest⟩

theorem takeWhile_digits (hd : ∀ c ∈ d, c ∈ digits) (hb : ∀ c ∈ b, c ∈ whiteSpace) :
    (d ++ b).takeWhile (· ∈ digits) = d ∧ (d ++ b).dropWhile (· ∈ digits) = b := by
  have hd' : ∀ c ∈ d, decide (c ∈ digits) = true := fun c hc => decide_eq_true (hd c hc)
  have hrest : ∀ c, b.head? = some c → decide (c ∈ digits) = false :=
    fun c hc => decide_eq_false (not_mem_digits (hb c (List.mem_of_head? hc)))
  exact ⟨takeWhile_append hd' hrest, dropWhile_append hd' hrest⟩

/-- A string is read in one way. -/
theorem unique (h : Reading str a m d b) (h' : Reading str a' m' d' b') :
    a = a' ∧ m = m' ∧ d = d' ∧ b = b' := by
  obtain ⟨ha, hrest⟩ := h.takeWhile_before
  obtain ⟨ha', hrest'⟩ := h'.takeWhile_before
  rw [hrest] at hrest'
  obtain ⟨hm, hrest₂⟩ := h.takeWhile_signs
  obtain ⟨hm', hrest₂'⟩ := h'.takeWhile_signs
  rw [← hrest', hrest₂] at hrest₂'
  obtain ⟨hd, hb⟩ := takeWhile_digits h.figures h.after
  obtain ⟨hd', hb'⟩ := takeWhile_digits h'.figures h'.after
  refine ⟨ha.symm.trans ha', ?_, ?_, ?_⟩
  · rw [← hm, ← hm', hrest']
  · rw [← hd, ← hd', hrest₂']
  · rw [← hb, ← hb', hrest₂']

/-- What some reading of a string has, every one has. -/
theorem exists_iff (h : Reading str a m d b) {P : List UInt8 → List UInt8 → List UInt8 → Prop} :
    (∃ a m d b, Reading str a m d b ∧ P a m b) ↔ P a m b := by
  constructor
  · rintro ⟨a', m', d', b', h', hP⟩
    obtain ⟨rfl, rfl, rfl, rfl⟩ := h.unique h'
    exact hP
  · exact fun hP => ⟨a, m, d, b, h, hP⟩

end Reading

/-! ### What the functions accept -/

theorem skipSpaces_eq (rest : List UInt8) (i : ℕ) :
    skipSpaces rest i = i + (rest.takeWhile (· ∈ whiteSpace)).length := by
  induction rest generalizing i with
  | nil => rfl
  | cons c rest ih =>
      rw [skipSpaces, isspace_eq]
      by_cases hc : decide (c ∈ whiteSpace)
      · rw [if_pos hc, ih, List.takeWhile_cons, if_pos hc, List.length_cons]
        omega
      · rw [if_neg hc, List.takeWhile_cons, if_neg hc]
        rfl

theorem skipDigits_eq (rest : List UInt8) (i n : ℕ) :
    skipDigits rest i n =
      (i + (rest.takeWhile (· ∈ digits)).length, n + (rest.takeWhile (· ∈ digits)).length) := by
  induction rest generalizing i n with
  | nil => rfl
  | cons c rest ih =>
      rw [skipDigits, isdigit_eq]
      by_cases hc : decide (c ∈ digits)
      · rw [if_pos hc, ih, List.takeWhile_cons, if_pos hc, List.length_cons, Nat.add_assoc,
          Nat.add_assoc, Nat.add_comm 1]
      · rw [if_neg hc, List.takeWhile_cons, if_neg hc]
        rfl

/-- The end of the functions, behind the characters `pre`. -/
theorem digitsFrom_iff (pre rest : List UInt8) :
    digitsFrom (pre ++ rest) pre.length = true ↔
      ∃ d b, rest = d ++ b ∧ d ≠ [] ∧ (∀ c ∈ d, c ∈ digits) ∧ ∀ c ∈ b, c ∈ whiteSpace := by
  obtain ⟨d, b, hsplit, htake, hdrop, hd⟩ := exists_scan (· ∈ digits) rest
  have hb : (pre ++ rest).drop (pre.length + d.length) = b := by
    rw [List.drop_length_add_append, hsplit, List.drop_left]
  rw [digitsFrom, List.drop_left, skipDigits_eq]
  dsimp only
  rw [decide_eq_true_iff, htake, hb, skipSpaces_eq, Nat.zero_add, gt_iff_lt, List.length_pos_iff]
  constructor
  · rintro ⟨hlen, hsome⟩
    have hall : b.takeWhile (· ∈ whiteSpace) = b := by
      refine (List.takeWhile_sublist _).eq_of_length ?_
      rw [hsplit, List.length_append, List.length_append] at hlen
      omega
    refine ⟨d, b, hsplit, hsome, fun c hc => of_decide_eq_true (hd c hc), fun c hc => ?_⟩
    exact of_decide_eq_true (List.takeWhile_eq_self_iff.1 hall c hc)
  · rintro ⟨d', b', rfl, hsome, hd', hb'⟩
    obtain ⟨htake', hdrop'⟩ := Reading.takeWhile_digits hd' hb'
    obtain rfl := htake.symm.trans htake'
    obtain rfl := hdrop.symm.trans hdrop'
    rw [List.takeWhile_eq_self_iff.2 fun c hc => decide_eq_true (hb' c hc), List.length_append,
      List.length_append]
    exact ⟨Nat.add_assoc _ _ _, hsome⟩

theorem isNaturalNumber_iff (str : List UInt8) :
    isNaturalNumber str = true ↔ ∃ a m d b, Reading str a m d b ∧ m = [] := by
  obtain ⟨a, rest, hsplit, htake, hdrop, ha⟩ := exists_scan (· ∈ whiteSpace) str
  have hscan := digitsFrom_iff a rest
  rw [← hsplit] at hscan
  rw [isNaturalNumber, skipSpaces_eq, Nat.zero_add, htake, hscan]
  constructor
  · rintro ⟨d, b, rfl, hsome, hd, hb⟩
    exact ⟨a, [], d, b, ⟨hsplit, fun c hc => of_decide_eq_true (ha c hc),
      fun c hc => absurd hc List.not_mem_nil, hsome, hd, hb⟩, rfl⟩
  · rintro ⟨a', m, d, b, h, rfl⟩
    exact ⟨d, b, hdrop.symm.trans h.takeWhile_before.2, h.nonempty, h.figures, h.after⟩

theorem isInteger_iff (str : List UInt8) :
    isInteger str = true ↔ ∃ a m d b, Reading str a m d b ∧ m.length ≤ 1 := by
  obtain ⟨a, rest, hsplit, htake, hdrop, ha⟩ := exists_scan (· ∈ whiteSpace) str
  have hwhite : ∀ c ∈ a, c ∈ whiteSpace := fun c hc => of_decide_eq_true (ha c hc)
  have hget : str[a.length]? = rest.head? := by
    rw [hsplit, List.getElem?_append_right (Nat.le_refl _), Nat.sub_self, List.head?_eq_getElem?]
  unfold isInteger
  rw [skipSpaces_eq, Nat.zero_add, htake]
  dsimp only
  by_cases hminus : rest.head? = some 45
  · -- one minus sign is skipped
    obtain ⟨rest, rfl⟩ := List.head?_eq_some_iff.1 hminus
    have hscan := digitsFrom_iff (a ++ [45]) rest
    rw [List.append_assoc, List.singleton_append, ← hsplit, List.length_append,
      List.length_singleton] at hscan
    rw [if_pos (hget.trans hminus), hscan]
    constructor
    · rintro ⟨d, b, rfl, hsome, hd, hb⟩
      exact ⟨a, [45], d, b, ⟨hsplit, hwhite, fun _ hc => hc, hsome, hd, hb⟩, Nat.le_refl 1⟩
    · rintro ⟨a', m, d, b, h, hm⟩
      have hparts : 45 :: rest = m ++ (d ++ b) := hdrop.symm.trans h.takeWhile_before.2
      cases m with
      | nil =>
          have hhead : (d ++ b).head? = some 45 := by
            rw [← List.nil_append (d ++ b), ← hparts]
            rfl
          exact absurd (h.head_digits hhead) (by decide)
      | cons c m =>
          rw [List.length_cons] at hm
          rw [List.eq_nil_of_length_eq_zero (l := m) (by omega)] at hparts
          exact ⟨d, b, (List.cons.inj hparts).2, h.nonempty, h.figures, h.after⟩
  · have hscan := digitsFrom_iff a rest
    rw [← hsplit] at hscan
    rw [if_neg (by rw [hget]; exact hminus), hscan]
    constructor
    · rintro ⟨d, b, rfl, hsome, hd, hb⟩
      exact ⟨a, [], d, b, ⟨hsplit, hwhite, fun c hc => absurd hc List.not_mem_nil, hsome, hd, hb⟩,
        Nat.zero_le 1⟩
    · rintro ⟨a', m, d, b, h, -⟩
      have hparts : rest = m ++ (d ++ b) := hdrop.symm.trans h.takeWhile_before.2
      cases m with
      | nil => exact ⟨d, b, hparts, h.nonempty, h.figures, h.after⟩
      | cons c m =>
          refine absurd ?_ hminus
          rw [hparts, List.mem_singleton.1 (h.signs c List.mem_cons_self)]
          rfl

/-! ### What the documentation accepts -/

variable {str w : List UInt8}

theorem mem_naturalNumbers_iff :
    str ∈ naturalNumbers.matches' ↔
      ∃ a m d b, Reading str a m d b ∧
        m = [] ∧ (∀ c ∈ a, c ∈ blanks) ∧ ∀ c ∈ b, c ∈ blanks := by
  simp only [naturalNumbers, mem_mul, mem_many, mem_many1]
  constructor
  · rintro ⟨a, _, rfl, ha, d, b, rfl, ⟨hsome, hd⟩, hb⟩
    have hsigns : ∀ c ∈ [], c ∈ minus := fun c hc => absurd hc List.not_mem_nil
    have hread := Reading.of_blanks ha hsigns hsome hd hb
    exact ⟨a, [], d, b, hread, rfl, ha, hb⟩
  · rintro ⟨a, m, d, b, h, rfl, ha, hb⟩
    exact ⟨a, d ++ b, h.eq, ha, d, b, rfl, ⟨h.nonempty, h.figures⟩, hb⟩

theorem mem_integers_iff :
    str ∈ integers.matches' ↔
      ∃ a m d b, Reading str a m d b ∧ (∀ c ∈ a, c ∈ blanks) ∧ ∀ c ∈ b, c ∈ blanks := by
  simp only [integers, mem_mul, mem_many, mem_many1]
  constructor
  · rintro ⟨a, _, rfl, ha, m, _, rfl, hm, d, b, rfl, ⟨hsome, hd⟩, hb⟩
    exact ⟨a, m, d, b, Reading.of_blanks ha hm hsome hd hb, ha, hb⟩
  · rintro ⟨a, m, d, b, h, ha, hb⟩
    exact ⟨a, _, h.eq, ha, m, _, rfl, h.signs, d, b, rfl, ⟨h.nonempty, h.figures⟩, hb⟩

theorem mem_broken_iff :
    w ∈ broken.matches' ↔ (∀ c ∈ w, c ∈ whiteSpace) ∧ ∃ c ∈ w, c ∈ lineBreaks := by
  simp only [broken, mem_mul, mem_many, mem_oneOf]
  constructor
  · rintro ⟨a, _, rfl, ha, _, b, rfl, ⟨c, hc, rfl⟩, hb⟩
    refine ⟨fun d hd => ?_, c, List.mem_append_right a List.mem_cons_self, hc⟩
    rcases List.mem_append.1 hd with hd | hd
    · exact ha d hd
    · rcases List.mem_cons.1 hd with rfl | hd
      · exact mem_whiteSpace_of_lineBreaks hc
      · exact hb d hd
  · rintro ⟨hw, c, hc, hbreak⟩
    obtain ⟨a, b, rfl⟩ := List.append_of_mem hc
    exact ⟨a, c :: b, rfl, fun d hd => hw d (List.mem_append_left _ hd), [c], b, rfl,
      ⟨c, hbreak, rfl⟩, fun d hd => hw d (List.mem_append_right a (List.mem_cons_of_mem c hd))⟩

/-- White space without a line break is spaces and tabs. -/
theorem blanks_or_broken (h : ∀ c ∈ w, c ∈ whiteSpace) :
    (∀ c ∈ w, c ∈ blanks) ↔ ¬ ∃ c ∈ w, c ∈ lineBreaks := by
  constructor
  · rintro hblanks ⟨c, hc, hbreak⟩
    exact (mem_lineBreaks_iff (h c hc)).1 hbreak (hblanks c hc)
  · intro hno c hc
    by_contra hblank
    exact hno ⟨c, hc, (mem_lineBreaks_iff (h c hc)).2 hblank⟩

theorem mem_sign_iff : w ∈ sign.matches' ↔ (∀ c ∈ w, c ∈ minus) ∧ w.length ≤ 1 := by
  rw [sign, RegularExpression.matches'_add, Language.mem_add, mem_oneOf]
  constructor
  · rintro (h | ⟨c, hc, rfl⟩)
    · obtain rfl : w = [] := h
      exact ⟨fun c hc => absurd hc List.not_mem_nil, Nat.zero_le 1⟩
    · exact ⟨fun d hd => by rw [List.mem_singleton.1 hd]; exact hc, Nat.le_refl 1⟩
  · rintro ⟨hw, hlen⟩
    cases w with
    | nil => exact Or.inl rfl
    | cons c w =>
        rw [List.length_cons] at hlen
        obtain rfl := List.eq_nil_of_length_eq_zero (l := w) (by omega)
        exact Or.inr ⟨c, hw c List.mem_cons_self, rfl⟩

theorem mem_severalSigns_iff :
    w ∈ severalSigns.matches' ↔ (∀ c ∈ w, c ∈ minus) ∧ 2 ≤ w.length := by
  simp only [severalSigns, mem_mul, mem_oneOf, mem_many1]
  constructor
  · rintro ⟨_, b, rfl, ⟨c, hc, rfl⟩, hne, hb⟩
    have hpos := List.length_pos_of_ne_nil hne
    refine ⟨fun d hd => ?_, by rw [List.length_append, List.length_singleton]; omega⟩
    rcases List.mem_append.1 hd with hd | hd
    · rw [List.mem_singleton.1 hd]
      exact hc
    · exact hb d hd
  · rintro ⟨hw, hlen⟩
    cases w with
    | nil => cases hlen
    | cons c b =>
        refine ⟨[c], b, rfl, ⟨c, hw c List.mem_cons_self, rfl⟩, ?_,
          fun d hd => hw d (List.mem_cons_of_mem c hd)⟩
        rintro rfl
        rw [List.length_singleton] at hlen
        omega

/-- The strings on which a function and its documentation differ. -/
theorem mem_misjudged_iff :
    str ∈ misjudged.matches' ↔ ∃ a m d b, Reading str a m d b ∧
      (m.length ≤ 1 ↔ ¬ ((∀ c ∈ a, c ∈ blanks) ∧ ∀ c ∈ b, c ∈ blanks)) := by
  simp only [misjudged, RegularExpression.matches'_add, Language.mem_add]
  simp only [mem_mul, mem_broken_iff, mem_sign_iff, mem_severalSigns_iff, mem_many, mem_many1]
  constructor
  · rintro ((h | h) | h)
    · obtain ⟨a, _, rfl, ⟨ha, hbreak⟩, m, _, rfl, ⟨hm, hlen⟩, d, b, rfl, ⟨hsome, hd⟩, hb⟩ := h
      refine ⟨a, m, d, b, ⟨rfl, ha, hm, hsome, hd, hb⟩, iff_of_true hlen fun hblanks => ?_⟩
      exact (blanks_or_broken ha).1 hblanks.1 hbreak
    · obtain ⟨a, _, rfl, ha, m, _, rfl, ⟨hm, hlen⟩, d, b, rfl, ⟨hsome, hd⟩, hb, hbreak⟩ := h
      refine ⟨a, m, d, b, ⟨rfl, ha, hm, hsome, hd, hb⟩, iff_of_true hlen fun hblanks => ?_⟩
      exact (blanks_or_broken hb).1 hblanks.2 hbreak
    · obtain ⟨a, _, rfl, ha, m, _, rfl, ⟨hm, hlen⟩, d, b, rfl, ⟨hsome, hd⟩, hb⟩ := h
      exact ⟨a, m, d, b, Reading.of_blanks ha hm hsome hd hb,
        iff_of_false (by omega) fun hno => hno ⟨ha, hb⟩⟩
  · rintro ⟨a, m, d, b, h, hiff⟩
    by_cases hlen : m.length ≤ 1
    · have hno := hiff.1 hlen
      by_cases ha : ∀ c ∈ a, c ∈ blanks
      · have hbreak : ∃ c ∈ b, c ∈ lineBreaks := by
          by_contra hb
          exact hno ⟨ha, (blanks_or_broken h.after).2 hb⟩
        exact Or.inl (Or.inr ⟨a, _, h.eq, h.before, m, _, rfl, ⟨h.signs, hlen⟩, d, b, rfl,
          ⟨h.nonempty, h.figures⟩, h.after, hbreak⟩)
      · have hbreak : ∃ c ∈ a, c ∈ lineBreaks := by
          by_contra hbreak
          exact ha ((blanks_or_broken h.before).2 hbreak)
        exact Or.inl (Or.inl ⟨a, _, h.eq, ⟨h.before, hbreak⟩, m, _, rfl, ⟨h.signs, hlen⟩, d, b, rfl,
          ⟨h.nonempty, h.figures⟩, h.after⟩)
    · obtain ⟨ha, hb⟩ := not_not.1 fun hno => hlen (hiff.2 hno)
      exact Or.inr ⟨a, _, h.eq, ha, m, _, rfl, ⟨h.signs, by omega⟩, d, b, rfl,
        ⟨h.nonempty, h.figures⟩, hb⟩

end StringUtils

open StringUtils

/-- **`IsNaturalNumber` and `IsInteger` follow their documentation outside the misjudged strings**:
those with a line break in the white space around a number, which the functions accept and the
documented languages do not have, and those with several minus signs, which the languages have and
`IsInteger` does not accept. -/
theorem documented_iff (str : List UInt8) :
    ((isNaturalNumber str = true ↔ str ∈ naturalNumbers.matches') ∧
      (isInteger str = true ↔ str ∈ integers.matches')) ↔ str ∉ misjudged.matches' := by
  rw [isNaturalNumber_iff, isInteger_iff, mem_naturalNumbers_iff, mem_integers_iff,
    mem_misjudged_iff]
  by_cases hread : ∃ a m d b, Reading str a m d b
  · -- all five statements are about the one reading
    obtain ⟨a, m, d, b, h⟩ := hread
    rw [h.exists_iff (P := fun _ m _ => m = []), h.exists_iff (P := fun _ m _ => m.length ≤ 1),
      h.exists_iff (P := fun a m b => m = [] ∧ (∀ c ∈ a, c ∈ blanks) ∧ ∀ c ∈ b, c ∈ blanks),
      h.exists_iff (P := fun a _ b => (∀ c ∈ a, c ∈ blanks) ∧ ∀ c ∈ b, c ∈ blanks),
      h.exists_iff (P := fun a m b =>
        m.length ≤ 1 ↔ ¬ ((∀ c ∈ a, c ∈ blanks) ∧ ∀ c ∈ b, c ∈ blanks))]
    constructor
    · rintro ⟨-, hinteger⟩ hiff
      exact iff_not_self (hinteger.symm.trans hiff)
    · intro hno
      have hinteger : m.length ≤ 1 ↔ (∀ c ∈ a, c ∈ blanks) ∧ ∀ c ∈ b, c ∈ blanks := by
        tauto
      refine ⟨⟨fun hm => ⟨hm, hinteger.1 ?_⟩, And.left⟩, hinteger⟩
      rw [hm]
      exact Nat.zero_le 1
  · have hnone : ∀ P : List UInt8 → List UInt8 → List UInt8 → List UInt8 → Prop,
        ¬ ∃ a m d b, Reading str a m d b ∧ P a m d b :=
      fun _ ⟨a, m, d, b, h, _⟩ => hread ⟨a, m, d, b, h⟩
    exact iff_of_true ⟨iff_of_false (hnone _) (hnone _), iff_of_false (hnone _) (hnone _)⟩
      (hnone _)

/-- The documented languages have no line break, and `IsNaturalNumber` accepts one at the start. -/
theorem lineBreak_accepted : ¬ ∀ str,
    (isNaturalNumber str = true ↔ str ∈ naturalNumbers.matches') ∧
      (isInteger str = true ↔ str ∈ integers.matches') := by
  intro h
  obtain ⟨a, _, d, b, hread, rfl, ha, hb⟩ := mem_naturalNumbers_iff.1 ((h [10, 49]).1.1 (by decide))
  have hmem : 10 ∈ a ++ ([] ++ (d ++ b)) := by
    rw [← hread.eq]
    exact List.mem_cons_self
  rw [List.nil_append, List.mem_append, List.mem_append] at hmem
  rcases hmem with hmem | hmem | hmem
  · exact absurd (ha 10 hmem) (by decide)
  · exact absurd (hread.figures 10 hmem) (by decide)
  · exact absurd (hb 10 hmem) (by decide)

end VModule

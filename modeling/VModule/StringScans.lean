/-
**The scans of `sutils/StringUtils.cpp`: `Trim`, `RemoveDuplicatedSpacesAndTabs`,
`IsNaturalNumber` and `IsInteger`.**

A `char` is a byte, and whether it is negative as an `int` when its high bit is set is the
platform's choice.  The functions `isspace` and `isdigit` of the C locale are defined on the values
of an `unsigned char` alone, so that a caller has to show that it gives them one.

Main definitions:

* `VModule.isspace`, `VModule.isdigit` — the C library, and `VModule.whiteSpace`, `VModule.digits`,
  the characters that they are true of;
* `VModule.StringUtils.trim`, `VModule.StringUtils.trimChars`, with the functions for either end;
* `VModule.StringUtils.removeDuplicatedSpacesAndTabs`;
* `VModule.StringUtils.isNaturalNumber`, `VModule.StringUtils.isInteger`.
-/

import VModule.StdString

set_option relaxedAutoImplicit false
set_option autoImplicit false

namespace VModule

/-- `isspace` in the C locale. -/
def isspace (c : Fin 256) : Bool := c.val = 32 ∨ 9 ≤ c.val ∧ c.val ≤ 13

/-- The white space of ASCII, in the order of `" \t\n\v\f\r"`. -/
def whiteSpace : List UInt8 := [32, 9, 10, 11, 12, 13]

/-- What is true of all characters of a class. -/
theorem forall_of_all {P : UInt8 → Prop} [DecidablePred P] {chars : List UInt8} {c : UInt8}
    (h : (chars.all fun c => decide (P c)) = true) (hc : c ∈ chars) : P c :=
  of_decide_eq_true (List.all_eq_true.1 h c hc)

theorem isspace_eq (c : UInt8) : isspace c.toFin = decide (c ∈ whiteSpace) := by
  obtain ⟨b⟩ := c
  revert b
  decide

/-- `isdigit`. -/
def isdigit (c : Fin 256) : Bool := 48 ≤ c.val ∧ c.val ≤ 57

def digits : List UInt8 := [48, 49, 50, 51, 52, 53, 54, 55, 56, 57]

theorem isdigit_eq (c : UInt8) : isdigit c.toFin = decide (c ∈ digits) := by
  obtain ⟨b⟩ := c
  revert b
  decide

/-- A `char` as an `int`. -/
def promote (charSigned : Bool) (c : UInt8) : BitVec 32 :=
  if charSigned then c.toBitVec.signExtend 32 else c.toBitVec.setWidth 32

/-- Where the high bit is not set, the `int` is the value of an `unsigned char`. -/
theorem toNat_promote (charSigned : Bool) (c : UInt8)
    (h : promote charSigned c &&& 0x80#32 = 0#32) : (promote charSigned c).toNat < 256 := by
  revert h
  unfold promote
  generalize c.toBitVec = b
  revert charSigned b
  decide

namespace StringUtils

/-! ### Trim -/

def isspaceC (charSigned : Bool) (c : UInt8) : Bool :=
  if h : promote charSigned c &&& 0x80#32 = 0#32 then
    isspace ⟨(promote charSigned c).toNat, toNat_promote charSigned c h⟩
  else false

/-- `TrimLeft`, with `find_if` from the left. -/
def trimLeft (charSigned : Bool) (str : List UInt8) : List UInt8 :=
  StdString.eraseRange str 0 (str.findIdx fun c => !isspaceC charSigned c)

/-- `TrimRight`, with `find_if` from the right; `base` counts from the left again. -/
def trimRight (charSigned : Bool) (str : List UInt8) : List UInt8 :=
  StdString.eraseRange str (str.length - str.reverse.findIdx fun c => !isspaceC charSigned c)
    str.length

def trim (charSigned : Bool) (str : List UInt8) : List UInt8 :=
  trimRight charSigned (trimLeft charSigned str)

/-- `TrimLeft` with a set of characters. -/
def trimLeftChars (chars str : List UInt8) : List UInt8 :=
  StdString.erase str 0 (StdString.findFirstNotOf str chars)

/-- `TrimRight` with a set of characters. -/
def trimRightChars (chars str : List UInt8) : List UInt8 :=
  match StdString.findLastNotOf str chars with
  | none => StdString.erase str 0 none
  | some nidx => StdString.erase str (nidx + 1) none

/-- `Trim` with a set of characters. -/
def trimChars (chars str : List UInt8) : List UInt8 :=
  trimRightChars chars (trimLeftChars chars str)

/-! ### RemoveDuplicatedSpacesAndTabs -/

/-- The loop, which erases from the string that it goes through. -/
def removeDuplicatedLoop : ℕ → List UInt8 → ℕ → Bool → Option (List UInt8)
  | 0, _, _, _ => none
  | fuel + 1, str, it, onSpace =>
      if it < str.length then
        let str := if str[it]? = some 9 then str.set it 32 else str
        if str[it]? = some 32 then
          if onSpace then removeDuplicatedLoop fuel (str.eraseIdx it) it onSpace
          else removeDuplicatedLoop fuel str (it + 1) true
        else removeDuplicatedLoop fuel str (it + 1) false
      else some str

def removeDuplicatedSpacesAndTabs (fuel : ℕ) (str : List UInt8) : Option (List UInt8) :=
  removeDuplicatedLoop fuel str 0 false

/-! ### IsNaturalNumber and IsInteger -/

/-- The loop that skips white space in what is left of the string. -/
def skipSpaces : List UInt8 → ℕ → ℕ
  | [], i => i
  | c :: rest, i => if isspace c.toFin then skipSpaces rest (i + 1) else i

/-- The loop that skips digits and counts them. -/
def skipDigits : List UInt8 → ℕ → ℕ → ℕ × ℕ
  | [], i, n => (i, n)
  | c :: rest, i, n => if isdigit c.toFin then skipDigits rest (i + 1) (n + 1) else (i, n)

/-- The digits and the white space behind them, which both functions end with. -/
def digitsFrom (str : List UInt8) (i : ℕ) : Bool :=
  match skipDigits (str.drop i) i 0 with
  | (i, n) => skipSpaces (str.drop i) i = str.length ∧ n > 0

def isNaturalNumber (str : List UInt8) : Bool :=
  digitsFrom str (skipSpaces str 0)

def isInteger (str : List UInt8) : Bool :=
  let i := skipSpaces str 0
  let i := if str[i]? = some 45 then i + 1 else i
  digitsFrom str i

end StringUtils

end VModule

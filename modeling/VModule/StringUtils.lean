/-
**`Split`, `Replace` and `FindNumber` of `sutils/StringUtils.cpp`.**

The two overloads of `Split` are one loop with two ways to search, two steps and counters of 32 and
of 64 bits.  The two overloads of `Replace` are one loop over narrow and over wide characters.  A
loop without an end is one that runs out of fuel, whatever the fuel, and an `int` that is counted
beyond its largest value has no defined result.

Main definitions:

* `VModule.increment` — `++` on an `int`;
* `VModule.StringUtils.splitLoop`, `VModule.StringUtils.split`, `VModule.StringUtils.splitChar`;
* `VModule.StringUtils.replaceIn`, `VModule.StringUtils.replaceString`,
  `VModule.StringUtils.replaceWString`;
* `VModule.StringUtils.findNumber`.
-/

import Mathlib.Algebra.Group.Nat.Defs
import VModule.StdString

set_option relaxedAutoImplicit false
set_option autoImplicit false

namespace VModule

/-- `++` on an `int`. -/
def increment (i : ℤ) : Option ℤ := if i < 2147483647 then some (i + 1) else none

theorem increment_eq {i : ℤ} (h : i < 2147483647) : increment i = some (i + 1) := if_pos h

theorem eq_of_increment {i j : ℤ} (h : increment i = some j) : j = i + 1 := by
  unfold increment at h
  split at h
  · exact (Option.some_inj.1 h).symm
  · cases h

namespace StringUtils

variable {α : Type} [DecidableEq α]

/-! ### Split -/

/-- The loop of both overloads of `Split`, with the search, the length of what it searches and the
counter `iMaxStrings` of `w` bits. -/
def splitLoop {w : ℕ} (find : ℕ → Option ℕ) (delimLen : ℕ) (input : List α) :
    ℕ → BitVec w → ℕ → List (List α) → Option (List (List α))
  | 0, _, _, _ => none
  | fuel + 1, iMaxStrings, textPos, results =>
      if iMaxStrings - 1#w = 0#w then
        match StdString.substr input textPos none with
        | none => none
        | some text => some (results ++ [text])
      else
        match find textPos with
        | none =>
            -- the count `npos - textPos` is more than what is left
            match StdString.substr input textPos none with
            | none => none
            | some text => some (results ++ [text])
        | some nextDelim =>
            match StdString.substr input textPos (some (nextDelim - textPos)) with
            | none => none
            | some text =>
                splitLoop find delimLen input fuel (iMaxStrings - 1#w) (nextDelim + delimLen)
                  (results ++ [text])

/-- `Split` at a string. -/
def split (fuel : ℕ) (input delimiter : List α) (iMaxStrings : BitVec 32) :
    Option (List (List α)) :=
  if input = [] then some []
  else if delimiter = [] then some [input]
  else
    splitLoop (StdString.find input delimiter) delimiter.length input fuel iMaxStrings 0 []

/-- `Split` at a character. -/
def splitChar (fuel : ℕ) (input : List α) (delimiter : α) (iMaxStrings : BitVec 64) :
    Option (List (List α)) :=
  if input = [] then some []
  else splitLoop (StdString.findChar input delimiter) 1 input fuel iMaxStrings 0 []

/-! ### Replace -/

/-- The loop of both overloads of `Replace`. -/
def replaceLoop (oldStr newStr : List α) : ℕ → List α → ℕ → ℤ → Option (List α × ℤ)
  | 0, _, _, _ => none
  | fuel + 1, str, index, replacedChars =>
      if index < str.length then
        match StdString.find str oldStr index with
        | none => some (str, replacedChars)
        | some index =>
            match increment replacedChars with
            | none => none
            | some replacedChars =>
                replaceLoop oldStr newStr fuel (StdString.replace str index oldStr.length newStr)
                  (index + newStr.length) replacedChars
      else some (str, replacedChars)

/-- `Replace`, with what becomes of `str` and what is returned. -/
def replaceIn (fuel : ℕ) (str oldStr newStr : List α) : Option (List α × ℤ) :=
  if oldStr = [] then some (str, 0) else replaceLoop oldStr newStr fuel str 0 0

/-- `Replace` on a `std::string`. -/
def replaceString (fuel : ℕ) (str oldStr newStr : List UInt8) : Option (List UInt8 × ℤ) :=
  replaceIn fuel str oldStr newStr

/-- `Replace` on a `std::wstring`. -/
def replaceWString (fuel : ℕ) (str oldStr newStr : List UInt32) : Option (List UInt32 × ℤ) :=
  replaceIn fuel str oldStr newStr

/-! ### FindNumber -/

def findNumberLoop (strInput strFind : List α) : ℕ → Option ℕ → ℤ → Option ℤ
  | _, none, numfound => some numfound
  | 0, some _, _ => none
  | fuel + 1, some pos, numfound =>
      match increment numfound with
      | none => none
      | some numfound =>
          findNumberLoop strInput strFind fuel (StdString.find strInput strFind (pos + 1)) numfound

def findNumber (fuel : ℕ) (strInput strFind : List α) : Option ℤ :=
  findNumberLoop strInput strFind fuel (StdString.find strInput strFind 0) 0

end StringUtils

end VModule

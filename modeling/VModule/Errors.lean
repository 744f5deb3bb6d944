/-
**The error codes of `include/sutils/Errors.h`.**

Only the codes that the modelled functions return, with the values they have on Linux.

Main definitions:

* `VModule.Status` — a `status_t` that some modelled function returns;
* `VModule.Status.code`, `VModule.Status.toBool` — its value, and what is left of it in a `bool`.

Main results:

* `VModule.Status.toBool_eq_false_iff` — a `bool` only tells success from failure, and success is
  the `false` one.
-/

set_option relaxedAutoImplicit false
set_option autoImplicit false

namespace VModule

inductive Status where
  | noError
  | unknownError
  | invalidOperation
  | badValue
  | wouldBlock
  deriving DecidableEq

namespace Status

/-- The value: `ENOSYS` is 38, `EINVAL` is 22 and `EWOULDBLOCK` is 11. -/
def code : Status → Int
  | .noError => 0
  | .unknownError => -2147483647 - 1
  | .invalidOperation => -38
  | .badValue => -22
  | .wouldBlock => -11

/-- The conversion to `bool` in a function that is declared to return one. -/
def toBool (st : Status) : Bool := st.code != 0

theorem toBool_eq_false_iff (st : Status) : st.toBool = false ↔ st = .noError := by
  cases st <;> simp [toBool, code]

end Status

end VModule

/-
  What rules say of a path, and the numbers that stand for it between host and guest.
-/

namespace PathSieve

/-- What rules say of a path. -/
inductive Verdict where
  | unmatched
  | ignored
  | whitelisted
  deriving DecidableEq, Repr

namespace Verdict

/-- The number that stands for a verdict. -/
def code : Verdict → Int32
  | .unmatched => 0
  | .ignored => 1
  | .whitelisted => 2

/-- The verdict that a number stands for. -/
def ofCode? (n : Int32) : Option Verdict :=
  if n = 0 then some .unmatched
  else if n = 1 then some .ignored
  else if n = 2 then some .whitelisted
  else none

theorem ofCode?_code (v : Verdict) : ofCode? v.code = some v := by
  cases v <;> decide

end Verdict

end PathSieve

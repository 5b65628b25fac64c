/-
  Errors without the names of instances.

  An instance gets its name from a counter that all pools share, and the only error that
  tells it is the refusal to enter a tainted instance. Without that name an error says
  nothing about which instance it came from.
-/
import PathSieve.Host.Instance
import PathSieve.Proofs.Matcher.Cutting

namespace PathSieve

namespace CallFault

/-- The fault without the name of the instance. -/
def anonymous : CallFault → CallFault
  | .tainted _ => .tainted ""
  | fault => fault

end CallFault

namespace Error

mutual

/-- The error without the names of instances. -/
def anonymous : Error → Error
  | .transport call fault => .transport call fault.anonymous
  | .parallel failures => .parallel (anonymousAll failures)
  | e => e

/-- The errors of failed workers without the names of instances. -/
def anonymousAll : List (Nat × Error) → List (Nat × Error)
  | [] => []
  | (worker, e) :: rest => (worker, anonymous e) :: anonymousAll rest

end

theorem anonymousAll_eq_map (failures : List (Nat × Error)) :
    anonymousAll failures = failures.map fun f => (f.1, f.2.anonymous) := by
  induction failures with
  | nil => rfl
  | cons f failures ih => rw [anonymousAll, ih, List.map_cons]

end Error

/-- The failure without the names of instances. -/
def Failure.anonymous : Failure → Failure
  | .error e => .error e.anonymous
  | .panic text => .panic text

namespace Chunks

variable {α : Type}

theorem failures_anonymous (results : List (Except Error (List α))) :
    failures (results.map (·.mapError Error.anonymous)) =
      (failures results).map fun f => (f.1, f.2.anonymous) := by
  rw [failures_eq_failuresFrom, failures_eq_failuresFrom]
  generalize 0 = n
  induction results generalizing n with
  | nil => rfl
  | cons r results ih =>
    cases r with
    | error e => exact congrArg ((n, e.anonymous) :: ·) (ih (n + 1))
    | ok k => exact ih (n + 1)

theorem elements_anonymous (results : List (Except Error (List α))) :
    elements (results.map (·.mapError Error.anonymous)) = elements results := by
  induction results with
  | nil => rfl
  | cons r results ih =>
    cases r with
    | error e => exact ih
    | ok k => exact congrArg (k ++ ·) ih

/-- Names can be taken off before results are put together as well as after it. -/
theorem merge_anonymous (results : List (Except Error (List α))) :
    (merge results).mapError Error.anonymous =
      merge (results.map (·.mapError Error.anonymous)) := by
  unfold merge
  rw [failures_anonymous, elements_anonymous]
  cases failures results with
  | nil => rfl
  | cons f fs =>
    show Except.error (Error.anonymous (.parallel (f :: fs))) = _
    rw [Error.anonymous, Error.anonymousAll_eq_map]
    rfl

end Chunks

end PathSieve

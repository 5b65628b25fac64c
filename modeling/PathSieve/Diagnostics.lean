/-
  Diagnostic output: it is on when a caller insists or the environment asks for it.
-/

namespace PathSieve

/-- Is diagnostic output on? -/
def debugRequested (force inEnvironment : Bool) : Bool :=
  force || inEnvironment

end PathSieve

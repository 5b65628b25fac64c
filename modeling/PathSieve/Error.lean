/-
  Errors of the host side.

  An error names its cause; its wording is a function of the cause
  (`Error.message`). Only `transport` says that an instance can no longer be
  trusted: a call into it was cut short by a trap, or was refused because an
  earlier one had been.
-/
import PathSieve.Sandbox.Trap

namespace PathSieve

/-- Why a configuration could not be had. -/
inductive ConfigError where
  | fileNotFound (path : String)
  | parse (reason : String)
  | validation (reason : String)
  deriving DecidableEq, Repr

namespace ConfigError

/-- The wording of a configuration error. -/
def message : ConfigError → String
  | .fileNotFound path => "File not found: " ++ path
  | .parse reason => "Parse error: " ++ reason
  | .validation reason => "Validation error: " ++ reason

end ConfigError

/-- Why a call did not reach the guest, or did not come back from it. -/
inductive CallFault where
  /-- The guest trapped. -/
  | trapped (trap : Trap)
  /-- The named instance was tainted before, so the guest was not entered. -/
  | tainted (instanceName : String)
  /-- A fault that something else reports. -/
  | reported (text : String)
  deriving DecidableEq, Repr

namespace CallFault

/-- The wording of a failed call. -/
def message : CallFault → String
  | .trapped trap => trap.report
  | .tainted instanceName => instanceName ++ " was tainted by an earlier fault"
  | .reported text => text

end CallFault

/-- Why an operation of the host failed. -/
inductive Error where
  | config (cause : ConfigError)
  | moduleCompile (reason : String)
  | instantiate (reason : String)
  | transport (call : EntryPoint) (fault : CallFault)
  | invalidHandle
  | invalidArgument
  | pathEncoding
  | handleNotFound
  | compileFailed
  | allocationFailed (size : Nat)
  | outOfRange (ptr len memory : Nat)
  | nullResultDescriptor
  | emptyResult (count : Int)
  | unexpectedCode (call : EntryPoint) (code : Int)
  | workerPanicked
  /-- The workers of a parallel filter that failed, each with its own error. -/
  | parallel (failures : List (Nat × Error))
  deriving Repr

namespace Error

/-- Does the error stand for a broken call into a guest? -/
def isTransport : Error → Bool
  | .transport .. => true
  | _ => false

mutual

/-- The wording of an error. -/
def message : Error → String
  | .config cause => "Configuration error: " ++ cause.message
  | .moduleCompile reason => "Failed to compile sandbox module: " ++ reason
  | .instantiate reason => "Failed to instantiate sandbox module: " ++ reason
  | .transport call fault => call.label ++ " call failed: " ++ fault.message
  | .invalidHandle => "matcher handle is not valid on this instance"
  | .invalidArgument => "argument has a null pointer or negative length"
  | .pathEncoding => "text is not valid UTF-8"
  | .handleNotFound => "matcher handle not found (may have been destroyed)"
  | .compileFailed => "failed to compile patterns"
  | .allocationFailed size => s!"sandbox allocation of {size} bytes failed"
  | .outOfRange ptr len memory =>
    s!"memory access out of range (ptr={ptr}, len={len}, mem={memory})"
  | .nullResultDescriptor => "batch_filter: null result descriptor pointer (internal error)"
  | .emptyResult count =>
    s!"batch_filter reported {count} kept paths but result buffer is empty"
  | .unexpectedCode call code => call.label ++ s!" returned unexpected code: {code}"
  | .workerPanicked => "parallel filter worker panicked"
  | .parallel failures =>
    s!"parallel filter failed in {failures.length} worker(s): "
      ++ String.intercalate "; " (messages failures)

/-- The wordings of the failed workers, in order. -/
def messages : List (Nat × Error) → List String
  | [] => []
  | (worker, error) :: rest => (s!"worker {worker}: " ++ message error) :: messages rest

end

end Error

end PathSieve

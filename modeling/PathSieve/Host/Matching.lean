/-
  Compiling, asking and filtering on one instance.

  These actions carry their arguments into the guest, make one call, give the memory
  back and put what the guest answered into the words of the host. A guest may answer
  with any number at all; numbers without a meaning become errors.
-/
import PathSieve.Host.Buffer
import PathSieve.Rule.Verdict
import PathSieve.Text.Lines
import PathSieve.Text.Utf8

namespace PathSieve.Instance

variable {σ α : Type} [Backend σ]

/-- The handle that the guest's answer to a rule text means. -/
def handleOfCode (instanceId : Nat) (code : Int32) : Except Error Handle :=
  if code = -1 || code = -2 then .error .invalidArgument
  else if code = -3 then .error .compileFailed
  else
    match Handle.ofCode? instanceId code with
    | some h => .ok h
    | none => .error (.unexpectedCode .createMatcher code.toInt)

/-- The verdict that the guest's answer about a path means. -/
def verdictOfCode (code : Int32) : Except Error Verdict :=
  match Verdict.ofCode? code with
  | some v => .ok v
  | none =>
    if code = -1 then .error .invalidHandle
    else if code = -2 then .error .invalidArgument
    else if code = -3 then .error .pathEncoding
    else if code = -4 then .error .handleNotFound
    else .error (.unexpectedCode .isMatch code.toInt)

/-- The count that the guest's answer to a path list means. -/
def countOfCode (code : Int32) : Except Error Nat :=
  if code = -1 then .error .invalidHandle
  else if code = -2 then .error .nullResultDescriptor
  else if code = -3 then .error .invalidArgument
  else if code = -4 then .error .pathEncoding
  else if code = -5 then .error .handleNotFound
  else if code < 0 then .error (.unexpectedCode .batchFilter code.toInt)
  else .ok code.toInt.toNat

/-- Pass a result or an error of the host on. -/
def give (result : Except Error α) : Action σ α :=
  match result with
  | .ok a => pure a
  | .error e => Action.fail e

/-- Compile a rule text. -/
def compile (rules : String) : Action σ Handle := do
  let code ← withBuffer (Text.Utf8.encode rules) fun text =>
    createMatcher text.ptr text.len
  let inst ← get
  give (handleOfCode inst.id code)

/-- Forget a compiled rule set. -/
def destroy (h : Handle) : Action σ Unit :=
  destroyMatcher h

/-- Ask about a path. -/
def ask (h : Handle) (path : List UInt8) (isDir : Bool) : Action σ Verdict := do
  let code ← withBuffer path fun text => isMatch h text.ptr text.len isDir
  give (verdictOfCode code)

/-- The size in bytes of the place where a guest describes the kept paths. -/
def descriptorSize : Nat := 8

/-- The number that four bytes stand for, the lowest first. -/
def wordOf (a b c d : UInt8) : UInt32 :=
  UInt32.ofNat (a.toNat + 0x100 * b.toNat + 0x10000 * c.toNat + 0x1000000 * d.toNat)

/-- The range that a descriptor tells of. -/
def spanOf (descriptor : List UInt8) : Action σ Span :=
  match descriptor with
  | [a, b, c, d, e, f, g, h] => pure ⟨wordOf a b c d, wordOf e f g h⟩
  | bytes => Action.unwind s!"a descriptor of {bytes.length} bytes"

/-- Fetch the result that a guest has described: it is read and given back, and only then
    looked at. -/
def fetchResult (count : Nat) (descriptor : Span) : Action σ (List String) := do
  let span ← spanOf (← readBytes descriptor)
  if span.isNull then Action.fail (.emptyResult count)
  else
    let bytes ← (readBytes span).ensuring (freeBytes span)
    match Text.Utf8.decode? bytes with
    | some text => pure (Text.lines text)
    | none => Action.fail .pathEncoding

/-- Filter a path list: the lines of the paths that are kept, in order. -/
def filter (h : Handle) (paths : List String) : Action σ (List String) := do
  if paths.isEmpty then pure []
  else
    withBuffer (Text.Utf8.encode (Text.unlines paths)) fun text =>
      withBuffer (List.replicate descriptorSize 0) fun descriptor => do
        let code ← batchFilter h text.ptr text.len descriptor.ptr
        let count ← give (countOfCode code)
        if count = 0 then pure [] else fetchResult count descriptor

/-- Do something with a compiled rule set, which is forgotten after it. -/
def withCompiled (rules : String) (body : Handle → Action σ α) : Action σ α := do
  let h ← compile rules
  (body h).ensuring (destroy h).quietly

end PathSieve.Instance

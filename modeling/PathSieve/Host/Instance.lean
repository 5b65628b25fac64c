/-
  One guest as the host holds it.

  An instance is a guest with an identity and a mark, the taint. A call into a guest
  that ends in a trap taints the instance, and a tainted instance is not entered again:
  every call on it fails before it reaches the guest. Nothing takes the mark away.

  What the host does with an instance is an action: it ends in a value, in an error or
  in a panic that unwinds, and leaves the instance in a new state in all three cases.
  `ensuring` runs a clean-up after an action however that ends.
-/
import PathSieve.Sandbox.Backend
import PathSieve.Text.Quoted

namespace PathSieve

/-- How an action of the host fails. -/
inductive Failure where
  /-- It gives an error to its caller. -/
  | error (e : Error)
  /-- It unwinds through its caller. -/
  | panic (text : String)
  deriving Repr

/-- A guest with its identity and its taint. -/
structure Instance (σ : Type) where
  id : Nat
  /-- The pool that the instance belongs to. -/
  poolId : Nat
  name : String
  guest : σ
  tainted : Bool := false

/-- What the host does with an instance. -/
abbrev Action (σ α : Type) := ExceptT Failure (StateM (Instance σ)) α

namespace Action

variable {σ α : Type}

/-- Perform an action on an instance: how it ends, and the instance after it. -/
def perform (a : Action σ α) (inst : Instance σ) : Except Failure α × Instance σ :=
  Id.run (StateT.run (ExceptT.run a) inst)

/-- The action with a given way to perform it. -/
def ofPerform (f : Instance σ → Except Failure α × Instance σ) : Action σ α :=
  ExceptT.mk (StateT.mk f)

@[simp] theorem perform_ofPerform (f : Instance σ → Except Failure α × Instance σ)
    (inst : Instance σ) : (ofPerform f).perform inst = f inst := rfl

/-- Fail with an error. -/
def fail (e : Error) : Action σ α :=
  throw (.error e)

/-- Unwind. -/
def unwind (text : String) : Action σ α :=
  throw (.panic text)

/-- How an action ends that is followed by a clean-up: a panic of the clean-up takes the
    place of any end but a panic. -/
def endWith (result : Except Failure α) (cleanup : Except Failure Unit) : Except Failure α :=
  match result, cleanup with
  | .error (.panic text), _ => .error (.panic text)
  | _, .error failure => .error failure
  | result, .ok () => result

/-- Run a clean-up after an action, however the action ends. -/
def ensuring (a : Action σ α) (cleanup : Action σ Unit) : Action σ α :=
  ofPerform fun inst =>
    let (result, inst) := a.perform inst
    let (cleaned, inst) := cleanup.perform inst
    (endWith result cleaned, inst)

/-- Do an action for its effect only; an error of it is dropped, a panic is not. -/
def quietly (a : Action σ Unit) : Action σ Unit :=
  ofPerform fun inst =>
    match a.perform inst with
    | (.error (.error _), inst) => (.ok (), inst)
    | done => done

end Action

namespace Instance

variable {σ : Type} [Backend σ]

/-- The instance marked as not to be entered again. -/
def taint (inst : Instance σ) : Instance σ :=
  { inst with tainted := true }

/-- The size of the instance's memory in bytes. -/
def memorySize (inst : Instance σ) : Nat :=
  Backend.memorySize inst.guest

/-- The description of an instance. -/
def describe (inst : Instance σ) : String :=
  s!"Instance \x7b id: {inst.id}, pool_id: {inst.poolId}, name: "
    ++ Text.quoted inst.name
    ++ s!", tainted: {inst.tainted}, memory: {inst.memorySize} \x7d"

/-- Enter the guest. A trap taints the instance; a tainted instance is not entered. -/
def call {α : Type} (entry : EntryPoint) (f : σ → Reply α × σ) : Action σ α := do
  let inst ← get
  if inst.tainted then Action.fail (.transport entry (.tainted inst.name))
  else
    let (reply, guest) := f inst.guest
    let inst := { inst with guest := guest }
    match reply with
    | .returned a => set inst; pure a
    | .trapped trap => set inst.taint; Action.fail (.transport entry (.trapped trap))
    | .panicked text => set inst; Action.unwind text

/-- The largest size that a guest can be asked for. -/
def maxAllocation : Nat := 0x7fffffff

/-- Ask the guest for memory. -/
def alloc (size : Nat) : Action σ UInt32 := do
  if maxAllocation < size then Action.fail (.allocationFailed size)
  else
    let ptr ← call .alloc fun g : σ => Backend.alloc g (Int32.ofNat size)
    pure ptr.toUInt32

/-- Give memory back to the guest. -/
def dealloc (ptr len : UInt32) : Action σ Unit :=
  call .dealloc fun g => Backend.dealloc g ptr.toInt32 len.toInt32

/-- Have the guest compile the rule text in a range. -/
def createMatcher (ptr len : UInt32) : Action σ Int32 :=
  call .createMatcher fun g => Backend.createMatcher g ptr.toInt32 len.toInt32

/-- The `len` bytes of the memory from `start` on, which have to be inside. -/
def load (start len : Nat) : Action σ (List UInt8) := do
  let inst ← get
  if inst.memorySize < start + len then
    Action.unwind
      s!"range end index {start + len} out of range for slice of length {inst.memorySize}"
  else pure ((List.range' start len).map (Backend.byteAt inst.guest))

/-- Write bytes into the memory from `start` on, which have to be inside. -/
def store (start : Nat) (bytes : List UInt8) : Action σ Unit := do
  let inst ← get
  if inst.memorySize < start + bytes.length then
    let stop := start + bytes.length
    Action.unwind s!"range end index {stop} out of range for slice of length {inst.memorySize}"
  else set { inst with guest := Backend.store inst.guest start bytes }

end Instance

/-- The handle of a compiled rule set: a positive number that means something on one
    instance only. -/
structure Handle where
  instanceId : Nat
  raw : Int32
  deriving DecidableEq, Repr

namespace Handle

/-- The handle that a number from an instance is, if it is one. -/
def ofCode? (instanceId : Nat) (code : Int32) : Option Handle :=
  if code > 0 then some ⟨instanceId, code⟩ else none

/-- The description of a handle. -/
def describe (h : Handle) : String :=
  s!"MatcherHandle \x7b instance: {h.instanceId}, raw: {h.raw.toInt} \x7d"

end Handle

namespace Instance

variable {σ : Type} [Backend σ]

/-- The number of a handle, which has to be one of this instance. -/
def rawOf (h : Handle) : Action σ Int32 := do
  let inst ← get
  if h.instanceId = inst.id then pure h.raw else Action.fail .invalidHandle

/-- Have the guest forget a rule set. -/
def destroyMatcher (h : Handle) : Action σ Unit := do
  let raw ← rawOf h
  call .destroyMatcher fun g => Backend.destroyMatcher g raw

/-- Have the guest decide the path in a range. -/
def isMatch (h : Handle) (ptr len : UInt32) (isDir : Bool) : Action σ Int32 := do
  let raw ← rawOf h
  call .isMatch fun g =>
    Backend.isMatch g raw ptr.toInt32 len.toInt32 (if isDir then 1 else 0)

/-- Have the guest filter the path list in a range. -/
def batchFilter (h : Handle) (ptr len info : UInt32) : Action σ Int32 := do
  let raw ← rawOf h
  call .batchFilter fun g =>
    Backend.batchFilter g raw ptr.toInt32 len.toInt32 info.toInt32

end Instance

end PathSieve

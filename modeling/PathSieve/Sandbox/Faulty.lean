/-
  Guests that misbehave on schedule, for trying out hosts.

  A faulty guest wraps an ordinary one. A list of faults says which entry point goes
  wrong, from which guest of the module on, after how many good calls and in what way:
  with a trap, with a panic, with a code of its own, or with a result that need not be
  what it claims. The first fault in the list that speaks of an entry point counts.
-/
import PathSieve.Sandbox.Guest

namespace PathSieve

/-- What a faulty call does instead of what it should. -/
inductive Misdeed where
  | trap
  | panic
  /-- Return a number and do nothing. -/
  | code (n : Int32)
  /-- Return a count and describe a result that was never written. -/
  | descriptor (count ptr len : Int32)
  /-- Return a count and describe a result of given bytes. -/
  | result (bytes : List UInt8) (count : Int32)
  deriving Repr

/-- A call that goes wrong. -/
structure Fault where
  entry : EntryPoint
  /-- The first guest of the module that is affected. -/
  start : Nat
  /-- The number of calls that go well before. -/
  skip : Nat
  misdeed : Misdeed
  deriving Repr

/-- What a module of faulty guests is told to do. -/
structure FaultPlan where
  /-- The first guest that is refused, if any is. -/
  refuseFrom : Option Nat
  faults : List Fault

/-- A guest that misbehaves on schedule. -/
structure FaultyGuest where
  inner : Guest
  /-- The faults of this guest. -/
  faults : List Fault
  /-- The entry points called so far. -/
  calls : List EntryPoint

/-- A module whose guests misbehave on schedule. -/
structure FaultyModule where
  inner : GuestModule
  plan : FaultPlan
  /-- The number of guests asked for so far. -/
  made : Nat

namespace FaultyGuest

/-- Count a call, and say what it does instead of what it should. -/
def misdeed? (g : FaultyGuest) (entry : EntryPoint) : Option Misdeed × FaultyGuest :=
  let misdeed := (g.faults.find? fun f => f.entry = entry).bind fun f =>
    if f.skip ≤ g.calls.count entry then some f.misdeed else none
  (misdeed, { g with calls := entry :: g.calls })

/-- Describe a result at a pointer. -/
def describe (g : Guest) (info ptr len : Int32) : Guest :=
  let words := Guest.wordBytes (Guest.word ptr) ++ Guest.wordBytes (Guest.word len)
  { g with memory := g.memory.store (Guest.word info) words }

/-- Place bytes in fresh memory; without room for them they land at the null pointer. -/
def place (g : Guest) (bytes : List UInt8) : Int32 × Guest :=
  let (ptr, g) := g.alloc (Guest.ofWord bytes.length)
  (ptr, { g with memory := g.memory.store (Guest.word ptr) bytes })

/-- A call that goes wrong: `info` is where it may describe a result, and `plain` makes
    its reply out of a number. -/
def misbehave {α : Type} (g : Guest) (entry : EntryPoint) (info : Int32) (plain : Int32 → α) :
    Misdeed → Reply α × Guest
  | .trap => (.trapped (.custom ("injected fault in " ++ entry.label)), g)
  | .panic => (.panicked ("injected panic in " ++ entry.label), g)
  | .code n => (.returned (plain n), g)
  | .descriptor count ptr len => (.returned (plain count), describe g info ptr len)
  | .result bytes count =>
    let (ptr, g) := place g bytes
    (.returned (plain count), describe g info ptr (Guest.ofWord bytes.length))

/-- Make a call that may go wrong. -/
def enter {α : Type} (g : FaultyGuest) (entry : EntryPoint) (info : Int32) (plain : Int32 → α)
    (call : Guest → Reply α × Guest) : Reply α × FaultyGuest :=
  let (misdeed, g) := g.misdeed? entry
  let (reply, inner) := match misdeed with
    | some m => misbehave g.inner entry info plain m
    | none => call g.inner
  (reply, { g with inner := inner })

instance : Backend FaultyGuest where
  alloc g size := g.enter .alloc 0 id (Backend.alloc · size)
  dealloc g ptr size := g.enter .dealloc 0 (fun _ => ()) (Backend.dealloc · ptr size)
  createMatcher g ptr len := g.enter .createMatcher 0 id (Backend.createMatcher · ptr len)
  destroyMatcher g handle :=
    g.enter .destroyMatcher 0 (fun _ => ()) (Backend.destroyMatcher · handle)
  isMatch g handle ptr len isDir :=
    g.enter .isMatch 0 id (Backend.isMatch · handle ptr len isDir)
  batchFilter g handle ptr len info :=
    g.enter .batchFilter info id (Backend.batchFilter · handle ptr len info)
  memorySize g := Backend.memorySize g.inner
  byteAt g i := Backend.byteAt g.inner i
  store g i bytes := { g with inner := Backend.store g.inner i bytes }

end FaultyGuest

namespace FaultyModule

/-- Is the guest of a given number refused? -/
def refuses (m : FaultyModule) (number : Nat) : Bool :=
  match m.plan.refuseFrom with
  | some start => start ≤ number
  | none => false

/-- Make the next guest, which has all faults that begin at its number or before. -/
def instantiate (m : FaultyModule) (name : String) : Except Error FaultyGuest × FaultyModule :=
  let number := m.made + 1
  let guest : Except Error FaultyGuest :=
    if m.refuses number then .error (.instantiate (name ++ " refused"))
    else
      .ok ⟨Guest.fresh name m.inner.initialPages m.inner.maxPages,
        m.plan.faults.filter fun f => f.start ≤ number, []⟩
  (guest, { m with made := number })

instance : Module FaultyModule FaultyGuest where
  name _ := "faulty"
  instantiate := instantiate

end FaultyModule

end PathSieve

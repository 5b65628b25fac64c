/-
  The guest that evaluates rule sets.

  A guest keeps all it knows in three places: its memory, the heap over it and the table
  of compiled rule sets. Its entry points take and give 32-bit integers; pointers and
  lengths are their unsigned values. What a caller gets wrong is a negative code, in a
  fixed order of checks; a fault of the guest itself is a trap.

  A path that is not below the root cannot be decided; that too is a trap.
-/
import PathSieve.Sandbox.Backend
import PathSieve.Sandbox.Heap
import PathSieve.Sandbox.RuleTable

namespace PathSieve

/-- The state of a guest. -/
structure Guest where
  name : String
  memory : Memory
  heap : Heap
  rules : RuleTable

/-- The pages that the guests of a module begin with and may grow to. -/
structure GuestModule where
  initialPages : Nat
  maxPages : Nat
  deriving DecidableEq, Repr

namespace Guest

/-- A fresh guest. -/
def fresh (name : String) (initialPages maxPages : Nat) : Guest :=
  ⟨name, Memory.fresh initialPages maxPages, Heap.empty, RuleTable.empty⟩

/-- The unsigned value of a pointer, length or handle. -/
def word (n : Int32) : Nat :=
  n.toUInt32.toNat

/-- The pointer or length whose unsigned value is `n`. -/
def ofWord (n : Nat) : Int32 :=
  (UInt32.ofNat n).toInt32

/-- A number as four bytes, the lowest first. -/
def wordBytes (n : Nat) : List UInt8 :=
  [UInt8.ofNat n, UInt8.ofNat (n / 0x100), UInt8.ofNat (n / 0x10000), UInt8.ofNat (n / 0x1000000)]

/-- The bytes of an argument; an empty one may stand anywhere. -/
def input (g : Guest) (ptr len : Int32) : Except Trap (List UInt8) :=
  if len = 0 then .ok [] else g.memory.slice (word ptr) (word len)

/-- Hand out memory; zero says that there is none. -/
def alloc (g : Guest) (size : Int32) : Int32 × Guest :=
  if size ≤ 0 then (0, g)
  else
    match g.heap.alloc? g.memory (word size) with
    | some (ptr, heap, memory) => (ofWord ptr, { g with heap := heap, memory := memory })
    | none => (0, g)

/-- Take memory back. Nothing happens to the null pointer or without a size. -/
def dealloc (g : Guest) (ptr size : Int32) : Except Trap Guest :=
  if ptr = 0 || size ≤ 0 then .ok g
  else (g.heap.dealloc (word ptr) (word size)).map fun heap => { g with heap := heap }

/-- Compile a rule text. -/
def createMatcher (g : Guest) (ptr len : Int32) : Except Trap (Int32 × Guest) :=
  if len < 0 then .ok (-1, g)
  else if len > 0 && ptr = 0 then .ok (-2, g)
  else do
    let text ← g.input ptr len
    match RuleSet.ofText? text with
    | none => pure (-3, g)
    | some rs =>
      let (handle, rules) := g.rules.insert rs
      pure (ofWord handle, { g with rules := rules })

/-- Forget the rule set under a handle, if there is one. -/
def destroyMatcher (g : Guest) (handle : Int32) : Guest :=
  if handle > 0 then { g with rules := g.rules.erase (word handle) } else g

/-- Decide a path. -/
def isMatch (g : Guest) (handle ptr len isDir : Int32) : Except Trap Int32 :=
  if handle ≤ 0 then .ok (-1)
  else if len < 0 || (len > 0 && ptr = 0) then .ok (-2)
  else do
    let path ← g.input ptr len
    if (Text.Utf8.decode? path).isNone then return -3
    match g.rules.get? (word handle) with
    | none => return -4
    | some rs =>
      match rs.verdict? path (isDir != 0) with
      | some v => return v.code
      | none => throw (.unrooted .isMatch)

/-- Write the kept lines into fresh memory: where they are, how long they are, and the
    guest with them. No lines take no memory. -/
def writeResult (g : Guest) (kept : List String) : Except Trap (Nat × Nat × Guest) :=
  if kept.isEmpty then .ok (0, 0, g)
  else
    let bytes := Text.Utf8.encode (Text.unlines kept)
    match g.heap.alloc? g.memory bytes.length with
    | none => .error .resultExhausted
    | some (ptr, heap, memory) =>
      (memory.overwrite ptr bytes).map fun memory =>
        (ptr, bytes.length, { g with heap := heap, memory := memory })

/-- Filter a path list. The reply comes with the guest that goes on, also after a trap:
    when the descriptor does not lie inside the memory, the result stays allocated. -/
def batchFilter (g : Guest) (handle ptr len info : Int32) : Except Trap Int32 × Guest :=
  if handle ≤ 0 then (.ok (-1), g)
  else if info = 0 then (.ok (-2), g)
  else if len < 0 || (len > 0 && ptr = 0) then (.ok (-3), g)
  else
    match g.input ptr len with
    | .error trap => (.error trap, g)
    | .ok bytes =>
      match Text.Utf8.decode? bytes with
      | none => (.ok (-4), g)
      | some text =>
        match g.rules.get? (word handle) with
        | none => (.ok (-5), g)
        | some rs =>
          match rs.keptLines? text with
          | none => (.error (.unrooted .batchFilter), g)
          | some kept =>
            match g.writeResult kept with
            | .error trap => (.error trap, g)
            | .ok (resultPtr, resultLen, g) =>
              match g.memory.overwrite (word info) (wordBytes resultPtr ++ wordBytes resultLen) with
              | .error trap => (.error trap, g)
              | .ok memory => (.ok (ofWord kept.length), { g with memory := memory })

/-- The number of blocks handed out and not freed. -/
def liveCount (g : Guest) : Nat :=
  g.heap.liveCount

/-- The number of compiled rule sets. -/
def matcherCount (g : Guest) : Nat :=
  g.rules.size

/-- A reply that comes with the next state only if the call returns. -/
def settle {α : Type} (g : Guest) : Except Trap (α × Guest) → Reply α × Guest
  | .ok (a, g) => (.returned a, g)
  | .error trap => (.trapped trap, g)

instance : Backend Guest where
  alloc g size := let (ptr, g) := g.alloc size; (.returned ptr, g)
  dealloc g ptr size := g.settle ((g.dealloc ptr size).map fun g => ((), g))
  createMatcher g ptr len := g.settle (g.createMatcher ptr len)
  destroyMatcher g handle := (.returned (), g.destroyMatcher handle)
  isMatch g handle ptr len isDir := (.ofExcept (g.isMatch handle ptr len isDir), g)
  batchFilter g handle ptr len info :=
    let (result, g) := g.batchFilter handle ptr len info
    (.ofExcept result, g)
  memorySize g := g.memory.size
  byteAt g i := g.memory.byteAt i
  store g i bytes := { g with memory := g.memory.store i bytes }

end Guest

namespace GuestModule

/-- The module for a configuration, if that is usable. -/
def compile (c : Config) : Except Error GuestModule :=
  match c.check with
  | .ok () => .ok ⟨c.initialPages.toNat, c.maxPages.toNat⟩
  | .error e => .error (.moduleCompile e.message)

instance : Compiled GuestModule := ⟨compile⟩

instance : Module GuestModule Guest where
  name _ := "native"
  instantiate m name := (.ok (Guest.fresh name m.initialPages m.maxPages), m)

end GuestModule

end PathSieve

/-
  All pools of a process, and the one that is used when none is named.

  Pools and instances draw their ids from two counters that all pools share, so no id
  and no name occurs twice. The global slot holds at most one pool; it is filled with a
  pool of the default configuration when it is asked for and empty. Asking takes two
  steps, a look and, if the slot was empty, a filling that looks again, so that two
  askers do not fill it twice.
-/
import PathSieve.Pool.Basic

namespace PathSieve

/-- All pools, the id counters and the global slot. -/
structure World (μ σ : Type) where
  pools : List (Pool μ σ) := []
  nextPoolId : Nat := 1
  nextInstanceId : Nat := 1
  /-- The id of the global pool. -/
  globalSlot : Option Nat := none

namespace World

variable {μ σ : Type}

/-- The pool with an id. -/
def pool? (w : World μ σ) (id : Nat) : Option (Pool μ σ) :=
  w.pools.find? fun p => p.id = id

/-- The pool with an id, ready to lend. -/
def lending? (w : World μ σ) (id : Nat) : Option (Lending μ σ) :=
  (w.pool? id).map fun p => ⟨p, w.nextInstanceId⟩

/-- The world after a pool has changed. -/
def settle (w : World μ σ) (l : Lending μ σ) : World μ σ :=
  { w with
    pools := w.pools.map fun p => if p.id = l.pool.id then l.pool else p
    nextInstanceId := l.nextId }

/-- Open a pool over a module. -/
def addPool (w : World μ σ) (module : μ) (config : Config) : Nat × World μ σ :=
  (w.nextPoolId,
    { w with
      pools := { id := w.nextPoolId, module := module, config := config } :: w.pools
      nextPoolId := w.nextPoolId + 1 })

/-- Open a pool over the module that a configuration gives. -/
def openPool [Compiled μ] (w : World μ σ) (config : Config) : Except Error Nat × World μ σ :=
  match Compiled.compile config with
  | .error e => (.error e, w)
  | .ok (module : μ) =>
    let (id, w) := w.addPool module config
    (.ok id, w)

/-- Put a pool into the global slot: the pool that was there. -/
def installGlobal (w : World μ σ) (id : Nat) : Option Nat × World μ σ :=
  (w.globalSlot, { w with globalSlot := some id })

/-- Empty the global slot: the pool that was there. -/
def resetGlobal (w : World μ σ) : Option Nat × World μ σ :=
  (w.globalSlot, { w with globalSlot := none })

/-- Second step of `globalPool`: look again, and fill the slot if it is still empty. -/
def fillGlobal [Compiled μ] (w : World μ σ) : Except Error Nat × World μ σ :=
  match w.globalSlot with
  | some id => (.ok id, w)
  | none =>
    match w.openPool {} with
    | (.error e, w) => (.error e, w)
    | (.ok id, w) => (.ok id, (w.installGlobal id).2)

/-- The global pool, opened if need be. -/
def globalPool [Compiled μ] (w : World μ σ) : Except Error Nat × World μ σ :=
  match w.globalSlot with
  | some id => (.ok id, w)
  | none => w.fillGlobal

/-- Open a pool and make it the global one; nothing changes if it cannot be opened. -/
def configureGlobal [Compiled μ] (w : World μ σ) (config : Config) :
    Except Error Nat × World μ σ :=
  match w.openPool config with
  | (.error e, w) => (.error e, w)
  | (.ok id, w) => (.ok id, (w.installGlobal id).2)

end World

end PathSieve

/-
  All pools together with the instances that are out of them.

  Whoever acquires an instance holds it on a lease. A lease is dropped, which gives the
  instance back to the pool that lent it, or discarded, or unwrapped: then the instance is
  bare, and can be released to any pool. A held instance can be touched, and it can be lost.
  Each of these goes through the operations of the pool itself, and the ledger takes note of
  what becomes of the instances.
-/
import PathSieve.Pool.World
import PathSieve.Proofs.Pool.Ledger

namespace PathSieve

/-- All pools with the ledger. -/
structure PoolSystem (μ σ : Type) where
  world : World μ σ := {}
  ledger : Ledger σ := {}

/-- One operation on the pools or on a holding, which is named by its place. -/
inductive PoolOp (μ : Type) where
  | openPool (module : μ) (config : Config)
  | acquire (pool : Nat)
  /-- A lease ends, and its instance goes back. -/
  | drop (place : Nat)
  /-- A lease ends, and its instance goes back as one that must not be used again. -/
  | discard (place : Nat)
  /-- The instance of a lease is taken out of it. -/
  | unwrap (place : Nat)
  /-- A bare instance is given to a pool. -/
  | release (place pool : Nat)
  | lose (place : Nat)
  | touch (place : Nat) (t : Touch)
  | shrinkTo (pool keep : Nat)

variable {μ σ : Type}

namespace PoolSystem

/-- Open a pool. -/
def openPool (m : PoolSystem μ σ) (module : μ) (config : Config) : PoolSystem μ σ :=
  { m with world := (m.world.addPool module config).2 }

/-- Acquire an instance, which is on the roll from when it is made. -/
def acquire [Module μ σ] (m : PoolSystem μ σ) (pool : Nat) : PoolSystem μ σ :=
  match m.world.lending? pool with
  | none => m
  | some l =>
    match l.acquire with
    | (.error _, l') => { m with world := m.world.settle l' }
    | (.ok inst, l') =>
      let ledger := if l.pool.idle.isEmpty then m.ledger.make inst else m.ledger
      { world := m.world.settle l', ledger := ledger.hold pool inst }

/-- Release the instance at a place to a pool. -/
def release (m : PoolSystem μ σ) (place pool : Nat) (inst : Instance σ) : PoolSystem μ σ :=
  match m.world.lending? pool with
  | none => m
  | some l =>
    { world := m.world.settle (l.release inst)
      ledger := (m.ledger.yield place).enter pool inst }

/-- Discard the instance at a place, which is on a lease of a pool. -/
def discard (m : PoolSystem μ σ) (place pool : Nat) (inst : Instance σ) : PoolSystem μ σ :=
  match m.world.lending? pool with
  | none => m
  | some l =>
    { world := m.world.settle { l with pool := l.pool.discard inst }
      ledger := (m.ledger.yield place).enter pool inst.taint }

/-- Let go of the idle instances of a pool but `keep`. -/
def shrinkTo (m : PoolSystem μ σ) (pool keep : Nat) : PoolSystem μ σ :=
  match m.world.lending? pool with
  | none => m
  | some l =>
    { world := m.world.settle { l with pool := (l.pool.shrinkTo keep).2 }
      ledger := m.ledger.drop (l.pool.idle.take (l.pool.idle.length - keep)) }

variable [Module μ σ] [Backend σ]

/-- The system after an operation. One that is impossible changes nothing. -/
def poolOp (m : PoolSystem μ σ) : PoolOp μ → PoolSystem μ σ
  | .openPool module config => m.openPool module config
  | .acquire pool => m.acquire pool
  | .drop place =>
    match m.ledger.held[place]? with
    | some ⟨some pool, inst⟩ => m.release place pool inst
    | _ => m
  | .discard place =>
    match m.ledger.held[place]? with
    | some ⟨some pool, inst⟩ => m.discard place pool inst
    | _ => m
  | .unwrap place => { m with ledger := m.ledger.unwrap place }
  | .release place pool =>
    match m.ledger.held[place]? with
    | some ⟨none, inst⟩ => m.release place pool inst
    | _ => m
  | .lose place => { m with ledger := m.ledger.loseAt place }
  | .touch place t => { m with ledger := m.ledger.touch place t }
  | .shrinkTo pool keep => m.shrinkTo pool keep

/-- The system after operations that begin without any pool. -/
def after (ops : List (PoolOp μ)) : PoolSystem μ σ :=
  ops.foldl poolOp {}

end PoolSystem

end PathSieve

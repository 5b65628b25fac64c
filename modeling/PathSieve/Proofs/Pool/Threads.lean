/-
  Threads at the pools.

  A thread that acquires, gives back or shrinks does so in steps: each step touches a pool
  or the source of ids once, and between any two steps of one thread the others may do
  theirs. A stage says how far a thread has come, and what it has in its hands meanwhile.

      acquire    pop, or else draw an id, instantiate, count it as made; then count a lease
      release    count the lease as ended; then keep the instance, or count it as discarded
      shrink     split the idle instances; then count those split off as discarded

  A step sees one scene: the stage of the thread, the pool with the source of ids, and the
  ledger. `ThreadedSystem.run` lets threads do their steps in any order (`Turn`). A step is
  done as a whole or not at all, and nothing is said of when a thread comes to do its next
  one.
-/
import PathSieve.Proofs.Pool.System

namespace PathSieve

/-- How far a thread has come with an operation at a pool. -/
inductive Stage (σ : Type) where
  | ready
  /-- `acquire` has found no idle instance. -/
  | missed (pool : Nat)
  /-- `acquire` has drawn an id for a new instance. -/
  | drawn (pool id : Nat)
  /-- `acquire` has an instance that is not counted as made yet. -/
  | made (pool : Nat) (inst : Instance σ)
  /-- `acquire` has an instance that is not counted as leased yet. -/
  | taken (pool : Nat) (inst : Instance σ)
  /-- `release` has an instance that is not counted as leased any more. -/
  | returned (pool : Nat) (inst : Instance σ)
  /-- `shrinkTo` has instances that are not counted as discarded yet. -/
  | split (pool : Nat) (gone : List (Instance σ))

/-- What a thread calls for at a pool. -/
inductive PoolCall where
  | acquire
  /-- Give the instance at a place back. -/
  | release (place : Nat)
  | shrinkTo (keep : Nat)

/-- All that one step can see. -/
structure Scene (μ σ : Type) where
  stage : Stage σ
  lending : Lending μ σ
  ledger : Ledger σ

/-- A pool system with threads. -/
structure ThreadedSystem (μ σ : Type) extends PoolSystem μ σ where
  threads : List (Stage σ)

/-- What happens next. -/
inductive Turn (μ : Type) where
  | openPool (module : μ) (config : Config)
  /-- A thread that is ready does the first step of a call. -/
  | start (thread pool : Nat) (call : PoolCall)
  /-- A thread does the next step of its call. -/
  | go (thread : Nat)
  | unwrap (place : Nat)
  | lose (place : Nat)
  | touch (place : Nat) (t : Touch)

variable {μ σ : Type}

namespace Stage

/-- The pool that a thread is busy at. -/
@[simp] def pool? : Stage σ → Option Nat
  | ready => none
  | missed pool => some pool
  | drawn pool _ => some pool
  | made pool _ => some pool
  | taken pool _ => some pool
  | returned pool _ => some pool
  | split pool _ => some pool

/-- The instances in the hands of a thread. -/
@[simp] def hands : Stage σ → List (Instance σ)
  | made _ inst => [inst]
  | taken _ inst => [inst]
  | returned _ inst => [inst]
  | split _ gone => gone
  | _ => []

/-- The instances that a thread has made and has not counted yet. -/
@[simp] def uncounted : Stage σ → List (Instance σ)
  | made _ inst => [inst]
  | _ => []

/-- The ids that a thread has drawn and not used yet. -/
@[simp] def ids : Stage σ → List Nat
  | drawn _ id => [id]
  | _ => []

end Stage

namespace Holding

/-- May the instance be given back to a pool? A lease gives back to its own only. -/
def returnsTo (h : Holding σ) (pool : Nat) : Prop :=
  ∀ own ∈ h.lease?, own = pool

instance (h : Holding σ) (pool : Nat) : Decidable (h.returnsTo pool) :=
  inferInstanceAs (Decidable (∀ own ∈ h.lease?, own = pool))

end Holding

namespace Scene

/-- First step of `acquire`. -/
def pop (c : Scene μ σ) : Scene μ σ :=
  match c.lending.pool.popIdle? with
  | none => { c with stage := .missed c.lending.pool.id }
  | some (inst, pool) =>
    { c with stage := .taken pool.id inst, lending := { c.lending with pool := pool } }

/-- First step of `release`, and the only one for an instance of another pool. -/
def giveBack (c : Scene μ σ) (place : Nat) : Scene μ σ :=
  match c.ledger.held[place]? with
  | none => c
  | some h =>
    if ¬ h.returnsTo c.lending.pool.id then c
    else if h.inst.poolId ≠ c.lending.pool.id then
      { c with ledger := (c.ledger.yield place).lose h.inst }
    else
      { stage := .returned c.lending.pool.id h.inst
        lending := { c.lending with pool := c.lending.pool.countReturned }
        ledger := c.ledger.yield place }

/-- First step of `shrinkTo`. -/
def split (c : Scene μ σ) (keep : Nat) : Scene μ σ :=
  let (surplus, pool) := c.lending.pool.splitIdle keep
  { c with
    stage := .split pool.id (c.lending.pool.idle.take surplus)
    lending := { c.lending with pool := pool } }

/-- The first step of a call. -/
def start (c : Scene μ σ) : PoolCall → Scene μ σ
  | .acquire => c.pop
  | .release place => c.giveBack place
  | .shrinkTo keep => c.split keep

/-- Draw the next id. -/
def draw (c : Scene μ σ) (pool : Nat) : Scene μ σ :=
  { c with
    stage := .drawn pool c.lending.nextId
    lending := { c.lending with nextId := c.lending.nextId + 1 } }

/-- Have the module make an instance of a drawn id, or refuse to. -/
def instantiate [Module μ σ] (c : Scene μ σ) (id : Nat) : Scene μ σ :=
  let pool := c.lending.pool
  let (guest, module) := Module.instantiate pool.module (Lending.instanceName id)
  let lending := { c.lending with pool := { pool with module := module } }
  match guest with
  | .error _ => { c with stage := .ready, lending := lending }
  | .ok guest =>
    let inst : Instance σ :=
      { id := id, poolId := pool.id, name := Lending.instanceName id, guest := guest }
    { stage := .made pool.id inst, lending := lending, ledger := c.ledger.make inst }

/-- Count an instance as made. -/
def countCreated (c : Scene μ σ) (pool : Nat) (inst : Instance σ) : Scene μ σ :=
  { c with
    stage := .taken pool inst
    lending := { c.lending with pool := c.lending.pool.countCreated } }

/-- Count an instance as leased, which ends `acquire`. -/
def countLeased (c : Scene μ σ) (pool : Nat) (inst : Instance σ) : Scene μ σ :=
  { stage := .ready
    lending := { c.lending with pool := c.lending.pool.countLeased }
    ledger := c.ledger.hold pool inst }

/-- Keep an instance or discard it, which ends `release`. -/
def keep (c : Scene μ σ) (inst : Instance σ) : Scene μ σ :=
  if inst.tainted then
    { stage := .ready
      lending := { c.lending with pool := c.lending.pool.countDiscarded 1 }
      ledger := c.ledger.drop [inst] }
  else
    { c with
      stage := .ready
      lending := { c.lending with pool := c.lending.pool.pushIdle inst } }

/-- Count what was split off, which ends `shrinkTo`. -/
def countSplit (c : Scene μ σ) (gone : List (Instance σ)) : Scene μ σ :=
  { stage := .ready
    lending := { c.lending with pool := c.lending.pool.countDiscarded gone.length }
    ledger := c.ledger.drop gone }

/-- The next step of a call. -/
def go [Module μ σ] (c : Scene μ σ) : Scene μ σ :=
  match c.stage with
  | .ready => c
  | .missed pool => c.draw pool
  | .drawn _ id => c.instantiate id
  | .made pool inst => c.countCreated pool inst
  | .taken pool inst => c.countLeased pool inst
  | .returned _ inst => c.keep inst
  | .split _ gone => c.countSplit gone

end Scene

namespace ThreadedSystem

/-- The scene of a thread at a pool. -/
def scene? (s : ThreadedSystem μ σ) (thread pool : Nat) : Option (Scene μ σ) :=
  match s.threads[thread]?, s.world.lending? pool with
  | some stage, some lending => some ⟨stage, lending, s.ledger⟩
  | _, _ => none

/-- The system after a step of a thread. -/
def play (s : ThreadedSystem μ σ) (thread : Nat) (c : Scene μ σ) : ThreadedSystem μ σ :=
  { world := s.world.settle c.lending
    ledger := c.ledger
    threads := s.threads.set thread c.stage }

variable [Module μ σ] [Backend σ]

/-- The system after a turn. One that is impossible changes nothing. -/
def turn (s : ThreadedSystem μ σ) : Turn μ → ThreadedSystem μ σ
  | .openPool module config => { s with toPoolSystem := s.openPool module config }
  | .start thread pool call =>
    match s.scene? thread pool with
    | some ⟨.ready, l, ledger⟩ => s.play thread (Scene.start ⟨.ready, l, ledger⟩ call)
    | _ => s
  | .go thread =>
    match (s.threads[thread]?.bind Stage.pool?).bind (s.scene? thread) with
    | some c => s.play thread c.go
    | none => s
  | .unwrap place => { s with ledger := s.ledger.unwrap place }
  | .lose place => { s with ledger := s.ledger.loseAt place }
  | .touch place t => { s with ledger := s.ledger.touch place t }

def run (s : ThreadedSystem μ σ) (turns : List (Turn μ)) : ThreadedSystem μ σ :=
  turns.foldl turn s

/-- The system of a number of threads, with no pool yet. -/
def ofThreads (count : Nat) : ThreadedSystem μ σ :=
  { threads := List.replicate count .ready }

end ThreadedSystem

end PathSieve

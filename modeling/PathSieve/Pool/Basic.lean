/-
  A pool of instances.

  A pool makes instances with its module, lends them out and takes them back. An
  instance that comes back untainted is kept for the next lease, the last one back
  being the first one out; a tainted one is discarded. The pool counts what it has lent
  out, made and discarded.

  Every operation is put together from the steps in which it touches the shared state:
  the stack of idle instances, the counters and the source of instance ids, which all
  pools have in common. `Lending` is a pool together with that source.
-/
import PathSieve.Host.Instance
import PathSieve.Config.Printer

namespace PathSieve

/-- The counters of a pool at one moment. -/
structure PoolStats where
  idle : Nat
  leased : Int
  created : Nat
  discarded : Nat
  deriving DecidableEq, Repr

/-- A pool over the module `module`. -/
structure Pool (μ σ : Type) where
  id : Nat
  module : μ
  config : Config
  /-- The instances that wait for a lease, the last one back first. -/
  idle : List (Instance σ) := []
  /-- Instances lent out and not back. -/
  leased : Int := 0
  /-- Instances made. -/
  created : Nat := 0
  /-- Instances that came back tainted or were let go. -/
  discarded : Nat := 0

/-- A pool with the id that the next instance of any pool gets. -/
structure Lending (μ σ : Type) where
  pool : Pool μ σ
  nextId : Nat

namespace PoolStats

/-- The description of the counters. -/
def describe (s : PoolStats) : String :=
  s!"PoolStats \x7b idle: {s.idle}, leased: {s.leased}, created: {s.created}, "
    ++ s!"discarded: {s.discarded} \x7d"

end PoolStats

namespace Pool

variable {μ σ : Type}

/-- The counters of a pool. -/
def stats (p : Pool μ σ) : PoolStats :=
  ⟨p.idle.length, p.leased, p.created, p.discarded⟩

/-- The description of a pool. -/
def describe [Module μ σ] (p : Pool μ σ) : String :=
  s!"InstancePool \x7b id: {p.id}, module: " ++ Text.quoted (Module.name p.module)
    ++ ", config: " ++ p.config.describe ++ ", stats: " ++ p.stats.describe ++ " \x7d"

/-- Step of `acquire`: take the instance that came back last. -/
def popIdle? (p : Pool μ σ) : Option (Instance σ × Pool μ σ) :=
  match p.idle with
  | [] => none
  | inst :: rest => some (inst, { p with idle := rest })

/-- Step of `acquire`: count an instance that was made. -/
def countCreated (p : Pool μ σ) : Pool μ σ :=
  { p with created := p.created + 1 }

/-- Step of `acquire`: count a lease. -/
def countLeased (p : Pool μ σ) : Pool μ σ :=
  { p with leased := p.leased + 1 }

/-- Step of `release`: count a lease that has ended. -/
def countReturned (p : Pool μ σ) : Pool μ σ :=
  { p with leased := p.leased - 1 }

/-- Step of `release` and `shrinkTo`: count instances that are let go. -/
def countDiscarded (p : Pool μ σ) (n : Nat) : Pool μ σ :=
  { p with discarded := p.discarded + n }

/-- Step of `release`: keep an instance for the next lease. -/
def pushIdle (p : Pool μ σ) (inst : Instance σ) : Pool μ σ :=
  { p with idle := inst :: p.idle }

/-- Step of `shrinkTo`: let go of idle instances until `keep` are left, the last ones back
    first. -/
def splitIdle (p : Pool μ σ) (keep : Nat) : Nat × Pool μ σ :=
  let surplus := p.idle.length - keep
  (surplus, { p with idle := p.idle.drop surplus })

/-- Take an instance back. One of another pool is let go without being counted. -/
def release (p : Pool μ σ) (inst : Instance σ) : Pool μ σ :=
  if inst.poolId ≠ p.id then p
  else if inst.tainted then p.countReturned.countDiscarded 1
  else p.countReturned.pushIdle inst

/-- Take an instance back as one that must not be used again. -/
def discard (p : Pool μ σ) (inst : Instance σ) : Pool μ σ :=
  p.release { inst with tainted := true }

/-- Let go of all idle instances but `keep`: how many went. -/
def shrinkTo (p : Pool μ σ) (keep : Nat) : Nat × Pool μ σ :=
  let (gone, p) := p.splitIdle keep
  (gone, p.countDiscarded gone)

end Pool

namespace Lending

variable {μ σ : Type}

/-- The name of the instance with a given id. -/
def instanceName (id : Nat) : String :=
  s!"matcher_{id}"

/-- Step of `acquire`: make an instance. A refused one has used up its id all the same. -/
def instantiate [Module μ σ] (l : Lending μ σ) : Except Error (Instance σ) × Lending μ σ :=
  let id := l.nextId
  let (guest, module) := Module.instantiate l.pool.module (instanceName id)
  let pool := { l.pool with module := module }
  match guest with
  | .error e => (.error e, ⟨pool, id + 1⟩)
  | .ok guest =>
    (.ok { id := id, poolId := pool.id, name := instanceName id, guest := guest },
      ⟨pool.countCreated, id + 1⟩)

/-- Lend an instance: the one that came back last, or a new one. -/
def acquire [Module μ σ] (l : Lending μ σ) : Except Error (Instance σ) × Lending μ σ :=
  match l.pool.popIdle? with
  | some (inst, pool) => (.ok inst, { l with pool := pool.countLeased })
  | none =>
    match l.instantiate with
    | (.ok inst, l) => (.ok inst, { l with pool := l.pool.countLeased })
    | (.error e, l) => (.error e, l)

/-- Take an instance back. -/
def release (l : Lending μ σ) (inst : Instance σ) : Lending μ σ :=
  { l with pool := l.pool.release inst }

/-- Lend an instance for the length of an action. -/
def borrow [Module μ σ] {α : Type} (l : Lending μ σ) (a : Action σ α) :
    Except Failure α × Lending μ σ :=
  match l.acquire with
  | (.error e, l) => (.error (.error e), l)
  | (.ok inst, l) =>
    let (result, inst) := a.perform inst
    (result, l.release inst)

end Lending

end PathSieve

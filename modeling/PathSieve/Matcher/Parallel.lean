/-
  Filtering a path list on several instances.

  The list is cut into chunks. Chunk 0 is filtered on the matcher's own instance, every
  other chunk by a worker, which leases an instance, compiles the same rules there,
  filters, and gives all back. The results are put together by the place of the chunks
  and not by the order in which they are done.

  Workers meet only in the pool: one move of a worker leases its instance, another does
  the rest and ends the lease. Any order of these moves may happen; what is left undone
  after a given order is done worker by worker.
-/
import PathSieve.Matcher.Basic
import PathSieve.Matcher.Chunks

namespace PathSieve

/-- How far a worker has come. -/
inductive Worker (σ : Type) where
  | waiting (chunk : List String)
  | working (chunk : List String) (inst : Instance σ)
  | finished (result : Except Failure (List String))

/-- What happens next in a parallel filter. -/
inductive Move where
  /-- A worker leases its instance. -/
  | start (worker : Nat)
  /-- A worker filters its chunk and ends its lease. -/
  | finish (worker : Nat)
  deriving DecidableEq, Repr

/-- The workers of a parallel filter and the pool that they share. -/
structure Crew (μ σ : Type) where
  workers : List (Worker σ)
  lending : Lending μ σ

namespace Crew

variable {μ σ : Type} [Backend σ] [Module μ σ]

/-- A worker leases its instance, if it has not begun. -/
def start (c : Crew μ σ) (worker : Nat) : Crew μ σ :=
  match c.workers[worker]? with
  | some (.waiting chunk) =>
    match c.lending.acquire with
    | (.ok inst, l) => ⟨c.workers.set worker (.working chunk inst), l⟩
    | (.error e, l) => ⟨c.workers.set worker (.finished (.error (.error e))), l⟩
  | _ => c

/-- A worker filters its chunk and ends its lease, if it is at work. -/
def finish (rules : String) (c : Crew μ σ) (worker : Nat) : Crew μ σ :=
  match c.workers[worker]? with
  | some (.working chunk inst) =>
    let (result, inst) :=
      (Instance.withCompiled rules fun h => Instance.filter h chunk).perform inst
    ⟨c.workers.set worker (.finished result), c.lending.release inst⟩
  | _ => c

/-- Make a move. A move that makes no sense changes nothing. -/
def apply (rules : String) (c : Crew μ σ) : Move → Crew μ σ
  | .start worker => c.start worker
  | .finish worker => c.finish rules worker

/-- The moves that bring all of `count` workers to their end, one after the other. -/
def oneByOne (count : Nat) : List Move :=
  (List.range count).flatMap fun i => [.start i, .finish i]

/-- Bring all workers to their end, beginning with the given moves. -/
def runAll (rules : String) (schedule : List Move) (c : Crew μ σ) : Crew μ σ :=
  (schedule ++ oneByOne c.workers.length).foldl (apply rules) c

/-- The results of the workers; one that has unwound has failed as such. -/
def results (c : Crew μ σ) : List (Except Error (List String)) :=
  c.workers.map fun
    | .finished (.ok kept) => .ok kept
    | .finished (.error (.error e)) => .error e
    | _ => .error .workerPanicked

end Crew

namespace Matcher

variable {μ σ : Type} [Backend σ] [Module μ σ]

/-- Filter a path list on several instances, if there are several paths and workers:
    `cpus` is how many workers there are when the configuration leaves that open. A
    panic on the matcher's own instance unwinds after the workers have come to their
    end. -/
def filterParallel (m : Matcher σ) (cpus : Nat) (schedule : List Move) (paths : List String)
    (l : Lending μ σ) : Except Failure (List String) × Matcher σ × Lending μ σ :=
  let count := min (l.pool.config.effectiveParallelism cpus) paths.length
  if m.isClosed || count ≤ 1 then
    let (result, m) := m.filter paths
    (result, m, l)
  else
    let chunks := Chunks.ofList paths count
    let crew : Crew μ σ := ⟨chunks.tail.map .waiting, l⟩
    let crew := crew.runAll m.rules schedule
    let (own, m) := m.filter (chunks.headD [])
    let result := match own with
      | .ok kept => (Chunks.merge (.ok kept :: crew.results)).mapError Failure.error
      | .error (.error e) => (Chunks.merge (.error e :: crew.results)).mapError Failure.error
      | .error (.panic text) => .error (.panic text)
    (result, m, crew.lending)

end Matcher

end PathSieve

/-
  Matchers: rules that are ready to be asked.

  A matcher holds one leased instance and one compiled rule set on it. Closing gives
  both back; it may be repeated. Whatever is asked of a closed matcher unwinds, because
  its user has made a mistake that no answer can mend.
-/
import PathSieve.Host.Matching
import PathSieve.Pool.Basic

namespace PathSieve

/-- A compiled rule text on a leased instance. -/
structure Matcher (σ : Type) where
  poolId : Nat
  /-- The instance, until the matcher is closed. -/
  lease : Option (Instance σ)
  handle : Handle
  rules : String

namespace Matcher

variable {μ σ α : Type}

/-- The complaint about the use of a closed matcher. -/
def closedText : String := "use of closed Matcher"

/-- Is the matcher closed? -/
def isClosed (m : Matcher σ) : Bool :=
  m.lease.isNone

/-- The description of a matcher. -/
def describe (m : Matcher σ) : String :=
  "Matcher \x7b handle: " ++ m.handle.describe ++ ", rules: " ++ Text.quoted m.rules
    ++ s!", closed: {m.isClosed} \x7d"

variable [Backend σ]

/-- Lease an instance and compile the rules on it. If that fails, the lease ends. -/
def openOn [Module μ σ] (rules : List String) (l : Lending μ σ) :
    Except Failure (Matcher σ) × Lending μ σ :=
  match l.acquire with
  | (.error e, l) => (.error (.error e), l)
  | (.ok inst, l) =>
    let text := Text.unlines rules
    match (Instance.compile text).perform inst with
    | (.error failure, inst) => (.error failure, l.release inst)
    | (.ok handle, inst) =>
      (.ok { poolId := l.pool.id, lease := some inst, handle := handle, rules := text }, l)

/-- Do something with the instance of an open matcher. -/
def use (m : Matcher σ) (a : Action σ α) : Except Failure α × Matcher σ :=
  match m.lease with
  | none => (.error (.panic closedText), m)
  | some inst =>
    let (result, inst) := a.perform inst
    (result, { m with lease := some inst })

/-- Ask about a path in bytes. -/
def askBytes (m : Matcher σ) (path : List UInt8) (isDir : Bool) :
    Except Failure Verdict × Matcher σ :=
  m.use (Instance.ask m.handle path isDir)

/-- Ask about a path. -/
def ask (m : Matcher σ) (path : String) (isDir : Bool) : Except Failure Verdict × Matcher σ :=
  m.askBytes (Text.Utf8.encode path) isDir

/-- Is a path ignored? An error counts as no; only a panic is passed on. -/
def ignores (m : Matcher σ) (path : String) (isDir : Bool) : Except Failure Bool × Matcher σ :=
  match m.ask path isDir with
  | (.ok v, m) => (.ok (v == .ignored), m)
  | (.error (.error _), m) => (.ok false, m)
  | (.error (.panic text), m) => (.error (.panic text), m)

/-- Filter a path list: the lines of the paths that are kept, in order. -/
def filter (m : Matcher σ) (paths : List String) : Except Failure (List String) × Matcher σ :=
  m.use (Instance.filter m.handle paths)

/-- Forget the compiled rules and end the lease, if the matcher is open. -/
def close (m : Matcher σ) (l : Lending μ σ) : Except Failure Unit × Matcher σ × Lending μ σ :=
  match m.lease with
  | none => (.ok (), m, l)
  | some inst =>
    let (result, inst) := (Instance.destroy m.handle).quietly.perform inst
    (result, { m with lease := none }, l.release inst)

end Matcher

end PathSieve

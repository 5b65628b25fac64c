/-
  Matchers at work on one pool.

  A session is a pool over the guest that evaluates rule sets, with the matchers that have
  been opened on it, each under a name of its own. Nothing enters an instance but through
  a matcher. Requests come in any order for any of the matchers; in between idle instances
  may be let go, and other pools may draw ids. A parallel filter comes with the order in
  which its workers move, which is no part of what was asked.
-/
import PathSieve.Matcher.Parallel
import PathSieve.Proofs.Matcher.Anonymous
import PathSieve.Proofs.Pool.Stock

namespace PathSieve

/-- What can be asked of a matcher. -/
inductive Query where
  /-- That it be made from rules. -/
  | opens (rules : List String)
  | askBytes (path : List UInt8) (isDir : Bool)
  | ask (path : String) (isDir : Bool)
  | ignores (path : String) (isDir : Bool)
  | filter (paths : List String)
  /-- The machine has `cpus` processors of its own. -/
  | filterParallel (cpus : Nat) (paths : List String)
  | close
  | drop

/-- How a request ends. -/
inductive Answer where
  /-- The matcher has been made from a rule text, or could not be made. -/
  | opened (result : Except Failure String)
  | verdict (result : Except Failure Verdict)
  | flag (result : Except Failure Bool)
  | lines (result : Except Failure (List String))
  | closed (result : Except Failure Unit)
  /-- There is no matcher of that name, or there is one already. -/
  | refused

namespace Answer

/-- The answer without the names of instances. -/
def anonymous : Answer → Answer
  | .opened r => .opened (r.mapError Failure.anonymous)
  | .verdict r => .verdict (r.mapError Failure.anonymous)
  | .flag r => .flag (r.mapError Failure.anonymous)
  | .lines r => .lines (r.mapError Failure.anonymous)
  | .closed r => .closed (r.mapError Failure.anonymous)
  | .refused => .refused

end Answer

/-- What happens in a session. -/
inductive Event where
  /-- A matcher gets a request. -/
  | request (name : Nat) (q : Query) (schedule : List Move)
  /-- Idle instances are let go until `keep` are left. -/
  | shrink (keep : Nat)
  /-- Other pools make instances. -/
  | elsewhere (count : Nat)

/-- A pool with the matchers that have been opened on it. -/
structure Session where
  lending : GuestLending
  matcher? : Nat → Option (Matcher Guest)

namespace Session

/-- A session on a new pool of a configuration, which has to be usable. -/
def open? (c : Config) (poolId nextId : Nat) : Except Error Session :=
  (GuestModule.compile c).map fun m =>
    ⟨⟨{ id := poolId, module := m, config := c }, nextId⟩, fun _ => none⟩

/-- The session after a matcher and the pool have changed. -/
def put (s : Session) (name : Nat) (m : Option (Matcher Guest)) (l : GuestLending) : Session :=
  ⟨l, fun n => if n = name then m else s.matcher? n⟩

/-- Ask for a matcher that does not exist. -/
def begin (s : Session) (name : Nat) : Query → Answer × Session
  | .opens rules =>
    match Matcher.openOn rules s.lending with
    | (.ok m, l) => (.opened (.ok m.rules), s.put name (some m) l)
    | (.error failure, l) => (.opened (.error failure), s.put name none l)
  | _ => (.refused, s)

/-- Ask something of a matcher. -/
def serve (s : Session) (name : Nat) (m : Matcher Guest) (schedule : List Move) :
    Query → Answer × Session
  | .opens _ => (.refused, s)
  | .askBytes path isDir =>
    let (r, m) := m.askBytes path isDir
    (.verdict r, s.put name (some m) s.lending)
  | .ask path isDir =>
    let (r, m) := m.ask path isDir
    (.verdict r, s.put name (some m) s.lending)
  | .ignores path isDir =>
    let (r, m) := m.ignores path isDir
    (.flag r, s.put name (some m) s.lending)
  | .filter paths =>
    let (r, m) := m.filter paths
    (.lines r, s.put name (some m) s.lending)
  | .filterParallel cpus paths =>
    let (r, m, l) := m.filterParallel cpus schedule paths s.lending
    (.lines r, s.put name (some m) l)
  | .close =>
    let (r, m, l) := m.close s.lending
    (.closed r, s.put name (some m) l)
  | .drop =>
    let (r, _, l) := m.close s.lending
    (.closed r, s.put name none l)

/-- Let something happen: the answer, if there was a request, and the session after it. -/
def step (s : Session) : Event → Option (Nat × Answer) × Session
  | .request name q schedule =>
    let (answer, s) := match s.matcher? name with
      | none => s.begin name q
      | some m => s.serve name m schedule q
    (some (name, answer), s)
  | .shrink keep =>
    (none, { s with lending := { s.lending with pool := (s.lending.pool.shrinkTo keep).2 } })
  | .elsewhere count =>
    (none, { s with lending := { s.lending with nextId := s.lending.nextId + count } })

/-- The session after events. -/
def after (s : Session) (events : List Event) : Session :=
  events.foldl (fun s e => (s.step e).2) s

/-- The answers that the matcher of a name gives during events. -/
def answersTo (name : Nat) (s : Session) : List Event → List Answer
  | [] => []
  | e :: events =>
    match (s.step e).1 with
    | some (n, answer) =>
      if n = name then answer :: answersTo name (s.step e).2 events
      else answersTo name (s.step e).2 events
    | none => answersTo name (s.step e).2 events

/-- A session on a new pool of the default configuration. -/
def plain (poolId nextId : Nat) : Session :=
  ⟨⟨{ id := poolId, module := ⟨1, 4096⟩, config := {} }, nextId⟩, fun _ => none⟩

theorem open?_plain (poolId nextId : Nat) :
    open? {} poolId nextId = .ok (plain poolId nextId) := rfl

end Session

/-- What is asked of the matcher of a name during events. -/
def queriesTo (name : Nat) : List Event → List Query
  | [] => []
  | .request n q _ :: events =>
    if n = name then q :: queriesTo name events else queriesTo name events
  | _ :: events => queriesTo name events

end PathSieve

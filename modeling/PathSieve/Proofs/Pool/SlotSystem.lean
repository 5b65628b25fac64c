/-
  Callers at the global slot.

  Any number of callers ask for the global pool, configure one, install one or empty the slot.
  A call takes one step or two. Each step has the slot for itself, and between the two steps of
  one caller the others may do any number of theirs.

      ask         look; if the slot is empty, look again and fill it
      configure   open a pool; then install it
      install     install a pool
      reset       empty the slot

  Callers also open pools of their own and use pools, one step at a time.

  `SlotSystem.run` lets callers do their steps in any order. A step is done as a whole or not
  at all, and nothing is said of when a caller comes to do its next one. The history has every
  step, with the world before it and after it and the place of the first step of its call.

  The steps of a caller that is left alone make up the operation that it calls for (`world_ask`,
  `world_configure`).
-/
import PathSieve.Proofs.Pool.Books

namespace PathSieve

/-- What a caller calls for. -/
inductive SlotCall (μ σ : Type) where
  | ask
  | configure (config : Config)
  | install (pool : Nat)
  | reset
  /-- Open a pool of one's own. -/
  | openPool (module : μ) (config : Config)
  /-- Use a pool, which changes it and draws ids. -/
  | use (l : Lending μ σ)

/-- How far a caller has come, and where in the history its call began. -/
inductive Caller where
  | ready
  /-- `globalPool` has found the slot empty. -/
  | looked (began : Nat)
  /-- `configureGlobal` has opened its pool. -/
  | opened (began : Nat) (config : Config) (pool : Nat)

/-- What a caller has done in a step. -/
inductive SlotEvent where
  /-- `globalPool` has found the slot empty. -/
  | look
  /-- `globalPool` has ended. -/
  | answer (result : Except Error Nat)
  /-- `configureGlobal` has opened its pool. -/
  | build (config : Config) (pool : Nat)
  /-- `configureGlobal` has failed. -/
  | refuse (config : Config) (e : Error)
  /-- A pool has been installed, by `configureGlobal` or by itself. -/
  | install (pool : Nat) (previous : Option Nat)
  | reset (previous : Option Nat)
  | openPool (pool : Nat)
  | use

/-- A step in the history of the global slot. -/
structure SlotStep (μ σ : Type) where
  caller : Nat
  /-- The place in the history of the first step of the call. -/
  began : Nat
  event : SlotEvent
  before : World μ σ
  after : World μ σ

/-- The pools of a process with those who call for the global one. -/
structure SlotSystem (μ σ : Type) where
  world : World μ σ := {}
  callers : List Caller
  history : List (SlotStep μ σ) := []

variable {μ σ : Type}

/-! ## Steps -/

namespace World

variable [Compiled μ]

/-- The first step of a call at a place in the history. Only a pool that there is can be
    installed. -/
def begin? (w : World μ σ) (now : Nat) : SlotCall μ σ → Option (SlotEvent × Caller × World μ σ)
  | .ask =>
    match w.globalSlot with
    | some pool => some (.answer (.ok pool), .ready, w)
    | none => some (.look, .looked now, w)
  | .configure config =>
    match w.openPool config with
    | (.ok pool, w) => some (.build config pool, .opened now config pool, w)
    | (.error e, w) => some (.refuse config e, .ready, w)
  | .install pool =>
    if pool ∈ w.ids then
      let (previous, w) := w.installGlobal pool
      some (.install pool previous, .ready, w)
    else none
  | .reset =>
    let (previous, w) := w.resetGlobal
    some (.reset previous, .ready, w)
  | .openPool module config =>
    let (pool, w) := w.addPool module config
    some (.openPool pool, .ready, w)
  | .use l => some (.use, .ready, w.settle l)

/-- The second step of a call, which ends it. -/
def resume? (w : World μ σ) : Caller → Option (Nat × SlotEvent × World μ σ)
  | .ready => none
  | .looked began =>
    let (result, w) := w.fillGlobal
    some (began, .answer result, w)
  | .opened began _ pool =>
    let (previous, w) := w.installGlobal pool
    some (began, .install pool previous, w)

end World

namespace SlotSystem

/-- Who does the next step. -/
inductive Turn (μ σ : Type) where
  /-- A caller that is ready begins a call. -/
  | start (caller : Nat) (call : SlotCall μ σ)
  /-- A caller does the next step of its call. -/
  | go (caller : Nat)

/-- The system after a step of a caller. -/
def note (s : SlotSystem μ σ) (caller began : Nat) (event : SlotEvent) (stage : Caller)
    (w : World μ σ) : SlotSystem μ σ where
  world := w
  callers := s.callers.set caller stage
  history := s.history ++ [⟨caller, began, event, s.world, w⟩]

variable [Compiled μ]

/-- The system after a turn. One that is impossible changes nothing. -/
def turn (s : SlotSystem μ σ) : Turn μ σ → SlotSystem μ σ
  | .start caller call =>
    match s.callers[caller]? with
    | some .ready =>
      match s.world.begin? s.history.length call with
      | some (event, stage, w) => s.note caller s.history.length event stage w
      | none => s
    | _ => s
  | .go caller =>
    match s.callers[caller]?.bind s.world.resume? with
    | some (began, event, w) => s.note caller began event .ready w
    | none => s

def run (s : SlotSystem μ σ) (turns : List (Turn μ σ)) : SlotSystem μ σ :=
  turns.foldl turn s

/-- The system of a number of callers, with no pool yet. -/
def ofCallers (count : Nat) : SlotSystem μ σ :=
  { callers := List.replicate count .ready }

end SlotSystem

/-! ## What the operations do -/

namespace World

variable [Compiled μ] {w : World μ σ} {config : Config} {pool : Nat}

theorem openPool_ok {module : μ} (h : Compiled.compile config = .ok module) (w : World μ σ) :
    w.openPool config = (.ok w.nextPoolId, (w.addPool module config).2) := by
  simp [openPool, h, addPool]

theorem openPool_error {e : Error} (h : (Compiled.compile config : Except Error μ) = .error e)
    (w : World μ σ) : w.openPool config = (.error e, w) := by
  simp [openPool, h]

theorem configureGlobal_ok {module : μ} (h : Compiled.compile config = .ok module)
    (w : World μ σ) : w.configureGlobal config =
      (.ok w.nextPoolId, ((w.addPool module config).2.installGlobal w.nextPoolId).2) := by
  simp [configureGlobal, openPool_ok h]

theorem configureGlobal_error {e : Error}
    (h : (Compiled.compile config : Except Error μ) = .error e) (w : World μ σ) :
    w.configureGlobal config = (.error e, w) := by
  simp [configureGlobal, openPool_error h]

theorem globalPool_of_some (h : w.globalSlot = some pool) : w.globalPool = (.ok pool, w) := by
  simp [globalPool, h]

/-- An empty slot is filled as by configuring it. -/
theorem globalPool_of_none (h : w.globalSlot = none) :
    w.globalPool = w.configureGlobal {} := by
  simp [globalPool, fillGlobal, configureGlobal, h]

/-- To look again and fill is all that asking is. -/
theorem fillGlobal_eq_globalPool (w : World μ σ) : w.fillGlobal = w.globalPool := by
  cases h : w.globalSlot with
  | none => simp [globalPool, h]
  | some pool => simp [globalPool, fillGlobal, h]

theorem begin?_ask_of_some (h : w.globalSlot = some pool) (now : Nat) :
    w.begin? now .ask = some (.answer (.ok pool), .ready, w) := by
  simp only [begin?, h]

theorem begin?_ask_of_none (h : w.globalSlot = none) (now : Nat) :
    w.begin? now .ask = some (.look, .looked now, w) := by
  simp only [begin?, h]

theorem begin?_configure_ok {module : μ}
    (h : Compiled.compile config = .ok module) (w : World μ σ) (now : Nat) :
    w.begin? now (.configure config) = some (.build config w.nextPoolId,
      .opened now config w.nextPoolId, (w.addPool module config).2) := by
  simp only [begin?, openPool_ok h]

theorem begin?_configure_error {e : Error}
    (h : (Compiled.compile config : Except Error μ) = .error e) (w : World μ σ) (now : Nat) :
    w.begin? now (.configure config) = some (.refuse config e, .ready, w) := by
  simp only [begin?, openPool_error h]

end World

/-! ## A caller that is left alone -/

namespace SlotSystem

variable {s : SlotSystem μ σ} {caller began : Nat} {call : SlotCall μ σ} {d : SlotEvent}
  {stage : Caller} {w : World μ σ}

theorem getElem?_callers_note (hready : s.callers[caller]? = some .ready) :
    (s.note caller began d stage w).callers[caller]? = some stage :=
  List.getElem?_set_self (List.getElem?_eq_some_iff.mp hready).1

variable [Compiled μ]

theorem turn_start (hready : s.callers[caller]? = some .ready)
    (hbegin : s.world.begin? s.history.length call = some (d, stage, w)) :
    s.turn (.start caller call) = s.note caller s.history.length d stage w := by
  simp only [turn, hready, hbegin]

theorem turn_go (hstage : s.callers[caller]? = some stage)
    (hresume : s.world.resume? stage = some (began, d, w)) :
    s.turn (.go caller) = s.note caller began d .ready w := by
  simp only [turn, hstage, Option.bind_some, hresume]

theorem turn_go_of_ready (hready : s.callers[caller]? = some .ready) :
    s.turn (.go caller) = s := by
  simp only [turn, hready, Option.bind_some, World.resume?]

/-- The steps of `globalPool` make up the whole of it. -/
theorem world_ask (hready : s.callers[caller]? = some .ready) :
    ((s.turn (.start caller .ask)).turn (.go caller)).world = s.world.globalPool.2 := by
  cases hslot : s.world.globalSlot with
  | none =>
    rw [turn_start hready (World.begin?_ask_of_none hslot _),
      turn_go (getElem?_callers_note hready) rfl, ← World.fillGlobal_eq_globalPool]
    rfl
  | some pool =>
    rw [turn_start hready (World.begin?_ask_of_some hslot _),
      turn_go_of_ready (getElem?_callers_note hready), World.globalPool_of_some hslot]
    rfl

/-- The steps of `configureGlobal` make up the whole of it. -/
theorem world_configure (hready : s.callers[caller]? = some .ready) (config : Config) :
    ((s.turn (.start caller (.configure config))).turn (.go caller)).world =
      (s.world.configureGlobal config).2 := by
  cases hmodule : (Compiled.compile config : Except Error μ) with
  | ok module =>
    rw [turn_start hready (World.begin?_configure_ok hmodule _ _),
      turn_go (getElem?_callers_note hready) rfl, World.configureGlobal_ok hmodule]
    rfl
  | error e =>
    rw [turn_start hready (World.begin?_configure_error hmodule _ _),
      turn_go_of_ready (getElem?_callers_note hready), World.configureGlobal_error hmodule]
    rfl

end SlotSystem

end PathSieve

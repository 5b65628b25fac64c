/-
  What callers see of the global slot.

  Whoever asks for the global pool is told the one that is in the slot when the call is decided.
  A default pool is opened for an empty slot only. So as long as nobody exchanges the pool in
  the slot, at most one default pool is opened, and all who ask are told the same one.

  Pools pass through the slot one at a time: those that were handed out as the ones before, and
  then the one in the slot, are in their order those that were put into it
  (`Leads.installed_eq`). So nobody is handed what another one has been handed already.
-/
import PathSieve.Proofs.Pool.SlotEvents
import PathSieve.Sandbox.Guest

namespace PathSieve

variable {μ σ : Type}

/-- What a step has found in the slot, if it has exchanged that for another pool or for none. -/
def SlotEvent.exchanged? : SlotEvent → Option (Option Nat)
  | install _ previous => some previous
  | reset previous => some previous
  | _ => none

namespace SlotStep

/-- The pool that a step has put into the slot. -/
def installed? (m : SlotStep μ σ) : Option Nat :=
  match m.event with
  | .install pool _ => some pool
  | .answer (.ok pool) => if m.before.globalSlot.isNone then some pool else none
  | _ => none

/-- The pool that a step has handed out as the one before. -/
def handedOut? (m : SlotStep μ σ) : Option Nat :=
  m.event.exchanged?.join

/-- Has `globalPool` opened a pool in this step? -/
def opensDefault (m : SlotStep μ σ) : Bool :=
  match m.event with
  | .answer _ => m.before.pools.length < m.after.pools.length
  | _ => false

/-- Whoever is answered in this step is told this pool. -/
def Tells (m : SlotStep μ σ) (pool : Nat) : Prop :=
  ∀ result, m.event = .answer result → result = .ok pool

end SlotStep

/-! ## One step -/

namespace SlotEvent.Effect

variable [Compiled μ] {m : SlotStep μ σ} {pool : Nat}

/-- A step takes the pool that is in the slot out of it, or puts one in behind it, or both. -/
theorem installed_eq (h : m.event.Effect m.before m.after) :
    m.before.globalSlot.toList ++ m.installed?.toList =
      m.handedOut?.toList ++ m.after.globalSlot.toList := by
  obtain ⟨caller, began, event, before, after⟩ := m
  dsimp only at h
  cases h with
  | looked hslot => simp [SlotStep.installed?, SlotStep.handedOut?, exchanged?, hslot]
  | found hslot => simp [SlotStep.installed?, SlotStep.handedOut?, exchanged?, hslot]
  | filled hslot => simp [SlotStep.installed?, SlotStep.handedOut?, exchanged?, hslot]
  | _ => simp [SlotStep.installed?, SlotStep.handedOut?, exchanged?]

/-- A step that finds a pool in the slot and does not exchange it leaves it there, opens no
    default pool and tells nobody of another one. -/
theorem of_some (h : m.event.Effect m.before m.after) (hslot : m.before.globalSlot = some pool)
    (hkept : m.event.exchanged? = none) :
    m.after.globalSlot = some pool ∧ m.opensDefault = false ∧ m.Tells pool := by
  obtain ⟨caller, began, event, before, after⟩ := m
  dsimp only at h hslot
  cases h with
  | found hfound => simp_all [SlotStep.opensDefault, SlotStep.Tells]
  | looked hnone | filled hnone | unfilled hnone => simp [hnone] at hslot
  | installed | emptied => simp [exchanged?] at hkept
  | _ => simp [SlotStep.opensDefault, SlotStep.Tells, hslot]

/-- A step that finds the slot empty and does not exchange anything fills it with a default
    pool and tells of that, or leaves it empty and tells nobody of any. -/
theorem of_none (h : m.event.Effect m.before m.after) {module : μ}
    (hdefault : Compiled.compile {} = .ok module) (hslot : m.before.globalSlot = none)
    (hkept : m.event.exchanged? = none) :
    (∃ pool, m.after.globalSlot = some pool ∧ m.Tells pool) ∨
      m.after.globalSlot = none ∧ m.opensDefault = false ∧ ∀ pool, m.Tells pool := by
  obtain ⟨caller, began, event, before, after⟩ := m
  dsimp only at h hslot
  cases h with
  | found hfound => simp [hfound] at hslot
  | filled => exact .inl ⟨before.nextPoolId, rfl, by simp [SlotStep.Tells]⟩
  | unfilled _ hmodule => simp [hdefault] at hmodule
  | installed | emptied => simp [exchanged?] at hkept
  | _ => simp [SlotStep.opensDefault, SlotStep.Tells, hslot]

/-- Where a default pool can be had, whoever is answered is told the pool that is then in the
    slot. -/
theorem answered (h : m.event.Effect m.before m.after) {module : μ}
    (hdefault : Compiled.compile {} = .ok module) {result : Except Error Nat}
    (hevent : m.event = .answer result) :
    ∃ pool, result = .ok pool ∧ m.after.globalSlot = some pool := by
  rw [hevent] at h
  generalize m.after = after at h
  cases h with
  | found hslot => exact ⟨_, rfl, hslot⟩
  | filled => exact ⟨_, rfl, rfl⟩
  | unfilled _ hmodule => simp [hdefault] at hmodule

/-- `globalPool` opens a pool only as `configureGlobal` does, and for an empty slot. -/
theorem opened_of_opensDefault (h : m.event.Effect m.before m.after) (hopens : m.opensDefault) :
    m.before.globalSlot = none ∧
      ∃ pool, m.event = .answer (.ok pool) ∧ m.before.configureGlobal {} = (.ok pool, m.after) := by
  obtain ⟨caller, began, event, before, after⟩ := m
  dsimp only at h
  cases h with
  | filled hslot hmodule =>
    exact ⟨hslot, before.nextPoolId, rfl, World.configureGlobal_ok hmodule before⟩
  | _ => simp [SlotStep.opensDefault] at hopens

theorem refused_eq (h : m.event.Effect m.before m.after) {config : Config} {e : Error}
    (hevent : m.event = .refuse config e) : m.after = m.before := by
  rw [hevent] at h
  generalize m.after = after at h
  cases h
  rfl

end SlotEvent.Effect

/-! ## Many steps -/

namespace SlotSystem

variable [Compiled μ] {w w' : World μ σ} {ms : List (SlotStep μ σ)} {pool : Nat}

/-- What was put into the slot has been handed out since, each time once and in this order, or
    is still there. -/
theorem Leads.installed_eq (h : Leads w ms w') :
    w.globalSlot.toList ++ ms.filterMap SlotStep.installed? =
      ms.filterMap SlotStep.handedOut? ++ w'.globalSlot.toList := by
  simp only [List.filterMap_eq_flatMap_toList]
  induction ms generalizing w with
  | nil =>
    obtain rfl : w' = w := h
    simp
  | cons m ms ih =>
    obtain ⟨rfl, hdoes, hrest⟩ := h
    have hstep := hdoes.effect.installed_eq
    rw [List.flatMap_cons, List.flatMap_cons, ← List.append_assoc, hstep, List.append_assoc,
      ih hrest, List.append_assoc]

/-- A pool stays in the slot as long as nobody exchanges it, and everybody is told of it. -/
theorem Leads.stays (h : Leads w ms w') (hslot : w.globalSlot = some pool)
    (hkept : ∀ m ∈ ms, m.event.exchanged? = none) :
    ∀ m ∈ ms, m.opensDefault = false ∧ m.Tells pool := by
  induction ms generalizing w with
  | nil => simp
  | cons m ms ih =>
    obtain ⟨rfl, hdoes, hrest⟩ := h
    obtain ⟨hafter, hstep⟩ := hdoes.effect.of_some hslot (hkept m List.mem_cons_self)
    exact List.forall_mem_cons.mpr
      ⟨hstep, ih hrest hafter fun m' hm' => hkept m' (List.mem_cons_of_mem m hm')⟩

/-- Between two exchanges one default pool at most is opened, and everybody is told the same. -/
theorem Leads.agree (h : Leads w ms w') {module : μ}
    (hdefault : Compiled.compile {} = .ok module)
    (hkept : ∀ m ∈ ms, m.event.exchanged? = none) :
    ms.countP SlotStep.opensDefault ≤ 1 ∧ ∃ pool, ∀ m ∈ ms, m.Tells pool := by
  induction ms generalizing w with
  | nil => simp
  | cons m ms ih =>
    have ⟨hm, hms⟩ := List.forall_mem_cons.mp hkept
    obtain ⟨rfl, hdoes, hrest⟩ := h
    -- once the slot is full, nothing is opened any more
    have hfull : ∀ pool, m.after.globalSlot = some pool → m.Tells pool →
        (m :: ms).countP SlotStep.opensDefault ≤ 1 ∧ ∃ pool, ∀ m' ∈ m :: ms, m'.Tells pool := by
      intro pool hafter htells
      have hstays := hrest.stays hafter hms
      have hnone : ms.countP SlotStep.opensDefault = 0 :=
        List.countP_eq_zero.mpr fun m' hm' => by simp [(hstays m' hm').1]
      refine ⟨?_, pool, List.forall_mem_cons.mpr ⟨htells, fun m' hm' => (hstays m' hm').2⟩⟩
      rw [List.countP_cons, hnone]
      split <;> omega
    cases hslot : m.before.globalSlot with
    | some pool =>
      obtain ⟨hafter, -, htells⟩ := hdoes.effect.of_some hslot hm
      exact hfull pool hafter htells
    | none =>
      obtain ⟨pool, hafter, htells⟩ | ⟨-, hopens, htells⟩ :=
        hdoes.effect.of_none hdefault hslot hm
      · exact hfull pool hafter htells
      · obtain ⟨hcount, pool, hpool⟩ := ih hrest hms
        refine ⟨?_, pool, List.forall_mem_cons.mpr ⟨htells pool, hpool⟩⟩
        rw [List.countP_cons, hopens]
        simpa using hcount

/-! ## All runs -/

/-- Every call on the global slot is as if it were done whole at the step that decides it. -/
structure Linearizable (s : SlotSystem μ σ) : Prop where
  /-- A step finds the world that the one before it has left; where it ends a call, it does what
      the operation does there. -/
  leads : Leads {} s.history s.world
  begun : ∀ i m, s.history[i]? = some m → Begun s.history i m
  orderly : s.world.Orderly
  /-- Who asks is told the pool in the slot, or finds it empty. -/
  asked : ∀ caller, s.callers[caller]? = some .ready →
    (∃ pool, s.world.globalSlot = some pool ∧ s.turn (.start caller .ask) =
      s.note caller s.history.length (.answer (.ok pool)) .ready s.world) ∨
    s.world.globalSlot = none ∧ s.turn (.start caller .ask) =
      s.note caller s.history.length .look (.looked s.history.length) s.world
  /-- Who has found it empty is told a pool in the next step, whatever has happened meanwhile. -/
  served : ∀ caller began, s.callers[caller]? = some (.looked began) →
    ∃ pool w, s.world.globalPool = (.ok pool, w) ∧
      s.turn (.go caller) = s.note caller began (.answer (.ok pool)) .ready w
  /-- A pool that somebody is told is in the slot at a moment of the call. -/
  answered : ∀ i (m : SlotStep μ σ) result, s.history[i]? = some m → m.event = .answer result →
    ∃ pool, result = .ok pool ∧ m.began ≤ i ∧ m.after.globalSlot = some pool
  /-- A default pool is opened for an empty slot only, and is put there at once. -/
  opened : ∀ m ∈ s.history, m.opensDefault → m.before.globalSlot = none ∧
    ∃ pool, m.event = .answer (.ok pool) ∧ m.before.configureGlobal {} = (.ok pool, m.after)
  /-- Between two exchanges one default pool at most is opened, and everybody is told the same. -/
  agree : ∀ earlier span later, s.history = earlier ++ span ++ later →
    (∀ m ∈ span, m.event.exchanged? = none) →
      span.countP SlotStep.opensDefault ≤ 1 ∧ ∃ pool, ∀ m ∈ span, m.Tells pool
  /-- Of the pools that were put into the slot, the first one was handed out first, and so on:
      none is handed out twice for having been put there once. -/
  handedOut : s.history.filterMap SlotStep.installed? =
    s.history.filterMap SlotStep.handedOut? ++ s.world.globalSlot.toList
  /-- Configuring fails in one step, which changes nothing. -/
  refused : ∀ i (m : SlotStep μ σ) config e, s.history[i]? = some m →
    m.event = .refuse config e → m.began = i ∧ m.after = m.before

/-- With a default configuration that can be used, a sound system is linearizable. -/
theorem Sound.linearizable {s : SlotSystem μ σ} (hs : s.Sound) {module : μ}
    (hdefault : Compiled.compile {} = .ok module) : s.Linearizable where
  leads := hs.leads
  begun := hs.begun
  orderly := hs.orderly
  asked caller hready := by
    cases hslot : s.world.globalSlot with
    | some pool => exact .inl ⟨pool, rfl, turn_start hready (World.begin?_ask_of_some hslot _)⟩
    | none => exact .inr ⟨rfl, turn_start hready (World.begin?_ask_of_none hslot _)⟩
  served caller began hlooked := by
    obtain ⟨pool, w, hw⟩ : ∃ pool w, s.world.globalPool = (.ok pool, w) := by
      cases hslot : s.world.globalSlot with
      | some pool => exact ⟨pool, _, World.globalPool_of_some hslot⟩
      | none =>
        rw [World.globalPool_of_none hslot, World.configureGlobal_ok hdefault]
        exact ⟨_, _, rfl⟩
    refine ⟨pool, w, hw, turn_go hlooked ?_⟩
    simp only [World.resume?, World.fillGlobal_eq_globalPool, hw]
  answered i m result hi hevent := by
    obtain ⟨pool, rfl, hslot⟩ :=
      (hs.leads.does (List.mem_of_getElem? hi)).effect.answered hdefault hevent
    exact ⟨pool, rfl, (hs.begun i m hi).le, hslot⟩
  opened m hm hopens := (hs.leads.does hm).effect.opened_of_opensDefault hopens
  agree earlier span later hspan hkept := by
    obtain ⟨_, hleads, -⟩ := leads_append.mp (hspan ▸ hs.leads)
    obtain ⟨_, -, hleads⟩ := leads_append.mp hleads
    exact hleads.agree hdefault hkept
  handedOut := by simpa using hs.leads.installed_eq
  refused i m config e hi hevent := by
    refine ⟨?_, (hs.leads.does (List.mem_of_getElem? hi)).effect.refused_eq hevent⟩
    -- no second step of a call refuses
    obtain hfirst | ⟨-, first, -, -, -, hfollows⟩ := hs.begun i m hi
    · exact hfirst
    · rw [hevent] at hfollows
      exact absurd hfollows SlotEvent.not_follows_refuse

/-- Whatever any number of callers do, and in whatever order they do their steps, the global slot
    is linearizable. -/
theorem linearizable_run {ν : Type} (count : Nat) (turns : List (Turn (GuestModule ⊕ ν) σ)) :
    ((ofCallers count : SlotSystem (GuestModule ⊕ ν) σ).run turns).Linearizable :=
  ((sound_ofCallers count).run turns).linearizable rfl

/-- Two callers find the slot empty, and one of them opens a default pool for both; after a
    reset there is a second one. -/
example :
    let s : SlotSystem GuestModule Guest := (ofCallers 2).run
      [.start 0 .ask, .start 1 .ask, .go 1, .go 0, .start 0 .reset, .start 1 .ask, .go 1]
    s.history.filterMap SlotStep.installed? = [1, 2] ∧
      s.history.filterMap SlotStep.handedOut? = [1] := by
  decide

end SlotSystem

end PathSieve

/-
  What is done in a pool system.

  An act is an operation on the pools or one on an instance that somebody holds. The history
  of a run has every call that has reached a guest and every taint on purpose, with the id of
  the instance. An act is about one instance at most: it leaves all the others alone, and
  makes one at most (`mem_possessed_act`).
-/
import PathSieve.Proofs.Host.InstanceOps
import PathSieve.Proofs.Pool.Accounts

namespace PathSieve

open List

variable {μ σ : Type}

/-- Something that is done in a pool system. -/
inductive Act (μ : Type) where
  | poolOp (d : PoolOp μ)
  /-- An operation on the instance at a place. -/
  | instanceOp (place : Nat) (c : InstanceOp)

/-- What a history says of the instance with an id. -/
def Incident.about (id : Nat) (past : List (Nat × Incident)) : List Incident :=
  past.filterMap fun e => if e.1 = id then some e.2 else none

namespace PoolSystem

section Definitions

variable [Module μ σ] [Backend σ]

/-- The instances that somebody has. -/
def possessed (m : PoolSystem μ σ) : List (Instance σ) :=
  m.world.pools.flatMap Pool.idle ++ m.ledger.held.map Holding.inst

/-- The system after an operation on the instance at a place. -/
def instanceOp (m : PoolSystem μ σ) (place : Nat) (c : InstanceOp) : PoolSystem μ σ :=
  { m with
    ledger := { m.ledger with
      held := m.ledger.held.modify place fun h => { h with inst := h.inst.work c } } }

/-- The system after an act. -/
def act (m : PoolSystem μ σ) : Act μ → PoolSystem μ σ
  | .poolOp d => m.poolOp d
  | .instanceOp place c => m.instanceOp place c

/-- The system after acts, one after the other. -/
def run (m : PoolSystem μ σ) (acts : List (Act μ)) : PoolSystem μ σ :=
  acts.foldl act m

/-- The instance that an act is about, and the operation on it. To discard an instance is to
    taint it before it is given back. -/
def worked? (m : PoolSystem μ σ) : Act μ → Option (Instance σ × InstanceOp)
  | .instanceOp place c => m.ledger.held[place]?.map fun h => (h.inst, c)
  | .poolOp (.touch place t) => m.ledger.held[place]?.map fun h => (h.inst, .touch t)
  | .poolOp (.discard place) =>
    match m.ledger.held[place]? with
    | some ⟨some pool, inst⟩ => (m.world.lending? pool).map fun _ => (inst, .touch .taint)
    | _ => none
  | _ => none

/-- What happens during an act, and to which instance. -/
def incidents (m : PoolSystem μ σ) (a : Act μ) : List (Nat × Incident) :=
  match m.worked? a with
  | some (inst, c) => (inst.incidents c).map fun i => (inst.id, i)
  | none => []

/-- What happens during acts. -/
def history (m : PoolSystem μ σ) : List (Act μ) → List (Nat × Incident)
  | [] => []
  | a :: acts => m.incidents a ++ (m.act a).history acts

/-- What happens during acts to the instance with an id. -/
def historyOf (m : PoolSystem μ σ) (id : Nat) (acts : List (Act μ)) : List Incident :=
  Incident.about id (m.history acts)

end Definitions

end PoolSystem

namespace Lending

variable [Module μ σ]

/-- All that an `acquire` can do. -/
theorem acquire_cases (l : Lending μ σ) :
    (∃ inst rest, l.pool.idle = inst :: rest ∧
      l.acquire = (.ok inst, { l with pool := { l.pool with idle := rest }.countLeased })) ∨
    (∃ guest module, l.pool.idle = [] ∧
      Module.instantiate l.pool.module (instanceName l.nextId) = (.ok guest, module) ∧
      l.acquire =
        (.ok { id := l.nextId, poolId := l.pool.id, name := instanceName l.nextId, guest := guest },
          ⟨{ l.pool with module := module }.countCreated.countLeased, l.nextId + 1⟩)) ∨
    (∃ e module, l.pool.idle = [] ∧
      Module.instantiate l.pool.module (instanceName l.nextId) = (.error e, module) ∧
      l.acquire = (.error e, ⟨{ l.pool with module := module }, l.nextId + 1⟩)) := by
  unfold acquire Pool.popIdle?
  cases hidle : l.pool.idle with
  | cons inst rest => exact .inl ⟨inst, rest, rfl, rfl⟩
  | nil =>
    unfold instantiate
    rcases hmake : Module.instantiate l.pool.module (instanceName l.nextId) with ⟨e | guest, module⟩
    · exact .inr (.inr ⟨e, module, rfl, rfl, by simp only [hmake]⟩)
    · exact .inr (.inl ⟨guest, module, rfl, rfl, by simp only [hmake]⟩)

end Lending

/-- Has an instance just been made, by some module? -/
structure Instance.New (μ : Type) [Module μ σ] (inst : Instance σ) : Prop where
  untainted : inst.tainted = false
  made : ∃ module : μ, (Module.instantiate module inst.name).1 = .ok inst.guest

namespace PoolSystem

variable {m : PoolSystem μ σ} {inst w : Instance σ} {c : InstanceOp} {pool place : Nat}
  {l : Lending μ σ}

theorem possessed_alone (m : PoolSystem μ σ) : m.alone.possessed = m.possessed := by
  simp [ThreadedSystem.possessed, alone, possessed]

/-- Nobody has two instances of one id. -/
theorem eq_of_id_eq (h : m.alone.Books) (hi : inst ∈ m.possessed) (hw : w ∈ m.possessed)
    (hid : inst.id = w.id) : inst = w :=
  inj_on_of_nodup_map (possessed_alone m ▸ h.exclusive.possessed) hi hw hid

/-- The instances beside the one at a place, which have other ids. -/
theorem exists_others (h : m.alone.Books) {held : Holding σ}
    (hh : m.ledger.held[place]? = some held) :
    ∃ rest, m.ledger.held.eraseIdx place = rest ∧
      (∀ f : Holding σ → Holding σ, m.ledger.held.modify place f ~ f held :: rest) ∧
      ∀ inst ∈ m.world.pools.flatMap Pool.idle ++ rest.map Holding.inst,
        inst ∈ m.possessed ∧ held.inst.id ≠ inst.id := by
  obtain ⟨rest, hperm, hrest, hset⟩ := exists_perm_set hh
  have hpossessed : m.possessed ~
      held.inst :: (m.world.pools.flatMap Pool.idle ++ rest.map Holding.inst) :=
    ((hperm.map Holding.inst).append_left _).trans perm_middle
  refine ⟨rest, hrest, fun f => ?_, fun inst hi => ⟨hpossessed.mem_iff.mpr (.tail _ hi), ?_⟩⟩
  · rw [modify_eq_set_getElem?, hh]
    exact hset (f held)
  · have hnodup : (m.possessed.map Instance.id).Nodup := possessed_alone m ▸ h.exclusive.possessed
    rw [(hpossessed.map _).nodup_iff, map_cons, nodup_cons] at hnodup
    exact fun heq => hnodup.1 (heq ▸ mem_map_of_mem hi)

/-- What an act is about is in somebody's hands. -/
theorem mem_of_worked? [Backend σ] {a : Act μ} (h : m.worked? a = some (w, c)) :
    w ∈ m.possessed := by
  have hheld {place : Nat} {held : Holding σ} (hh : m.ledger.held[place]? = some held) :
      held.inst ∈ m.possessed :=
    mem_append_right _ (mem_map_of_mem (mem_of_getElem? hh))
  unfold worked? at h
  split at h
  · obtain ⟨held, hh, heq⟩ := Option.map_eq_some_iff.mp h
    obtain rfl : held.inst = w := congrArg Prod.fst heq
    exact hheld hh
  · obtain ⟨held, hh, heq⟩ := Option.map_eq_some_iff.mp h
    obtain rfl : held.inst = w := congrArg Prod.fst heq
    exact hheld hh
  · split at h
    · next pool inst hh =>
      obtain ⟨l, -, heq⟩ := Option.map_eq_some_iff.mp h
      obtain rfl : inst = w := congrArg Prod.fst heq
      exact hheld hh
    · cases h
  · cases h

theorem mem_settle {ledger : Ledger σ}
    (h : inst ∈ ({ world := m.world.settle l, ledger := ledger } : PoolSystem μ σ).possessed) :
    inst ∈ l.pool.idle ∨ inst ∈ m.world.pools.flatMap Pool.idle ∨
      inst ∈ ledger.held.map Holding.inst := by
  rcases mem_append.mp h with h | h
  · obtain ⟨pool, hpool, hi⟩ := mem_flatMap.mp h
    obtain ⟨p, hp, rfl⟩ := mem_map.mp hpool
    split at hi
    · exact .inl hi
    · exact .inr (.inl (mem_flatMap.mpr ⟨p, hp, hi⟩))
  · exact .inr (.inr h)

theorem mem_of_mem_idle (hl : m.world.lending? pool = some l) (h : inst ∈ l.pool.idle) :
    inst ∈ m.world.pools.flatMap Pool.idle :=
  mem_flatMap.mpr ⟨l.pool, (World.lending?_eq_some hl).1, h⟩

/-- To release an instance brings nobody another one. -/
theorem mem_possessed_release (hw : w ∈ m.possessed)
    (h : inst ∈ (m.release place pool w).possessed) : inst ∈ m.possessed := by
  unfold release at h
  cases hl : m.world.lending? pool with
  | none => simpa only [hl] using h
  | some l =>
    rw [hl] at h
    have hidle : inst ∈ (l.release w).pool.idle → inst ∈ m.possessed := by
      intro hi
      unfold Lending.release Pool.release at hi
      split at hi
      · exact mem_append_left _ (mem_of_mem_idle hl hi)
      · split at hi
        · exact mem_append_left _ (mem_of_mem_idle hl hi)
        · rcases mem_cons.mp hi with rfl | hi
          · exact hw
          · exact mem_append_left _ (mem_of_mem_idle hl hi)
    rcases mem_settle h with hi | hi | hi
    · exact hidle hi
    · exact mem_append_left _ hi
    · obtain ⟨held, hheld, rfl⟩ := mem_map.mp hi
      rw [Ledger.held_enter] at hheld
      exact mem_append_right _ (mem_map_of_mem (mem_of_mem_eraseIdx hheld))

/-- A discarded instance is gone. -/
theorem mem_possessed_discard (hb : m.alone.Books)
    (hh : m.ledger.held[place]? = some ⟨some pool, w⟩) (hl : m.world.lending? pool = some l)
    (h : inst ∈ (m.discard place pool w).possessed) : inst ∈ m.possessed ∧ w.id ≠ inst.id := by
  obtain ⟨rest, hrest, -, hothers⟩ := exists_others hb hh
  unfold discard at h
  rw [hl] at h
  have hidle : (l.pool.discard w).idle = l.pool.idle := by
    unfold Pool.discard Pool.release
    split <;> rfl
  refine hothers inst (mem_append.mpr ?_)
  rcases mem_settle h with hi | hi | hi
  · exact .inl (mem_of_mem_idle hl (hidle ▸ hi))
  · exact .inl hi
  · rw [Ledger.held_enter] at hi
    exact .inr (hrest ▸ hi)

/-- To let go of idle instances brings nobody one. -/
theorem mem_possessed_shrinkTo {keep : Nat} (h : inst ∈ (m.shrinkTo pool keep).possessed) :
    inst ∈ m.possessed := by
  unfold shrinkTo at h
  cases hl : m.world.lending? pool with
  | none => simpa only [hl] using h
  | some l =>
    rw [hl] at h
    rcases mem_settle h with hi | hi | hi
    · exact mem_append_left _ (mem_of_mem_idle hl (mem_of_mem_drop hi))
    · exact mem_append_left _ hi
    · exact mem_append_right _ hi

theorem mem_possessed_loseAt
    (h : inst ∈ ({ m with ledger := m.ledger.loseAt place } : PoolSystem μ σ).possessed) :
    inst ∈ m.possessed := by
  rcases mem_append.mp h with hi | hi
  · exact mem_append_left _ hi
  · refine mem_append_right _ (map_subset Holding.inst (fun held hheld => ?_) hi)
    unfold Ledger.loseAt at hheld
    split at hheld
    · exact hheld
    · exact mem_of_mem_eraseIdx hheld

theorem mem_possessed_unwrap
    (h : inst ∈ ({ m with ledger := m.ledger.unwrap place } : PoolSystem μ σ).possessed) :
    inst ∈ m.possessed := by
  have hheld : (m.ledger.unwrap place).held.map Holding.inst = m.ledger.held.map Holding.inst :=
    map_modify_of_eq (f := fun h : Holding σ => { h with lease? := none }) (fun _ => rfl) _ _
  rcases mem_append.mp h with hi | hi
  · exact mem_append_left _ hi
  · exact mem_append_right _ (hheld ▸ hi)

section Modules

variable [Module μ σ]

/-- One that is possessed after an `acquire` was so before, or has just been made. -/
theorem mem_possessed_acquire (h : inst ∈ (m.acquire pool).possessed) :
    inst ∈ m.possessed ∨ (m.world.nextInstanceId ≤ inst.id ∧ inst.New μ) := by
  unfold acquire at h
  cases hl : m.world.lending? pool with
  | none => exact .inl (by simpa only [hl] using h)
  | some l =>
    have hidle {i : Instance σ} (hi : i ∈ l.pool.idle) : i ∈ m.possessed :=
      mem_append_left _ (mem_of_mem_idle hl hi)
    rw [hl] at h
    dsimp only at h
    rcases l.acquire_cases with ⟨i, rest, hi, heq⟩ | ⟨guest, module, hi, hmake, heq⟩ |
      ⟨e, module, hi, -, heq⟩ <;> rw [heq] at h <;>
      rcases mem_settle h with h | h | h
    · exact .inl (hidle (hi ▸ mem_cons_of_mem i h))
    · exact .inl (mem_append_left _ h)
    · simp only [hi, isEmpty_cons, Bool.false_eq_true, if_false, Ledger.hold, map_cons,
        mem_cons] at h
      rcases h with rfl | h
      · exact .inl (hidle (hi ▸ mem_cons_self))
      · exact .inl (mem_append_right _ h)
    · exact .inl (hidle h)
    · exact .inl (mem_append_left _ h)
    · simp only [hi, isEmpty_nil, if_true, Ledger.hold, Ledger.make, map_cons, mem_cons] at h
      rcases h with rfl | h
      · refine .inr ⟨Nat.le_of_eq (World.lending?_eq_some hl).2.2.symm, rfl, l.pool.module, ?_⟩
        exact congrArg Prod.fst hmake
      · exact .inl (mem_append_right _ h)
    · exact .inl (hidle h)
    · exact .inl (mem_append_left _ h)
    · exact .inl (mem_append_right _ h)

end Modules

variable [Backend σ]

/-- An operation is done on the instance at a place, and the others are left as they are. -/
theorem mem_possessed_instanceOp (hb : m.alone.Books)
    (h : inst ∈ (m.instanceOp place c).possessed) :
    (inst ∈ m.possessed ∧ ∀ held, m.ledger.held[place]? = some held → held.inst.id ≠ inst.id) ∨
      ∃ held, m.ledger.held[place]? = some held ∧ inst = held.inst.work c := by
  unfold instanceOp at h
  cases hh : m.ledger.held[place]? with
  | none =>
    rw [modify_eq_set_getElem?, hh] at h
    exact .inl ⟨h, fun _ h => by cases h⟩
  | some held =>
    obtain ⟨rest, -, hmodify, hothers⟩ := exists_others hb hh
    have hperm := (hmodify fun h => { h with inst := h.inst.work c }).map Holding.inst
    rcases mem_append.mp h with hi | hi
    · obtain ⟨hmem, hne⟩ := hothers inst (mem_append_left _ hi)
      exact .inl ⟨hmem, fun _ heq => Option.some.inj heq ▸ hne⟩
    · rcases mem_cons.mp (hperm.mem_iff.mp hi) with rfl | hi
      · exact .inr ⟨held, rfl, rfl⟩
      · obtain ⟨hmem, hne⟩ := hothers inst (mem_append_right _ hi)
        exact .inl ⟨hmem, fun _ heq => Option.some.inj heq ▸ hne⟩

variable [Module μ σ]

theorem poolOp_touch (m : PoolSystem μ σ) (place : Nat) (t : Touch) :
    m.poolOp (.touch place t) = m.instanceOp place (.touch t) := by
  simp only [poolOp, instanceOp, Ledger.touch, Instance.work_touch]

/-- Where an instance that somebody has after an act comes from. -/
inductive Origin (m : PoolSystem μ σ) (a : Act μ) (inst : Instance σ) : Prop where
  /-- The act leaves the instance alone. -/
  | left (mem : inst ∈ m.possessed) (ne : ∀ w c, m.worked? a = some (w, c) → w.id ≠ inst.id)
  | worked (w : Instance σ) (c : InstanceOp) (worked : m.worked? a = some (w, c))
    (eq : inst = w.work c)
  | made (worked : m.worked? a = none) (id_le : m.world.nextInstanceId ≤ inst.id)
    (new : inst.New μ)

variable {a : Act μ}

/-- An act that is no operation on an instance leaves all that were there alone. -/
theorem Origin.of_worked?_eq_none (hworked : m.worked? a = none) (hmem : inst ∈ m.possessed) :
    m.Origin a inst :=
  .left hmem fun w c hw => by
    rw [hworked] at hw
    cases hw

/-- An operation on the instance at a place, as such or as a touch. -/
theorem origin_instanceOp (hb : m.alone.Books)
    (hworked : m.worked? a = m.ledger.held[place]?.map fun h => (h.inst, c))
    (h : inst ∈ (m.instanceOp place c).possessed) : m.Origin a inst := by
  rcases mem_possessed_instanceOp hb h with ⟨hmem, hne⟩ | ⟨held, hh, rfl⟩
  · refine .left hmem fun w c' hw => ?_
    rw [hworked] at hw
    obtain ⟨held, hh, heq⟩ := Option.map_eq_some_iff.mp hw
    obtain ⟨rfl, -⟩ := Prod.mk.inj heq
    exact hne held hh
  · exact .worked held.inst c (by rw [hworked, hh]; rfl) rfl

/-- The end of a lease, or of the holding of a bare instance, brings nobody another one. -/
theorem mem_possessed_poolOp_drop (h : inst ∈ (m.poolOp (.drop place)).possessed) :
    inst ∈ m.possessed := by
  unfold poolOp at h
  dsimp only at h
  split at h
  · next pool held hh =>
    exact mem_possessed_release (mem_append_right _ (mem_map_of_mem (mem_of_getElem? hh))) h
  · exact h

theorem mem_possessed_poolOp_release (h : inst ∈ (m.poolOp (.release place pool)).possessed) :
    inst ∈ m.possessed := by
  unfold poolOp at h
  dsimp only at h
  split at h
  · next held hh =>
    exact mem_possessed_release (mem_append_right _ (mem_map_of_mem (mem_of_getElem? hh))) h
  · exact h

/-- To discard an instance leaves the others alone. Nothing happens at a place where there is
    no lease, or none of a pool that there is. -/
theorem origin_discard (hb : m.alone.Books)
    (h : inst ∈ (m.poolOp (.discard place)).possessed) :
    m.Origin (.poolOp (.discard place)) inst := by
  unfold poolOp at h
  dsimp only at h
  split at h
  · next pool held hh =>
    cases hl : m.world.lending? pool with
    | none =>
      refine .of_worked?_eq_none (by simp [worked?, hh, hl]) ?_
      simpa only [discard, hl] using h
    | some l =>
      obtain ⟨hmem, hne⟩ := mem_possessed_discard hb hh hl h
      refine .left hmem fun w c hw => ?_
      simp only [worked?, hh, hl, Option.map_some, Option.some.injEq, Prod.mk.injEq] at hw
      exact hw.1 ▸ hne
  · next hother =>
    refine .of_worked?_eq_none ?_ h
    unfold worked?
    dsimp only
    split
    · next pool held hh => exact absurd hh (hother pool held)
    · rfl

/-- All that an act can do to those who have an instance: it leaves the instance alone, it
    is an operation on it, or it makes it. -/
theorem mem_possessed_act (hb : m.alone.Books) (h : inst ∈ (m.act a).possessed) :
    m.Origin a inst := by
  cases a with
  | instanceOp place c => exact origin_instanceOp hb rfl h
  | poolOp d =>
    cases d with
    | openPool module config =>
      refine .of_worked?_eq_none rfl ?_
      simpa [act, poolOp, openPool, World.addPool, possessed] using h
    | acquire pool =>
      rcases mem_possessed_acquire h with hmem | ⟨hid, hnew⟩
      · exact .of_worked?_eq_none rfl hmem
      · exact .made rfl hid hnew
    | drop place => exact .of_worked?_eq_none rfl (mem_possessed_poolOp_drop h)
    | discard place => exact origin_discard hb h
    | unwrap place => exact .of_worked?_eq_none rfl (mem_possessed_unwrap h)
    | release place pool => exact .of_worked?_eq_none rfl (mem_possessed_poolOp_release h)
    | lose place => exact .of_worked?_eq_none rfl (mem_possessed_loseAt h)
    | touch place t => exact origin_instanceOp hb rfl (poolOp_touch m place t ▸ h)
    | shrinkTo pool keep => exact .of_worked?_eq_none rfl (mem_possessed_shrinkTo h)

end PoolSystem

end PathSieve

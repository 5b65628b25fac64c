/-
  What the counters of a pool say.

  An operation is what a single thread does at the pools when it is left alone: each one is a
  run of turns of one thread (`exists_run_poolOp`), at whose end the thread is ready again. So
  the books are right after any operations, and the counters of every pool are true counts
  (`Accounted`): of its idle instances, of those acquired that have not come back to it, of
  those it has made and of those it has dropped.
-/
import PathSieve.Proofs.Pool.Exclusive

namespace PathSieve

open List

variable {μ σ : Type}

namespace World

variable {w : World μ σ} {id : Nat} {l l' : Lending μ σ}

theorem pool?_settle (w : World μ σ) (l : Lending μ σ) (id : Nat) :
    (w.settle l).pool? id = (w.pool? id).map fun p => if p.id = l.pool.id then l.pool else p := by
  have hid : ∀ p : Pool μ σ, (if p.id = l.pool.id then l.pool else p).id = p.id := by
    intro p
    by_cases h : p.id = l.pool.id <;> simp [h]
  simp only [pool?, settle, find?_map, Function.comp_def, hid]

theorem lending?_settle (h : w.lending? id = some l) (hid : l'.pool.id = l.pool.id) :
    (w.settle l').lending? id = some l' := by
  simp only [lending?, Option.map_eq_some_iff] at h
  obtain ⟨pool, hpool, rfl⟩ := h
  rw [lending?, pool?_settle, hpool, Option.map_some, if_pos hid.symm]
  rfl

theorem settle_settle (w : World μ σ) (h : l'.pool.id = l.pool.id) :
    (w.settle l).settle l' = w.settle l' := by
  simp only [settle, map_map, World.mk.injEq, and_true]
  refine map_congr_left fun p _ => ?_
  by_cases hp : p.id = l.pool.id <;> simp [hp, h]

/-- A pool that has not changed is settled as it was. -/
theorem Numbered.settle_self (hn : w.Numbered) (h : w.lending? id = some l) : w.settle l = w := by
  obtain ⟨hmem, -, hnext⟩ := lending?_eq_some h
  have hpools : w.pools.map (fun p => if p.id = l.pool.id then l.pool else p) = w.pools := by
    refine (map_congr_left fun p hp => ?_).trans (map_id _)
    by_cases hid : p.id = l.pool.id
    · rw [if_pos hid]
      exact (inj_on_of_nodup_map hn.nodup hp hmem hid).symm
    · exact if_neg hid
  simp only [World.settle, hpools, hnext]

end World

namespace Scene

variable {c : Scene μ σ}

/-- Is the thread ready, or busy at the pool of the scene? -/
def Local (c : Scene μ σ) : Prop :=
  ∀ pool ∈ c.stage.pool?, pool = c.lending.pool.id

theorem Local.start (h : c.Local) (call : PoolCall) : (c.start call).Local := by
  unfold Local
  rw [pool_id_start]
  cases call with
  | acquire =>
    simp only [Scene.start, pop, Pool.popIdle?]
    cases c.lending.pool.idle <;> simp
  | release place =>
    simp only [Scene.start, giveBack]
    cases c.ledger.held[place]? with
    | none => exact h
    | some held =>
      dsimp only
      split
      · exact h
      · split
        · exact h
        · simp
  | shrinkTo keep => simp [Scene.start, split, Pool.splitIdle]

variable [Module μ σ]

theorem go_of_ready (h : c.stage.pool? = none) : c.go = c := by
  unfold go
  cases hs : c.stage with
  | ready => rfl
  | _ => simp [hs] at h

theorem Local.go (h : c.Local) : c.go.Local := by
  unfold Local at h ⊢
  rw [pool_id_go]
  unfold Scene.go
  cases hs : c.stage with
  | drawn pool id =>
    simp only [instantiate]
    rcases Module.instantiate c.lending.pool.module (Lending.instanceName id) with ⟨_ | _, _⟩ <;>
      simp
  | returned pool inst =>
    simp only [keep]
    split <;> simp
  | ready => simp [hs]
  | missed pool => simpa [hs, draw] using h
  | made pool inst => simpa [hs, countCreated] using h
  | taken pool inst => simp [countLeased]
  | split pool gone => simp [countSplit]

/-- The steps of `acquire` make up the whole of it. -/
theorem iterate_go_acquire (l : Lending μ σ) (ledger : Ledger σ) :
    Scene.go^[4] (start ⟨.ready, l, ledger⟩ .acquire) =
      match l.acquire with
      | (.error _, l') => ⟨.ready, l', ledger⟩
      | (.ok inst, l') =>
        let ledger := if l.pool.idle.isEmpty then ledger.make inst else ledger
        ⟨.ready, l', ledger.hold l.pool.id inst⟩ := by
  unfold Lending.acquire
  cases hidle : l.pool.idle with
  | nil =>
    simp only [Function.iterate_succ, Function.iterate_zero, Function.comp_apply, id_eq,
      Scene.start, pop, Pool.popIdle?, hidle, Scene.go, draw, instantiate, Lending.instantiate]
    cases (Module.instantiate l.pool.module (Lending.instanceName l.nextId)).1 with
    | error e => rfl
    | ok guest => rfl
  | cons inst rest =>
    simp [Scene.start, pop, Pool.popIdle?, hidle, Scene.go, countLeased]

/-- So do the steps of `release`. -/
theorem iterate_go_release (l : Lending μ σ) {ledger : Ledger σ} {place : Nat} {h : Holding σ}
    (hh : ledger.held[place]? = some h) (hreturns : h.returnsTo l.pool.id) :
    Scene.go^[1] (start ⟨.ready, l, ledger⟩ (.release place)) =
      ⟨.ready, l.release h.inst, (ledger.yield place).enter l.pool.id h.inst⟩ := by
  simp only [Function.iterate_one, Scene.start, giveBack, hh, hreturns, not_true_eq_false,
    if_false, Lending.release, Pool.release, Ledger.enter]
  by_cases hown : h.inst.poolId = l.pool.id
  · cases ht : h.inst.tainted <;> simp [hown, ht, Scene.go, keep]
  · simp [hown, Scene.go]

/-- And so do those of `shrinkTo`. -/
theorem iterate_go_shrinkTo (l : Lending μ σ) (ledger : Ledger σ) (keep : Nat) :
    Scene.go^[1] (start ⟨.ready, l, ledger⟩ (.shrinkTo keep)) =
      ⟨.ready, { l with pool := (l.pool.shrinkTo keep).2 },
        ledger.drop (l.pool.idle.take (l.pool.idle.length - keep))⟩ := by
  simp [Scene.start, split, Pool.splitIdle, Scene.go, countSplit, Pool.shrinkTo]

end Scene

namespace ThreadedSystem

variable {s : ThreadedSystem μ σ} {c c' : Scene μ σ} {thread pool : Nat}

theorem scene?_play (h : s.scene? thread pool = some c)
    (hid : c'.lending.pool.id = c.lending.pool.id) :
    (s.play thread c').scene? thread pool = some c' := by
  obtain ⟨hstage, hlending, -⟩ := scene?_eq_some h
  have hlt : thread < s.threads.length := (List.getElem?_eq_some_iff.mp hstage).1
  simp [scene?, play, World.lending?_settle hlending hid, hlt]

theorem play_play (s : ThreadedSystem μ σ) (thread : Nat)
    (hid : c'.lending.pool.id = c.lending.pool.id) :
    (s.play thread c).play thread c' = s.play thread c' := by
  simp only [play, World.settle_settle _ hid, set_set]

variable [Module μ σ] [Backend σ]

/-- The next step of a thread is a step of its scene. -/
theorem turn_go_play (h : s.scene? thread pool = some c)
    (hid : c'.lending.pool.id = c.lending.pool.id) (hlocal : c'.Local) :
    (s.play thread c').turn (.go thread) = s.play thread c'.go := by
  have hscene := scene?_play h hid
  obtain ⟨hstage, -, -⟩ := scene?_eq_some hscene
  obtain ⟨-, hlending, -⟩ := scene?_eq_some h
  simp only [turn, hstage, Option.bind_some]
  cases hpool : c'.stage.pool? with
  | none => simp [Scene.go_of_ready hpool]
  | some own =>
    -- the thread looks its pool up again, and finds the scene as it has left it
    obtain rfl : own = pool := by
      rw [hlocal own hpool, hid]
      exact (World.lending?_eq_some hlending).2.1
    rw [Option.bind_some, hscene]
    exact play_play s thread (Scene.pool_id_go c')

theorem run_go_play (h : s.scene? thread pool = some c)
    (hid : c'.lending.pool.id = c.lending.pool.id) (hlocal : c'.Local) (n : Nat) :
    (s.play thread c').run (replicate n (.go thread)) = s.play thread (Scene.go^[n] c') := by
  induction n generalizing c' with
  | zero => rfl
  | succ n ih =>
    have hstep := turn_go_play h hid hlocal
    simp only [run, replicate_succ, foldl_cons] at ih ⊢
    rw [hstep]
    exact ih ((Scene.pool_id_go c').trans hid) hlocal.go

end ThreadedSystem

namespace PoolSystem

variable [Module μ σ] [Backend σ] {m : PoolSystem μ σ} {l l' : Lending μ σ} {pool : Nat}

/-- The system with one thread, which is ready. -/
def alone (m : PoolSystem μ σ) : ThreadedSystem μ σ :=
  { m with threads := [.ready] }

/-- A thread that is left alone at a call brings it to its end. -/
theorem run_errand (hl : m.world.lending? pool = some l) (call : PoolCall) (n : Nat)
    {ledger : Ledger σ}
    (hdone : Scene.go^[n] (Scene.start ⟨.ready, l, m.ledger⟩ call) = ⟨.ready, l', ledger⟩) :
    m.alone.run (.start 0 pool call :: replicate n (.go 0)) =
      ({ world := m.world.settle l', ledger := ledger } : PoolSystem μ σ).alone := by
  have hscene : m.alone.scene? 0 pool = some ⟨.ready, l, m.ledger⟩ := by
    simp [ThreadedSystem.scene?, alone, hl]
  have hstart : m.alone.turn (.start 0 pool call) =
      m.alone.play 0 (Scene.start ⟨.ready, l, m.ledger⟩ call) := by
    simp only [ThreadedSystem.turn, hscene]
  have hlocal : Scene.Local (Scene.start ⟨.ready, l, m.ledger⟩ call) :=
    Scene.Local.start (by simp [Scene.Local]) call
  have hrun := ThreadedSystem.run_go_play hscene (Scene.pool_id_start _ call) hlocal n
  rw [hdone] at hrun
  simp only [ThreadedSystem.run, foldl_cons, hstart] at hrun ⊢
  exact hrun

theorem exists_run_acquire (m : PoolSystem μ σ) (pool : Nat) :
    ∃ turns, m.alone.run turns = (m.acquire pool).alone := by
  unfold acquire
  cases hl : m.world.lending? pool with
  | none => exact ⟨[], rfl⟩
  | some l =>
    obtain ⟨-, rfl, -⟩ := World.lending?_eq_some hl
    have hsteps := Scene.iterate_go_acquire l m.ledger
    dsimp only
    rcases hacq : l.acquire with ⟨_ | inst, l'⟩ <;> rw [hacq] at hsteps
    · exact ⟨_, run_errand hl .acquire 4 hsteps⟩
    · exact ⟨_, run_errand hl .acquire 4 hsteps⟩

theorem exists_run_release (m : PoolSystem μ σ) {place : Nat} {h : Holding σ}
    (hh : m.ledger.held[place]? = some h) (hreturns : h.returnsTo pool) :
    ∃ turns, m.alone.run turns = (m.release place pool h.inst).alone := by
  unfold release
  cases hl : m.world.lending? pool with
  | none => exact ⟨[], rfl⟩
  | some l =>
    obtain ⟨-, rfl, -⟩ := World.lending?_eq_some hl
    exact ⟨_, run_errand hl (.release place) 1 (Scene.iterate_go_release l hh hreturns)⟩

theorem exists_run_discard (m : PoolSystem μ σ) {place : Nat} {inst : Instance σ}
    (hh : m.ledger.held[place]? = some ⟨some pool, inst⟩) :
    ∃ turns, m.alone.run turns = (m.discard place pool inst).alone := by
  unfold discard
  cases hl : m.world.lending? pool with
  | none => exact ⟨[], rfl⟩
  | some l =>
    have hh' : (m.ledger.touch place .taint).held[place]? = some ⟨some pool, inst.taint⟩ := by
      simp only [Ledger.touch, getElem?_modify_eq, hh]
      rfl
    have hreturns : Holding.returnsTo ⟨some pool, inst.taint⟩ pool := by
      simp [Holding.returnsTo]
    -- the instance is tainted first, and then released like any other
    obtain ⟨turns, hturns⟩ := exists_run_release
      { m with ledger := m.ledger.touch place .taint } hh' hreturns
    refine ⟨.touch place .taint :: turns, Eq.trans hturns ?_⟩
    simp only [release, hl, Ledger.yield, Ledger.touch, eraseIdx_modify_of_eq]
    rfl

theorem exists_run_shrinkTo (m : PoolSystem μ σ) (pool keep : Nat) :
    ∃ turns, m.alone.run turns = (m.shrinkTo pool keep).alone := by
  unfold shrinkTo
  cases hl : m.world.lending? pool with
  | none => exact ⟨[], rfl⟩
  | some l =>
    exact ⟨_, run_errand hl (.shrinkTo keep) 1 (Scene.iterate_go_shrinkTo l m.ledger keep)⟩

/-- Whatever an operation does, a thread that is left alone does it step by step. -/
theorem exists_run_poolOp (m : PoolSystem μ σ) (d : PoolOp μ) :
    ∃ turns, m.alone.run turns = (m.poolOp d).alone := by
  cases d with
  | openPool module config => exact ⟨[.openPool module config], rfl⟩
  | acquire pool => exact exists_run_acquire m pool
  | drop place =>
    unfold poolOp
    dsimp only
    split
    · rename_i pool inst hh
      exact exists_run_release m hh (by simp [Holding.returnsTo])
    · exact ⟨[], rfl⟩
  | discard place =>
    unfold poolOp
    dsimp only
    split
    · rename_i pool inst hh
      exact exists_run_discard m hh
    · exact ⟨[], rfl⟩
  | unwrap place => exact ⟨[.unwrap place], rfl⟩
  | release place pool =>
    unfold poolOp
    dsimp only
    split
    · rename_i inst hh
      exact exists_run_release m hh (by simp [Holding.returnsTo])
    · exact ⟨[], rfl⟩
  | lose place => exact ⟨[.lose place], rfl⟩
  | touch place t => exact ⟨[.touch place t], rfl⟩
  | shrinkTo pool keep => exact exists_run_shrinkTo m pool keep

theorem books_after (ops : List (PoolOp μ)) : (after ops : PoolSystem μ σ).alone.Books := by
  have hfold : ∀ m : PoolSystem μ σ, m.alone.Books → (ops.foldl poolOp m).alone.Books := by
    induction ops with
    | nil => exact fun _ h => h
    | cons d ops ih =>
      intro m h
      obtain ⟨turns, hturns⟩ := exists_run_poolOp m d
      exact ih _ (hturns ▸ h.run turns)
  exact hfold {} (ThreadedSystem.books_ofThreads 1)

omit [Module μ σ] [Backend σ] in
/-- To release an instance to a pool that is not its own changes no pool. -/
theorem world_release_of_ne {place : Nat} {inst : Instance σ} (hn : m.world.Numbered)
    (hforeign : inst.poolId ≠ pool) : (m.release place pool inst).world = m.world := by
  unfold release
  cases hl : m.world.lending? pool with
  | none => rfl
  | some l =>
    obtain ⟨-, hid, -⟩ := World.lending?_eq_some hl
    have hself : l.release inst = l := by
      simp only [Lending.release, Pool.release, hid, if_pos hforeign]
    dsimp only
    rw [hself, hn.settle_self hl]

/-- The counters of a pool are true counts, and they add up. -/
structure Accounted (m : PoolSystem μ σ) (pool : Pool μ σ) : Prop where
  stats_eq : pool.stats =
    { idle := pool.idle.length
      leased := m.ledger.out pool.id
      created := m.ledger.madeBy pool.id
      discarded := m.ledger.droppedOf pool.id }
  balanced : (pool.stats.idle : Int) + pool.stats.leased + pool.stats.discarded =
    pool.stats.created
  leased_nonneg : 0 ≤ pool.stats.leased

/-- The counters of all pools are true counts of instances, of which each is on the roll once
    and in one place. -/
structure Accounts (m : PoolSystem μ σ) : Prop where
  accounted : ∀ pool ∈ m.world.pools, m.Accounted pool
  ids : (m.ledger.made.map Identity.id).Nodup
  placed : (m.world.pools.flatMap Pool.idle).map Instance.identity ++ m.ledger.placed ~
    m.ledger.made
  /-- To release an instance to a pool that is not its own changes no pool. -/
  foreign : ∀ place pool held, m.ledger.held[place]? = some held → held.inst.poolId ≠ pool →
    (m.poolOp (.release place pool)).world = m.world

/-- Whatever is done with any number of pools over any modules, the counters of each pool are
    true counts. -/
theorem accounts_after (ops : List (PoolOp μ)) : (after ops : PoolSystem μ σ).Accounts := by
  have h : (after ops : PoolSystem μ σ).alone.Books := books_after ops
  have hquiet : (after ops : PoolSystem μ σ).alone.Quiet := fun st hst => mem_singleton.mp hst
  refine ⟨fun pool hpool => ⟨?_, h.balanced hquiet hpool, h.exclusive.leased pool hpool⟩,
    h.nodup_ids, ?_, fun place pool held hheld hforeign => ?_⟩
  · rw [Pool.stats, h.leased_eq hpool, h.created_eq hquiet hpool, h.discarded_eq hpool]
    rfl
  · simpa [ThreadedSystem.possessed, alone, Ledger.placed, Function.comp_def] using h.placed_perm
  · unfold poolOp
    simp only [hheld]
    split
    · rename_i inst heq
      obtain rfl := Option.some.inj heq
      exact world_release_of_ne h.numbered hforeign
    · rfl

/-- An instance is released to a pool that is not its own, and another one is discarded. -/
example :
    let m : PoolSystem GuestModule Guest := after
      [.openPool ⟨1, 1⟩ {}, .openPool ⟨1, 1⟩ {}, .acquire 1, .acquire 1, .unwrap 0, .release 0 2,
        .discard 0, .acquire 2]
    m.world.pools.map Pool.stats = [⟨0, 1, 1, 0⟩, ⟨0, 1, 2, 1⟩] := by
  decide

end PoolSystem

end PathSieve

/-
  The books of a pool system with threads.

  The books are right (`Books`) if each instance made is in one place, each id drawn is used
  once, and each counter of a pool is short of what the ledger says by just those instances
  that a thread has in its hands and has not counted yet. A fair change (`Fair`) takes from
  one place what it puts into another, and moves a counter with what it counts; it keeps the
  books right. A step of a thread changes its scene only, so it is fair if the change of the
  scene is fair (`fair_play`).
-/
import Mathlib.Algebra.BigOperators.Group.List.Basic
import Mathlib.Algebra.Ring.Int.Defs
import PathSieve.Proofs.Pool.Threads

namespace PathSieve

open List

variable {μ σ : Type}

namespace Pool

/-- What a counter of the pool with an id says; zero if there is no such pool. -/
def tally (counter : Pool μ σ → Int) (id : Nat) (pools : List (Pool μ σ)) : Int :=
  (pools.map fun pool => if pool.id = id then counter pool else 0).sum

/-- What waits in a pool belongs to it and is untainted. -/
def Proper (pool : Pool μ σ) : Prop :=
  ∀ inst ∈ pool.idle, inst.poolId = pool.id ∧ inst.tainted = false

theorem tally_cons (counter : Pool μ σ → Int) (id : Nat) (pool : Pool μ σ)
    (pools : List (Pool μ σ)) :
    tally counter id (pool :: pools) =
      (if pool.id = id then counter pool else 0) + tally counter id pools := by
  simp [tally]

theorem tally_perm {pools pools' : List (Pool μ σ)} (h : pools ~ pools')
    (counter : Pool μ σ → Int) (id : Nat) : tally counter id pools = tally counter id pools' :=
  (h.map _).sum_eq

theorem tally_of_ne {pools : List (Pool μ σ)} {id : Nat} (h : ∀ pool ∈ pools, pool.id ≠ id)
    (counter : Pool μ σ → Int) : tally counter id pools = 0 :=
  sum_eq_zero fun n hn => by
    obtain ⟨pool, hpool, rfl⟩ := mem_map.mp hn
    exact if_neg (h pool hpool)

end Pool

namespace World

/-- The pools have ids of their own, and the next one is new. -/
structure Numbered (w : World μ σ) : Prop where
  nodup : (w.pools.map Pool.id).Nodup
  lt_next : ∀ pool ∈ w.pools, pool.id < w.nextPoolId

variable {w w' : World μ σ}

theorem lending?_eq_some {id : Nat} {l : Lending μ σ} (h : w.lending? id = some l) :
    l.pool ∈ w.pools ∧ l.pool.id = id ∧ l.nextId = w.nextInstanceId := by
  simp only [lending?, pool?, Option.map_eq_some_iff] at h
  obtain ⟨pool, hfind, rfl⟩ := h
  exact ⟨mem_of_find?_eq_some hfind, by simpa using find?_some hfind, rfl⟩

/-- One pool of several, and what is left beside it when it stays or is settled. -/
theorem Numbered.exists_perm_settle (hn : w.Numbered) {pool : Pool μ σ} (h : pool ∈ w.pools) :
    ∃ rest, w.pools ~ pool :: rest ∧ (∀ other ∈ rest, other.id ≠ pool.id) ∧
      ∀ l : Lending μ σ, l.pool.id = pool.id → (w.settle l).pools ~ l.pool :: rest := by
  obtain ⟨i, hi⟩ := getElem?_of_mem h
  obtain ⟨rest, hperm, -, -⟩ := exists_perm_set hi
  have hnodup : ((pool :: rest).map Pool.id).Nodup := (hperm.map _).nodup_iff.mp hn.nodup
  have hother : ∀ other ∈ rest, other.id ≠ pool.id := fun other hmem heq =>
    (nodup_cons.mp hnodup).1 (heq ▸ mem_map_of_mem hmem)
  refine ⟨rest, hperm, hother, fun l hid => ?_⟩
  -- settling goes by the id, which no other pool has
  have hrest : rest.map (fun p => if p.id = l.pool.id then l.pool else p) = rest :=
    (map_congr_left fun p hp => if_neg (hid ▸ hother p hp)).trans (map_id _)
  have hsettle := hperm.map fun p => if p.id = l.pool.id then l.pool else p
  rwa [map_cons, if_pos hid.symm, hrest] at hsettle

/-- The ids of all pools. -/
def ids (w : World μ σ) : List Nat :=
  w.pools.map Pool.id

@[simp] theorem ids_settle (w : World μ σ) (l : Lending μ σ) : (w.settle l).ids = w.ids := by
  rw [ids, settle, map_map]
  refine map_congr_left fun p _ => ?_
  by_cases h : p.id = l.pool.id <;> simp [h]

/-- At most one pool is opened from one world to the next, under the next id. -/
def Grows (w w' : World μ σ) : Prop :=
  w'.ids = w.ids ∧ w'.nextPoolId = w.nextPoolId ∨
    w'.ids = w.nextPoolId :: w.ids ∧ w'.nextPoolId = w.nextPoolId + 1

theorem Grows.subset (h : w.Grows w') : w.ids ⊆ w'.ids := by
  obtain ⟨hids, -⟩ | ⟨hids, -⟩ := h <;> rw [hids]
  · exact Subset.refl _
  · exact subset_cons_self _ _

theorem numbered_iff : w.Numbered ↔ w.ids.Nodup ∧ ∀ id ∈ w.ids, id < w.nextPoolId := by
  constructor
  · intro h
    refine ⟨h.nodup, fun id hid => ?_⟩
    obtain ⟨pool, hpool, rfl⟩ := mem_map.mp hid
    exact h.lt_next pool hpool
  · rintro ⟨hnodup, hlt⟩
    exact ⟨hnodup, fun pool hpool => hlt _ (mem_map_of_mem hpool)⟩

theorem Numbered.grows (hn : w.Numbered) (h : w.Grows w') : w'.Numbered := by
  rw [numbered_iff] at hn ⊢
  obtain ⟨hids, hnext⟩ | ⟨hids, hnext⟩ := h <;> rw [hids, hnext]
  · exact hn
  · refine ⟨nodup_cons.mpr ⟨fun hmem => Nat.lt_irrefl _ (hn.2 _ hmem), hn.1⟩, fun id hid => ?_⟩
    rcases mem_cons.mp hid with rfl | hid
    · exact Nat.lt_succ_self _
    · exact Nat.lt_succ_of_lt (hn.2 id hid)

theorem Numbered.settle (hn : w.Numbered) (l : Lending μ σ) : (w.settle l).Numbered :=
  hn.grows (.inl ⟨ids_settle w l, rfl⟩)

theorem Numbered.addPool (hn : w.Numbered) (module : μ) (config : Config) :
    (w.addPool module config).2.Numbered :=
  hn.grows (.inr ⟨rfl, rfl⟩)

end World

/-- A thread is busy at the pool that the instances in its hands belong to. -/
def Stage.Proper (st : Stage σ) : Prop :=
  ∀ inst ∈ st.hands, st.pool? = some inst.poolId

namespace ThreadedSystem

/-- Where the instances are. -/
def placed (s : ThreadedSystem μ σ) : List Identity :=
  s.world.pools.flatMap (·.idle.map Instance.identity) ++
    s.threads.flatMap (·.hands.map Instance.identity) ++ s.ledger.placed

/-- The ids that have been drawn, but for those of refused instances. -/
def issued (s : ThreadedSystem μ σ) : List Nat :=
  s.ledger.made.map Identity.id ++ s.threads.flatMap Stage.ids

/-- The instances of a pool that have been made and are not counted yet. -/
def uncounted (s : ThreadedSystem μ σ) (id : Nat) : Nat :=
  (s.threads.flatMap (·.uncounted.map Instance.identity)).countP (·.poolId = id)

/-- What a counter of the pool with an id says. -/
def tally (s : ThreadedSystem μ σ) (counter : Pool μ σ → Int) (id : Nat) : Int :=
  Pool.tally counter id s.world.pools

/-- Pools and threads have only what belongs to them. -/
structure Proper (s : ThreadedSystem μ σ) : Prop where
  pools : ∀ pool ∈ s.world.pools, pool.Proper
  threads : ∀ st ∈ s.threads, st.Proper

/-- The books are right. -/
structure Books (s : ThreadedSystem μ σ) : Prop where
  numbered : s.world.Numbered
  proper : s.Proper
  placed : ∀ q, s.placed.countP q = s.ledger.made.countP q
  issued : ∀ n, s.issued.count n ≤ (range s.world.nextInstanceId).count n
  named : ∀ b ∈ s.ledger.made, b.name = Lending.instanceName b.id
  leased : ∀ id, s.tally (·.leased) id = s.ledger.out id
  created : ∀ id, s.tally (·.created) id + s.uncounted id = s.ledger.madeBy id
  discarded : ∀ id, s.tally (·.discarded) id = s.ledger.droppedOf id

/-- A change that is paid for: what one place loses another one gains, and every counter
    goes with what it counts. -/
structure Fair (s s' : ThreadedSystem μ σ) : Prop where
  proper : s.Proper → s'.Proper
  placed : ∀ q, s'.placed.countP q + s.ledger.made.countP q =
    s.placed.countP q + s'.ledger.made.countP q
  issued : ∀ n, s'.issued.count n + (range s.world.nextInstanceId).count n ≤
    s.issued.count n + (range s'.world.nextInstanceId).count n
  named : ∀ b ∈ s'.ledger.made, b ∈ s.ledger.made ∨ b.name = Lending.instanceName b.id
  leased : ∀ id, s'.tally (·.leased) id + s.ledger.out id =
    s.tally (·.leased) id + s'.ledger.out id
  created : ∀ id, s'.tally (·.created) id + s'.uncounted id + s.ledger.madeBy id =
    s.tally (·.created) id + s.uncounted id + s'.ledger.madeBy id
  discarded : ∀ id, s'.tally (·.discarded) id + s.ledger.droppedOf id =
    s.tally (·.discarded) id + s'.ledger.droppedOf id

variable {s s' : ThreadedSystem μ σ}

/-- Fair changes keep the books right. -/
theorem Books.fair (h : s.Books) (hf : Fair s s') (hn : s'.world.Numbered) : s'.Books where
  numbered := hn
  proper := hf.proper h.proper
  placed q := by
    have := h.placed q
    have := hf.placed q
    omega
  issued n := by
    have := h.issued n
    have := hf.issued n
    omega
  named b hb := (hf.named b hb).elim (h.named b) id
  leased id := by
    have := h.leased id
    have := hf.leased id
    omega
  created id := by
    have := h.created id
    have := hf.created id
    omega
  discarded id := by
    have := h.discarded id
    have := hf.discarded id
    omega

theorem books_ofThreads (count : Nat) : (ofThreads count : ThreadedSystem μ σ).Books := by
  have hmem : ∀ st ∈ (ofThreads count : ThreadedSystem μ σ).threads, st = .ready :=
    fun st hst => eq_of_mem_replicate hst
  have hnil {β : Type} (f : Stage σ → List β) (hf : f .ready = []) :
      (ofThreads count : ThreadedSystem μ σ).threads.flatMap f = [] :=
    flatMap_eq_nil_iff.mpr fun st hst => hmem st hst ▸ hf
  refine ⟨⟨nodup_nil, by simp [ofThreads]⟩, ⟨by simp [ofThreads], fun st hst => ?_⟩, fun q => ?_,
    fun n => ?_, by simp [ofThreads], fun id => rfl, fun id => ?_, fun id => rfl⟩
  · rw [hmem st hst]
    simp [Stage.Proper, Stage.hands]
  · rw [placed, hnil _ rfl]
    rfl
  · rw [issued, hnil _ rfl]
    exact Nat.zero_le _
  · rw [uncounted, hnil _ rfl]
    rfl

end ThreadedSystem

namespace Scene

/-- The system with nothing but a scene. -/
def alone (c : Scene μ σ) : ThreadedSystem μ σ :=
  { world := { pools := [c.lending.pool], nextInstanceId := c.lending.nextId }
    ledger := c.ledger
    threads := [c.stage] }

variable {c : Scene μ σ} {inst : Instance σ}

@[simp] theorem placed_alone (c : Scene μ σ) :
    c.alone.placed = c.lending.pool.idle.map Instance.identity ++
      c.stage.hands.map Instance.identity ++ c.ledger.placed := by
  simp [alone, ThreadedSystem.placed]

@[simp] theorem issued_alone (c : Scene μ σ) :
    c.alone.issued = c.ledger.made.map Identity.id ++ c.stage.ids := by
  simp [alone, ThreadedSystem.issued]

@[simp] theorem uncounted_alone (c : Scene μ σ) (id : Nat) :
    c.alone.uncounted id = (c.stage.uncounted.map Instance.identity).countP (·.poolId = id) := by
  simp [alone, ThreadedSystem.uncounted]

@[simp] theorem tally_alone (c : Scene μ σ) (counter : Pool μ σ → Int) (id : Nat) :
    c.alone.tally counter id = if c.lending.pool.id = id then counter c.lending.pool else 0 := by
  simp [alone, ThreadedSystem.tally, Pool.tally]

@[simp] theorem ledger_alone (c : Scene μ σ) : c.alone.ledger = c.ledger := rfl

@[simp] theorem nextInstanceId_alone (c : Scene μ σ) :
    c.alone.world.nextInstanceId = c.lending.nextId := rfl

theorem proper_alone (c : Scene μ σ) :
    c.alone.Proper ↔ c.lending.pool.Proper ∧ c.stage.Proper := by
  constructor
  · exact fun h => ⟨h.pools _ (mem_singleton_self _), h.threads _ (mem_singleton_self _)⟩
  · rintro ⟨hpool, hstage⟩
    exact ⟨fun pool hpool' => mem_singleton.mp hpool' ▸ hpool,
      fun st hst => mem_singleton.mp hst ▸ hstage⟩

end Scene

namespace ThreadedSystem

variable {s : ThreadedSystem μ σ} {c c' : Scene μ σ} {thread pool : Nat}

theorem scene?_eq_some (h : s.scene? thread pool = some c) :
    s.threads[thread]? = some c.stage ∧ s.world.lending? pool = some c.lending ∧
      c.ledger = s.ledger := by
  unfold scene? at h
  split at h
  · rename_i hstage hlending
    obtain rfl := Option.some.inj h
    exact ⟨hstage, hlending, rfl⟩
  · cases h

/-- The system is a scene with other pools and other threads around it. -/
structure Around (s : ThreadedSystem μ σ) (c : Scene μ σ) (pools : List (Pool μ σ))
    (threads : List (Stage σ)) : Prop where
  pools : s.world.pools ~ c.lending.pool :: pools
  threads : s.threads ~ c.stage :: threads
  ledger_eq : s.ledger = c.ledger
  nextInstanceId_eq : s.world.nextInstanceId = c.lending.nextId

/-- A step of a thread leaves what is around its scene. -/
theorem exists_around (hn : s.world.Numbered) (hc : s.scene? thread pool = some c) :
    ∃ pools threads, s.Around c pools threads ∧
      ∀ c' : Scene μ σ, c'.lending.pool.id = c.lending.pool.id →
        (s.play thread c').Around c' pools threads := by
  obtain ⟨hstage, hlending, hledger⟩ := scene?_eq_some hc
  obtain ⟨hmem, -, hnext⟩ := World.lending?_eq_some hlending
  obtain ⟨pools, hpools, -, hpools'⟩ := hn.exists_perm_settle hmem
  obtain ⟨threads, hthreads, -, hthreads'⟩ := exists_perm_set hstage
  exact ⟨pools, threads, ⟨hpools, hthreads, hledger.symm, hnext.symm⟩, fun c' hid =>
    ⟨hpools' c'.lending hid, hthreads' c'.stage, rfl, rfl⟩⟩

namespace Around

variable {pools : List (Pool μ σ)} {threads : List (Stage σ)}

theorem proper_iff (h : s.Around c pools threads) :
    s.Proper ↔
      c.alone.Proper ∧ (∀ pool ∈ pools, pool.Proper) ∧ ∀ st ∈ threads, st.Proper := by
  have hpools : (∀ pool ∈ s.world.pools, pool.Proper) ↔
      c.lending.pool.Proper ∧ ∀ pool ∈ pools, pool.Proper := by
    simp only [h.pools.mem_iff, forall_mem_cons]
  have hthreads : (∀ st ∈ s.threads, st.Proper) ↔
      c.stage.Proper ∧ ∀ st ∈ threads, st.Proper := by
    simp only [h.threads.mem_iff, forall_mem_cons]
  rw [Scene.proper_alone]
  constructor
  · rintro ⟨hp, ht⟩
    exact ⟨⟨(hpools.mp hp).1, (hthreads.mp ht).1⟩, (hpools.mp hp).2, (hthreads.mp ht).2⟩
  · rintro ⟨⟨hpool, hstage⟩, hp, ht⟩
    exact ⟨hpools.mpr ⟨hpool, hp⟩, hthreads.mpr ⟨hstage, ht⟩⟩

theorem countP_placed (h : s.Around c pools threads) (q : Identity → Bool) :
    s.placed.countP q = c.alone.placed.countP q +
      ((pools.flatMap (·.idle.map Instance.identity)).countP q +
        (threads.flatMap (·.hands.map Instance.identity)).countP q) := by
  rw [Scene.placed_alone]
  simp only [placed, h.ledger_eq, countP_append, flatMap_cons,
    (h.pools.flatMap_right _).countP_eq, (h.threads.flatMap_right _).countP_eq]
  omega

theorem count_issued (h : s.Around c pools threads) (n : Nat) :
    s.issued.count n = c.alone.issued.count n + (threads.flatMap Stage.ids).count n := by
  rw [Scene.issued_alone]
  simp only [issued, h.ledger_eq, count_append, flatMap_cons,
    (h.threads.flatMap_right _).count_eq, Nat.add_assoc]

theorem tally_eq (h : s.Around c pools threads) (counter : Pool μ σ → Int) (id : Nat) :
    s.tally counter id = c.alone.tally counter id + Pool.tally counter id pools := by
  rw [Scene.tally_alone, tally, Pool.tally_perm h.pools, Pool.tally_cons]

theorem uncounted_eq (h : s.Around c pools threads) (id : Nat) :
    s.uncounted id = c.alone.uncounted id +
      (threads.flatMap (·.uncounted.map Instance.identity)).countP (·.poolId = id) := by
  rw [Scene.uncounted_alone, uncounted, (h.threads.flatMap_right _).countP_eq, flatMap_cons,
    countP_append]

end Around

/-- A fair change of a scene is a fair change of the system around it. -/
theorem fair_play (hn : s.world.Numbered) (hc : s.scene? thread pool = some c)
    (hid : c'.lending.pool.id = c.lending.pool.id) (hf : Fair c.alone c'.alone) :
    Fair s (s.play thread c') := by
  obtain ⟨pools, threads, h, hplay⟩ := exists_around hn hc
  have h' := hplay c' hid
  exact {
    proper := by
      rw [h.proper_iff, h'.proper_iff]
      exact fun hp => ⟨hf.proper hp.1, hp.2⟩
    placed := by
      intro q
      have := hf.placed q
      rw [h.countP_placed, h'.countP_placed, h.ledger_eq, h'.ledger_eq]
      simp only [Scene.ledger_alone] at this
      omega
    issued := by
      intro n
      have := hf.issued n
      rw [h.count_issued, h'.count_issued, h.nextInstanceId_eq, h'.nextInstanceId_eq]
      simp only [Scene.nextInstanceId_alone] at this
      omega
    named := by
      rw [h.ledger_eq, h'.ledger_eq]
      exact hf.named
    leased := by
      intro id
      have := hf.leased id
      rw [h.tally_eq, h'.tally_eq, h.ledger_eq, h'.ledger_eq]
      simp only [Scene.ledger_alone] at this
      omega
    created := by
      intro id
      have := hf.created id
      rw [h.tally_eq, h'.tally_eq, h.uncounted_eq, h'.uncounted_eq, h.ledger_eq, h'.ledger_eq]
      simp only [Scene.ledger_alone] at this
      omega
    discarded := by
      intro id
      have := hf.discarded id
      rw [h.tally_eq, h'.tally_eq, h.ledger_eq, h'.ledger_eq]
      simp only [Scene.ledger_alone] at this
      omega }

theorem Books.play (h : s.Books) (hc : s.scene? thread pool = some c)
    (hid : c'.lending.pool.id = c.lending.pool.id)
    (hf : c.alone.Proper → Fair c.alone c'.alone) : (s.play thread c').Books := by
  obtain ⟨hstage, hlending, -⟩ := scene?_eq_some hc
  have hp := (Scene.proper_alone c).mpr
    ⟨h.proper.pools _ (World.lending?_eq_some hlending).1,
      h.proper.threads _ (mem_of_getElem? hstage)⟩
  exact h.fair (fair_play h.numbered hc hid (hf hp)) (h.numbered.settle _)

/-- A change of what is out, and of the roll of those lost, which leaves every instance in one
    place. -/
theorem fair_ledger {l : Ledger σ} (hmade : l.made = s.ledger.made)
    (hplaced : ∀ q, l.placed.countP q = s.ledger.placed.countP q)
    (hout : ∀ id, l.out id = s.ledger.out id) (hdropped : l.dropped = s.ledger.dropped) :
    Fair s { s with ledger := l } where
  proper h := ⟨h.pools, h.threads⟩
  placed q := by
    simp only [placed, countP_append, hplaced q, hmade]
  issued n := by
    simp only [issued, hmade, Nat.le_refl]
  named b hb := .inl (hmade ▸ hb)
  leased id := by
    simp only [tally, hout]
  created id := by
    simp only [tally, uncounted, Ledger.madeBy, hmade]
  discarded id := by
    simp only [tally, Ledger.droppedOf, hdropped]

theorem fair_openPool (module : μ) (config : Config) :
    Fair s { s with toPoolSystem := s.openPool module config } where
  proper h := by
    refine ⟨fun pool hpool => ?_, h.threads⟩
    rcases mem_cons.mp hpool with rfl | hpool
    · simp [Pool.Proper]
    · exact h.pools pool hpool
  placed q := by
    simp [placed, PoolSystem.openPool, World.addPool]
  issued n := Nat.le_refl _
  named b hb := .inl hb
  leased id := by
    simp [tally, PoolSystem.openPool, World.addPool, Pool.tally_cons]
  created id := by
    simp [tally, uncounted, PoolSystem.openPool, World.addPool, Pool.tally_cons]
  discarded id := by
    simp [tally, PoolSystem.openPool, World.addPool, Pool.tally_cons]

theorem fair_loseAt (place : Nat) : Fair s { s with ledger := s.ledger.loseAt place } := by
  unfold Ledger.loseAt
  cases hh : s.ledger.held[place]? with
  | none => exact fair_ledger rfl (fun _ => rfl) (fun _ => rfl) rfl
  | some held =>
    refine fair_ledger rfl (fun q => ?_) (fun id => ?_) rfl
    · rw [Ledger.countP_placed_lose, Ledger.countP_placed_yield hh]
    · rw [Ledger.out_lose, Ledger.out_yield hh]

/-- A change of holdings that leaves who they are of. -/
theorem fair_modify (place : Nat) {f : Holding σ → Holding σ}
    (hf : ∀ h, (f h).inst.identity = h.inst.identity) :
    Fair s { s with ledger := { s.ledger with held := s.ledger.held.modify place f } } := by
  have hheld := map_modify_of_eq (g := fun h : Holding σ => h.inst.identity) hf s.ledger.held place
  exact fair_ledger rfl (fun q => by simp only [Ledger.placed, hheld])
    (fun id => by simp only [Ledger.out, hheld]) rfl

end ThreadedSystem

end PathSieve
